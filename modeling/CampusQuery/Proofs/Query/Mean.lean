import CampusQuery.Proofs.Number.Display
import CampusQuery.Query.Aggregate
import Mathlib

namespace CampusQuery.Aggregate

open FixedPoint

/-- Numbers with their displayed decimals, which have at most `k` places and whose sizes fit together
at these places. -/
structure Displayed (xs : List Binary64) (ds : List ℚ) (k : ℕ) : Prop where
  read : List.Forall₂ (fun x d => x.displayed? = some d) xs ds
  places : ∀ x ∈ xs, x.displayPlaces ≤ k
  places_le : k ≤ 28
  fits : (ds.map abs).sum * 10 ^ k < 2 ^ 96

/-- A sum that goes on from a total is exact while everything fits. -/
theorem foldlM_exact {xs : List Binary64} {ds : List ℚ} {k : ℕ} (hk : k ≤ maxScale)
    (hread : List.Forall₂ (fun x d => x.displayed? = some d) xs ds)
    (hplaces : ∀ x ∈ xs, x.displayPlaces ≤ k) (t : FixedPoint) (ht : t.scale ≤ k)
    (hfits : (|t.value| + (ds.map abs).sum) * 10 ^ k < coeffBound) :
    ∃ total, xs.foldlM (fun total x => do total.add? (← ofBinary64? x)) t = some total ∧
      total.value = t.value + ds.sum ∧ total.scale ≤ k := by
  induction hread generalizing t with
  | nil => exact ⟨t, rfl, by rw [List.sum_nil, add_zero], ht⟩
  | @cons x d xs ds hx _ ih =>
    rw [List.forall_mem_cons] at hplaces
    rw [List.map_cons, List.sum_cons] at hfits
    have hpow : (0 : ℚ) < 10 ^ k := by positivity
    have hrest : 0 ≤ (ds.map abs).sum := List.sum_nonneg fun _ h => by
      obtain ⟨a, -, rfl⟩ := List.mem_map.mp h
      exact abs_nonneg a
    have hsmaller {a : ℚ} (ha : a ≤ |t.value| + (|d| + (ds.map abs).sum)) :
        a * 10 ^ k < coeffBound := (mul_le_mul_of_nonneg_right ha hpow.le).trans_lt hfits
    -- A term and a partial total are no larger than the sizes of all terms together, which fit.
    obtain ⟨y, hy, hyvalue, hyscale⟩ := ofBinary64?_eq hx hplaces.1 hk
      (hsmaller (by linarith [abs_nonneg t.value]))
    have htriangle := abs_add_le t.value d
    obtain ⟨z, hz, hzvalue, hzscale⟩ := add?_eq ht hyscale
      (hyvalue ▸ hsmaller (by linarith))
    obtain ⟨total, htotal, hvalue, hscale⟩ := ih hplaces.2 z hzscale
      (hsmaller (by rw [hzvalue, hyvalue]; linarith))
    have hstep : (do t.add? (← ofBinary64? x)) = some z := by rw [hy]; exact hz
    refine ⟨total, ?_, ?_, hscale⟩
    · rw [List.foldlM_cons, hstep]
      exact htotal
    · rw [hvalue, hzvalue, hyvalue, List.sum_cons, add_assoc]

variable {xs : List Binary64} {ds : List ℚ} {k : ℕ}

theorem Displayed.exactSum?_eq (h : Displayed xs ds k) :
    ∃ total, exactSum? xs = some total ∧ total.value = ds.sum ∧ total.scale ≤ k := by
  have hfits := h.fits
  obtain ⟨total, htotal, hvalue, hscale⟩ := foldlM_exact h.places_le h.read h.places .zero
    (Nat.zero_le k) (by rw [value_zero, abs_zero, zero_add]; exact_mod_cast hfits)
  exact ⟨total, htotal, by rw [hvalue, value_zero, zero_add], hscale⟩

theorem Displayed.value_mean (h : Displayed xs ds k) (hne : xs ≠ []) :
    ∃ r, roundedMean? xs = some r ∧
      r.value = Tie.away.roundTo 2 (cut (ds.sum / xs.length)) := by
  obtain ⟨total, htotal, hvalue, hscale⟩ := h.exactSum?_eq
  have hsum : |total.value| * 10 ^ k < coeffBound := by
    have hfits : (ds.map abs).sum * 10 ^ k < coeffBound := by exact_mod_cast h.fits
    refine (mul_le_mul_of_nonneg_right ?_ (by positivity)).trans_lt hfits
    rw [hvalue]
    exact List.le_sum_of_subadditive abs abs_zero.le abs_add_le ds
  refine ⟨(total.divNat xs.length).roundPlaces Aggregate.places, by rw [roundedMean?, htotal]; rfl, ?_⟩
  rw [value_roundPlaces, value_divNat (List.length_pos_of_ne_nil hne)
    (natAbs_lt_of_value hscale hsum) (hscale.trans h.places_le), hvalue]
  rfl

/-- A midpoint between hundredths lies above one of the sizes and not above the other. -/
def PartedByMidpoint (p q : ℚ) : Prop :=
  ∃ n : ℕ, min |p| |q| < (2 * n + 1) / 200 ∧ (2 * n + 1 : ℚ) / 200 ≤ max |p| |q|

theorem roundTo_eq_iff {p q : ℚ} (hsign : 0 ≤ p * q) :
    Tie.away.roundTo 2 p = Tie.away.roundTo 2 q ↔ ¬PartedByMidpoint p q := by
  have hhalf (n : ℕ) : ((2 * n + 1 : ℚ) / 200) = (n + 1 / 2) / 10 ^ 2 := by ring
  rw [Tie.roundTo_away_eq_iff hsign]
  simp only [PartedByMidpoint, hhalf, lt_div_iff₀ (by norm_num : (0 : ℚ) < 10 ^ 2),
    div_le_iff₀ (by norm_num : (0 : ℚ) < 10 ^ 2)]

/-- Averages are cut to the places that fit, then rounded to hundredths. That is the true average
rounded once unless a midpoint between hundredths parts the average from its cut. -/
theorem roundedMean?_eq_iff (h : Displayed xs ds k) (hne : xs ≠ []) :
    ∃ r, roundedMean? xs = some r ∧
      r.value = Tie.away.roundTo 2 (cut (ds.sum / xs.length)) ∧
      (r.value = Tie.away.roundTo 2 (ds.sum / xs.length) ↔
        ¬PartedByMidpoint (cut (ds.sum / xs.length)) (ds.sum / xs.length)) := by
  obtain ⟨r, hr, hvalue⟩ := h.value_mean hne
  exact ⟨r, hr, hvalue, hvalue ▸ roundTo_eq_iff (cut_mul_self_nonneg _)⟩

/-- Their mean is a third of `10 ^ -28` below half a hundredth. -/
def belowMidpoint : List Binary64 :=
  [.ofDecimal false 5 (-3), .ofDecimal false 1 (-2), .ofDecimal true 1 (-28)]

theorem displayed_belowMidpoint :
    Displayed belowMidpoint [5 / 1000, 1 / 100, -1 / 10 ^ 28] 28 := by
  have hfirst : Binary64.ofDecimal false 5 (-3) =
      .finite false ⟨4572414629676717179, by decide⟩ := by decide +kernel
  have hsecond : Binary64.ofDecimal false 1 (-2) =
      .finite false ⟨4576918229304087675, by decide⟩ := by decide +kernel
  have hthird : Binary64.ofDecimal true 1 (-28) =
      .finite true ⟨4188260752279232537, by decide⟩ := by decide +kernel
  have h5 : Magnitude.shortest .away ⟨4572414629676717179, by decide⟩ = ⟨5, -3⟩ := by decide +kernel
  have h1 : Magnitude.shortest .away ⟨4576918229304087675, by decide⟩ = ⟨1, -2⟩ := by decide +kernel
  have hsmall : Magnitude.shortest .away ⟨4188260752279232537, by decide⟩ = ⟨1, -28⟩ := by decide +kernel
  rw [belowMidpoint, hfirst, hsecond, hthird]
  refine ⟨.cons ?_ (.cons ?_ (.cons ?_ .nil)), ?_, le_rfl, by norm_num⟩
  · rw [displayed?_finite, h5, Decimal.value]
    norm_num
  · rw [displayed?_finite, h1, Decimal.value]
    norm_num
  · rw [displayed?_finite, hsmall, Decimal.value]
    norm_num
  · intro x hx
    simp only [List.mem_cons, List.not_mem_nil, or_false] at hx
    rcases hx with rfl | rfl | rfl
    · rw [displayPlaces_finite, h5]
      decide
    · rw [displayPlaces_finite, h1]
      decide
    · rw [displayPlaces_finite, hsmall]
      decide

theorem roundedMean?_eq_iff_belowMidpoint :
    Displayed belowMidpoint [5 / 1000, 1 / 100, -1 / 10 ^ 28] 28 ∧
      ∃ r, roundedMean? belowMidpoint = some r ∧
        r.value = Tie.away.roundTo 2 (cut (([5 / 1000, 1 / 100, -1 / 10 ^ 28] : List ℚ).sum / 3)) ∧
        (r.value = Tie.away.roundTo 2 (([5 / 1000, 1 / 100, -1 / 10 ^ 28] : List ℚ).sum / 3) ↔
          ¬PartedByMidpoint (cut (([5 / 1000, 1 / 100, -1 / 10 ^ 28] : List ℚ).sum / 3))
            (([5 / 1000, 1 / 100, -1 / 10 ^ 28] : List ℚ).sum / 3)) :=
  ⟨displayed_belowMidpoint,
    roundedMean?_eq_iff displayed_belowMidpoint (List.cons_ne_nil _ _)⟩

/-- The average is given as a hundredth, but rounded once it is zero. -/
theorem roundedMean?_belowMidpoint : ∃ xs ds k, Displayed xs ds k ∧ xs ≠ [] ∧
    ∃ r, roundedMean? xs = some r ∧ r.value ≠ Tie.away.roundTo 2 (ds.sum / xs.length) := by
  have hr : roundedMean? belowMidpoint = some ⟨1, 2⟩ := by decide +kernel
  have hmean : ([5 / 1000, 1 / 100, -1 / 10 ^ 28] : List ℚ).sum / belowMidpoint.length =
      1 / 200 - 1 / (3 * 10 ^ 28) := by
    rw [belowMidpoint]
    norm_num
  have hnearest : Tie.away.nearest ((1 / 200 - 1 / (3 * 10 ^ 28)) * 10 ^ 2) = 0 := by
    have h := Tie.away.nearest_add 0 (f := (1 / 200 - 1 / (3 * 10 ^ 28)) * 10 ^ 2) (by norm_num)
      (by norm_num)
    rwa [Nat.cast_zero, zero_add, if_pos (.inl (by norm_num))] at h
  refine ⟨_, _, _, displayed_belowMidpoint, List.cons_ne_nil _ _, _, hr, ?_⟩
  rw [hmean, Tie.roundTo_of_nonneg _ _ (by norm_num), hnearest, value]
  norm_num

end CampusQuery.Aggregate
