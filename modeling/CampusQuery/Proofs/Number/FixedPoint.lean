import CampusQuery.Number.FixedPoint
import CampusQuery.Proofs.Number.Nearest
import CampusQuery.Proofs.Number.Shortest
import CampusQuery.Proofs.Number.Sum
import Mathlib

namespace CampusQuery.FixedPoint

def value (x : FixedPoint) : ℚ := x.coeff / 10 ^ x.scale

theorem value_zero : zero.value = 0 := by
  rw [value, show zero.coeff = 0 from rfl, Int.cast_zero, zero_div]

theorem sign_value (x : FixedPoint) : SignType.sign x.value = SignType.sign (x.coeff : ℚ) := by
  rw [value, div_eq_mul_inv, sign_mul, sign_pos (a := ((10 : ℚ) ^ x.scale)⁻¹) (by positivity),
    mul_one]

theorem abs_value (x : FixedPoint) : |x.value| = x.coeff.natAbs / 10 ^ x.scale := by
  rw [value, abs_div, abs_of_pos (by positivity : (0 : ℚ) < 10 ^ x.scale), Nat.cast_natAbs,
    Int.cast_abs]

theorem value_signed {c : ℤ} {n s : ℕ} (h : c = 0 → n = 0) :
    value ⟨signed (decide (c < 0)) n, s⟩ = SignType.sign (c : ℚ) * (n / 10 ^ s) := by
  rw [value, signed]
  rcases lt_trichotomy c 0 with hc | rfl | hc
  · rw [if_pos (decide_eq_true hc), sign_neg (by exact_mod_cast hc), SignType.coe_neg,
      SignType.coe_one]
    push_cast
    ring
  · simp [h rfl]
  · rw [if_neg (by simpa using hc.le), sign_pos (by exact_mod_cast hc), SignType.coe_one, one_mul]
    push_cast
    rfl

theorem natAbs_lt_of_value {x : FixedPoint} {k : ℕ} (hscale : x.scale ≤ k)
    (h : |x.value| * 10 ^ k < coeffBound) : x.coeff.natAbs < coeffBound := by
  have hle : (x.coeff.natAbs : ℚ) ≤ |x.value| * 10 ^ k := by
    rw [abs_value, div_mul_eq_mul_div, le_div_iff₀ (by positivity)]
    gcongr
    norm_num
  exact_mod_cast hle.trans_lt h

theorem value_roundPlaces (places : ℕ) (x : FixedPoint) :
    (roundPlaces places x).value = Tie.away.roundTo places x.value := by
  unfold roundPlaces
  split
  · rename_i hscale
    apply Eq.symm
    apply Tie.away.roundTo_of_places (n := x.coeff.natAbs * 10 ^ (places - x.scale))
    rw [abs_value, div_mul_eq_mul_div, div_eq_iff (by positivity)]
    push_cast
    rw [mul_assoc, ← pow_add, Nat.sub_add_cancel hscale]
  · rename_i hscale
    have hpow : (10 : ℚ) ^ x.scale = 10 ^ (x.scale - places) * 10 ^ places := by
      rw [← pow_add, Nat.sub_add_cancel (by omega)]
    have hround : roundDiv .away x.coeff.natAbs (Nat.pow 10 (x.scale - places)) =
        Tie.away.nearest (|x.value| * 10 ^ places) := by
      rw [Nat.pow_eq, roundDiv_eq_nearest _ _ (Nat.pow_pos (by norm_num)), abs_value, hpow]
      congr 1
      push_cast
      field_simp
    rw [value_signed, ← sign_value, hround, Tie.roundTo]
    intro hc
    rw [hc]
    exact roundDiv_of_dvd _ (Nat.pow_pos (by norm_num)) (dvd_zero _) |>.trans (Nat.zero_div _)

theorem value_eq_of_le {x : FixedPoint} {scale : ℕ} (h : x.scale ≤ scale) :
    x.value = x.coeff * 10 ^ (scale - x.scale) / 10 ^ scale := by
  rw [value, div_eq_div_iff (by positivity) (by positivity), mul_assoc, ← pow_add,
    Nat.sub_add_cancel h]

/-- A sum is exact if it fits at the places of both terms. -/
theorem add?_eq {x y : FixedPoint} {k : ℕ} (hx : x.scale ≤ k) (hy : y.scale ≤ k)
    (h : |x.value + y.value| * 10 ^ k < coeffBound) :
    ∃ z, x.add? y = some z ∧ z.value = x.value + y.value ∧ z.scale ≤ k := by
  unfold add?
  split
  · rename_i hc
    exact ⟨y, rfl, by simp [value, hc], hy⟩
  · split
    · rename_i hc
      exact ⟨x, rfl, by simp [value, hc], hx⟩
    · have hscale : max x.scale y.scale ≤ k := max_le hx hy
      have hvalue : value ⟨x.coeff * Nat.pow 10 (max x.scale y.scale - x.scale) +
          y.coeff * Nat.pow 10 (max x.scale y.scale - y.scale), max x.scale y.scale⟩ =
          x.value + y.value := by
        rw [value_eq_of_le (le_max_left x.scale y.scale),
          value_eq_of_le (le_max_right x.scale y.scale), ← add_div, value, Nat.pow_eq, Nat.pow_eq]
        push_cast
        rfl
      rw [← hvalue] at h
      exact ⟨_, fit?_of_lt (natAbs_lt_of_value hscale h) _, hvalue, hscale⟩

/-- The places at which the coefficient of a value fits, as many as there may be. -/
def places (q : ℚ) : ℕ :=
  Nat.findGreatest (fun s => Tie.even.nearest (|q| * 10 ^ s) < coeffBound) maxScale

def cut (q : ℚ) : ℚ := Tie.even.roundTo (places q) q

theorem cut_eq (q : ℚ) : cut q = SignType.sign q * cut |q| := by
  have hplaces : places |q| = places q := by rw [places, places, abs_abs]
  rw [cut, cut, hplaces, Tie.roundTo_of_nonneg _ _ (abs_nonneg q), Tie.roundTo]

theorem cut_mul_self_nonneg (q : ℚ) : 0 ≤ cut q * q := by
  have hcut : 0 ≤ cut |q| := by
    rw [cut, Tie.roundTo_of_nonneg _ _ (abs_nonneg q)]
    positivity
  rw [cut_eq, mul_right_comm, sign_mul_self]
  exact mul_nonneg (abs_nonneg q) hcut

theorem cut_zero : cut 0 = 0 := by
  rw [cut_eq, sign_zero, SignType.coe_zero, zero_mul]

/-- The coefficient `c` at `s` places is the nearest to `q`, and no more places are needed, allowed
or fit. -/
structure IsCut (q : ℚ) (c s : ℕ) : Prop where
  scale_le : s ≤ maxScale
  lt : c < coeffBound
  eq : c = Tie.even.nearest (q * 10 ^ s)
  last : (c : ℚ) = q * 10 ^ s ∨ s = maxScale ∨ coeffBound ≤ Tie.even.nearest (q * 10 ^ (s + 1))

theorem IsCut.value_eq {q : ℚ} {c s : ℕ} (h : IsCut q c s) (hq : 0 ≤ q) : c / 10 ^ s = cut q := by
  have hfits : Tie.even.nearest (|q| * 10 ^ s) < coeffBound := by
    rw [abs_of_nonneg hq, ← h.eq]
    exact h.lt
  have hsp : s ≤ places q := Nat.le_findGreatest h.scale_le hfits
  have hp : places q ≤ maxScale := Nat.findGreatest_le _
  have hlast : Tie.even.nearest (|q| * 10 ^ places q) < coeffBound :=
    Nat.findGreatest_spec (P := fun s => Tie.even.nearest (|q| * 10 ^ s) < coeffBound)
      h.scale_le hfits
  rw [abs_of_nonneg hq] at hlast
  have hsame (hplaces : places q = s) : c / 10 ^ s = cut q := by
    rw [cut, hplaces, Tie.roundTo_of_nonneg _ _ hq, ← h.eq]
  rcases h.last with hexact | hs | hmore
  · -- Further places of an exact value are zeros.
    have hvalue : q = c / 10 ^ s := by rw [hexact, mul_div_cancel_right₀ _ (by positivity)]
    have hwhole : |q| * 10 ^ places q = (c * 10 ^ (places q - s) : ℕ) := by
      push_cast
      rw [abs_of_nonneg hq, hexact, mul_assoc, ← pow_add, Nat.add_sub_cancel' hsp]
    rw [cut, Tie.roundTo_of_places _ hwhole, ← hvalue]
  · exact hsame (by omega)
  · refine hsame (le_antisymm (not_lt.mp fun hlt => ?_) hsp)
    have hpow : (10 : ℚ) ^ (s + 1) ≤ 10 ^ places q := pow_le_pow_right₀ (by norm_num) hlt
    have hmono := Tie.even.nearest_mono (by positivity) (mul_le_mul_of_nonneg_left hpow hq)
    omega

theorem growth_spec {c most : ℕ} (h : 0 < growth c most) :
    c * Nat.pow 10 (growth c most) < coeffBound := by
  induction most with
  | zero => cases h
  | succ most ih =>
    unfold growth at h ⊢
    split
    · assumption
    · rename_i hge
      rw [if_neg hge] at h
      exact ih h

theorem coeffBound_le_of_growth {c most : ℕ} (h : growth c most = 0) (hmost : 0 < most) :
    coeffBound ≤ c * 10 := by
  induction most with
  | zero => cases hmost
  | succ most ih =>
    unfold growth at h
    split at h
    · cases h
    · rename_i hge
      rcases Nat.eq_zero_or_pos most with rfl | hpos
      · exact not_lt.mp hge
      · exact ih h hpos

theorem ratio_lt (num : ℕ) {den : ℕ} (hd : 0 < den) : (num : ℚ) / den < (num / den : ℕ) + 1 := by
  have hden : (0 : ℚ) < den := by exact_mod_cast hd
  rw [div_lt_iff₀ hden]
  exact_mod_cast Nat.lt_mul_of_div_lt (Nat.lt_succ_self (num / den)) hd

theorem ratio_mul_pow (num den k : ℕ) :
    ((num * Nat.pow 10 k : ℕ) : ℚ) / den = num / den * 10 ^ k := by
  rw [Nat.cast_mul, mul_div_right_comm, Nat.pow_eq]
  push_cast
  rfl

section Quotient

variable {q : ℚ} {num den scale : ℕ} (hd : 0 < den) (hq : (num : ℚ) / den = q * 10 ^ scale)

include hd hq

theorem nonneg_of_ratio : 0 ≤ q := by
  have h : 0 ≤ q * 10 ^ scale := hq ▸ by positivity
  exact nonneg_of_mul_nonneg_left h (by positivity)

theorem roundDiv_ratio (tie : Tie) : roundDiv tie num den = tie.nearest (q * 10 ^ scale) := by
  rw [roundDiv_eq_nearest tie num hd, hq]

/-- Where the coefficient reaches the bound, one place less is enough. -/
theorem isCut_settle (hscale : scale ≤ maxScale)
    (hlast : scale = maxScale ∨ coeffBound ≤ Tie.even.nearest (q * 10 ^ (scale + 1)))
    (hless : coeffBound ≤ roundDiv .even num den →
      0 < scale ∧ (num : ℚ) / den < 10 * (coeffBound - 1)) :
    IsCut q (settle num den scale).1 (settle num den scale).2 := by
  have hcoeff := roundDiv_ratio hd hq .even
  simp only [settle]
  split
  · rename_i hlt
    exact ⟨hscale, hlt, hcoeff, .inr hlast⟩
  -- The coefficient reaches the bound, so the quotient is taken to one place less.
  · rename_i hge
    obtain ⟨hpos, hbound⟩ := hless (not_lt.mp hge)
    have hq' : (num : ℚ) / (10 * den : ℕ) = q * 10 ^ (scale - 1) := by
      rw [Nat.cast_mul, mul_comm, div_mul_eq_div_div, hq, div_eq_iff (by norm_num), mul_assoc,
        Nat.cast_ofNat, ← pow_succ, Nat.sub_add_cancel hpos]
    have hround := roundDiv_ratio (Nat.mul_pos (by norm_num) hd) hq' .even
    refine ⟨(Nat.sub_le _ _).trans hscale, ?_, hround, .inr (.inr ?_)⟩
    · have hnear := (abs_le.mp (Tie.even.abs_sub_nearest_le (q := q * 10 ^ (scale - 1))
        (mul_nonneg (nonneg_of_ratio hd hq) (by positivity)))).1
      rw [hround]
      rw [← hq', Nat.cast_mul, mul_comm, div_mul_eq_div_div] at hnear ⊢
      have : (Tie.even.nearest ((num : ℚ) / den / (10 : ℕ)) : ℚ) < coeffBound := by
        push_cast at *
        linarith
      exact_mod_cast this
    · rw [Nat.sub_add_cancel hpos, ← hcoeff]
      exact not_lt.mp hge

/-- A division without a rest is exact. -/
theorem isCut_of_mod_eq_zero (hscale : scale ≤ maxScale) (hwhole : num / den < coeffBound)
    (hmod : num % den = 0) : IsCut q (num / den) scale := by
  have hden : (den : ℚ) ≠ 0 := Nat.cast_ne_zero.mpr hd.ne'
  have hexact : (num : ℚ) / den = (num / den : ℕ) :=
    (Nat.cast_div (Nat.dvd_of_mod_eq_zero hmod) hden).symm
  refine ⟨hscale, hwhole, ?_, .inl (hexact.symm.trans hq)⟩
  rw [← hq, hexact, Tie.nearest_natCast]

/-- Where no further place fits, or none is left. -/
theorem isCut_settle_of_stop (hscale : scale ≤ maxScale) (hwhole : num / den < coeffBound)
    (hfirst : scale = 0 → num < coeffBound) (hmod : num % den ≠ 0)
    (hstop : growth (num / den) (min 9 (maxScale - scale)) = 0) :
    IsCut q (settle num den scale).1 (settle num den scale).2 := by
  have hratio := ratio_lt num hd
  have hbound : ((num / den : ℕ) : ℚ) + 1 ≤ coeffBound := by exact_mod_cast hwhole
  refine isCut_settle hd hq hscale ?_ fun hge => ⟨Nat.pos_of_ne_zero fun hzero => ?_, ?_⟩
  · refine (Nat.eq_or_lt_of_le hscale).imp_right fun hlt => ?_
    refine (coeffBound_le_of_growth hstop (by omega)).trans (Tie.even.le_nearest ?_)
    rw [pow_succ, ← mul_assoc, ← hq, Nat.cast_mul, Nat.cast_ofNat]
    gcongr
    exact Nat.cast_div_le
  · -- A division that leaves a rest has at most half of the coefficient as its result.
    have hden2 : 2 ≤ den := by
      by_contra hlt
      exact hmod (by rw [show den = 1 by omega, Nat.mod_one])
    have hhalf : num / den ≤ num / 2 := Nat.div_le_div_left hden2 two_pos
    have hround := roundDiv_le .even num den
    have hlt := hfirst hzero
    have hlarge : 4 ≤ coeffBound := by decide
    omega
  · have hlarge : (4 : ℚ) ≤ coeffBound := by exact_mod_cast (by decide : 4 ≤ coeffBound)
    linarith

/-- Where the places that were guessed to fit are too many, at most one of them is. -/
theorem isCut_settle_of_overshoot {k : ℕ} (hk : 0 < k) (hk9 : k ≤ 9) (hscale : scale + k ≤ maxScale)
    (hfits : num / den * Nat.pow 10 k < coeffBound)
    (hge : coeffBound ≤ num * Nat.pow 10 k / den) :
    IsCut q (settle (num * Nat.pow 10 k) den (scale + k)).1
      (settle (num * Nat.pow 10 k) den (scale + k)).2 := by
  have hmore : ((num * Nat.pow 10 k : ℕ) : ℚ) / den = q * 10 ^ (scale + k) := by
    rw [ratio_mul_pow, hq, mul_assoc, ← pow_add]
  refine isCut_settle hd hmore hscale (.inr ?_) fun _ => ⟨by omega, ?_⟩
  · refine hge.trans (Tie.even.le_nearest ?_)
    rw [pow_succ, ← mul_assoc, ← hmore]
    calc ((num * Nat.pow 10 k / den : ℕ) : ℚ) ≤ (num * Nat.pow 10 k : ℕ) / den := Nat.cast_div_le
      _ ≤ (num * Nat.pow 10 k : ℕ) / den * 10 :=
        le_mul_of_one_le_right (by positivity) (by norm_num)
  · have hgrow : (num / den + 1) * 10 ^ k ≤ coeffBound + 10 ^ 9 := by
      have hpow : 10 ^ k ≤ 10 ^ 9 := Nat.pow_le_pow_right (by norm_num) hk9
      rw [add_mul, one_mul]
      exact Nat.add_le_add hfits.le hpow
    have hlarge : (10 ^ 9 + 10 : ℚ) ≤ coeffBound := by
      exact_mod_cast (by decide : 10 ^ 9 + 10 ≤ coeffBound)
    calc ((num * Nat.pow 10 k : ℕ) : ℚ) / den = num / den * 10 ^ k := ratio_mul_pow num den k
      _ < ((num / den : ℕ) + 1) * 10 ^ k := by
          gcongr
          exact ratio_lt num hd
      _ ≤ coeffBound + 10 ^ 9 := by exact_mod_cast hgrow
      _ ≤ 10 * (coeffBound - 1) := by linarith

end Quotient

theorem isCut_quotient {q : ℚ} {num den scale : ℕ} (hd : 0 < den)
    (hq : (num : ℚ) / den = q * 10 ^ scale) (hscale : scale ≤ maxScale)
    (hwhole : num / den < coeffBound) (hfirst : scale = 0 → num < coeffBound) :
    IsCut q (quotient num den scale).1 (quotient num den scale).2 := by
  fun_induction quotient num den scale with
  | case1 num scale hmod => exact isCut_of_mod_eq_zero hd hq hscale hwhole hmod
  | case2 num scale hmod k hk => exact isCut_settle_of_stop hd hq hscale hwhole hfirst hmod hk
  | case3 num scale hmod k hk hge =>
    have hle : k ≤ min 9 (maxScale - scale) := growth_le _ _
    have hpos : 0 < k := Nat.pos_of_ne_zero hk
    exact isCut_settle_of_overshoot hd hq hpos (by omega) (by omega) (growth_spec hpos) hge
  | case4 num scale hmod k hk hlt ih =>
    have hle : k ≤ min 9 (maxScale - scale) := growth_le _ _
    refine ih ?_ (by omega) (not_le.mp hlt) (by omega)
    rw [ratio_mul_pow, hq, mul_assoc, ← pow_add]

theorem dropPlaces_value (k c s : ℕ) :
    ((dropPlaces k c s).1 : ℚ) / 10 ^ (dropPlaces k c s).2 = c / 10 ^ s := by
  unfold dropPlaces
  split
  · rename_i h
    obtain ⟨hk, hmod⟩ := h
    rw [Nat.pow_eq] at hmod ⊢
    rw [Nat.cast_div (Nat.dvd_of_mod_eq_zero hmod) (by positivity), div_div, Nat.cast_pow,
      Nat.cast_ofNat, ← pow_add, Nat.add_sub_cancel' hk]
  · rfl

theorem dropEights_value (c s : ℕ) :
    ((dropEights c s).1 : ℚ) / 10 ^ (dropEights c s).2 = c / 10 ^ s := by
  fun_induction dropEights c s with
  | case1 c s h ih =>
    have hone := dropPlaces_value 8 c s
    rw [dropPlaces, if_pos ⟨h.1, h.2.2⟩] at hone
    exact ih.trans hone
  | case2 => rfl

theorem dropZeros_value (c s : ℕ) :
    ((dropZeros c s).1 : ℚ) / 10 ^ (dropZeros c s).2 = c / 10 ^ s := by
  simp only [dropZeros, dropPlaces_value, dropEights_value]

/-- The quotient by a count is the true one, cut to the places that fit. -/
theorem value_divNat {x : FixedPoint} {n : ℕ} (hn : 0 < n) (hcoeff : x.coeff.natAbs < coeffBound)
    (hscale : x.scale ≤ maxScale) : (x.divNat n).value = cut (x.value / n) := by
  have hn' : (0 : ℚ) < n := by exact_mod_cast hn
  have hratio : (x.coeff.natAbs : ℚ) / n = |x.value / n| * 10 ^ x.scale := by
    rw [abs_div, Nat.abs_cast, abs_value]
    field_simp
  have hcut := isCut_quotient hn hratio hscale ((Nat.div_le_self _ _).trans_lt hcoeff)
    fun _ => hcoeff
  have hquotient := hcut.value_eq (abs_nonneg _)
  have hsign : SignType.sign (x.value / n) = SignType.sign (x.coeff : ℚ) := by
    rw [div_eq_mul_inv, sign_mul, sign_pos (inv_pos.mpr hn'), mul_one, sign_value]
  simp only [divNat]
  generalize quotient x.coeff.natAbs n x.scale = cs at hquotient ⊢
  -- Whether zeros are dropped or not, the quotient has the same value.
  obtain ⟨c, s, hpair, hvalue⟩ : ∃ c s, (if x.coeff.natAbs % n = 0 then (cs.1, cs.2) else
      dropZeros cs.1 cs.2) = (c, s) ∧ (c : ℚ) / 10 ^ s = cut |x.value / n| := by
    split
    · exact ⟨cs.1, cs.2, rfl, hquotient⟩
    · exact ⟨_, _, rfl, (dropZeros_value cs.1 cs.2).trans hquotient⟩
  simp only [hpair]
  rw [value_signed, hvalue, ← hsign, ← cut_eq]
  intro hc
  have hzero : x.value = 0 := by rw [value, hc, Int.cast_zero, zero_div]
  rw [hzero, zero_div, abs_zero, cut_zero, div_eq_zero_iff] at hvalue
  exact_mod_cast hvalue.resolve_right (by positivity)

end CampusQuery.FixedPoint
