import CampusQuery.Proofs.Number.Shortest
import CampusQuery.Proofs.Number.Whole
import CampusQuery.Query.Aggregate

namespace CampusQuery

namespace FixedPoint

/-- A whole number has no places in fixed point. -/
theorem ofBinary64?_of_toInt? {x : Binary64} {n : ℤ} (h : x.toInt? = some n)
    (hn : n.natAbs < 2 ^ 53) : ofBinary64? x = some ⟨n, 0⟩ := by
  cases x with
  | infinite s => cases h
  | quietNaN s p => cases h
  | finite s m =>
    have hvalue := Binary64.value_of_toInt? h
    rw [Binary64.toInt?_of_value hvalue, Option.some.injEq] at h
    have hsigned : signed s n.natAbs = n := h
    obtain ⟨hexp, hdigits⟩ : 0 ≤ (m.shortest .away).exponent ∧
        (m.shortest .away).digits * Nat.pow 10 (m.shortest .away).exponent.toNat = n.natAbs := by
      by_cases hm : m = .zero
      · rw [hm, Magnitude.value_zero] at hvalue
        have hzero : n.natAbs = 0 := by exact_mod_cast hvalue.symm
        rw [hm, hzero]
        exact ⟨le_rfl, rfl⟩
      · have hpos : 0 < m.val := Nat.pos_of_ne_zero fun hval => hm (Fin.ext hval)
        obtain ⟨hshort, hexp⟩ := Magnitude.shortest_of_whole .away hpos hvalue hn
        refine ⟨hexp, ?_⟩
        rw [Decimal.value, ten_zpow_eq, Int.toNat_of_nonpos (by omega : -_ ≤ 0)] at hshort
        have hcast : (((m.shortest .away).digits *
            10 ^ (m.shortest .away).exponent.toNat : ℕ) : ℚ) = n.natAbs := by
          rw [Nat.cast_mul]
          simpa using hshort
        exact_mod_cast hcast
    have hbound : n.natAbs < coeffBound := hn.trans (by decide)
    rw [ofBinary64?, ofDecimal?, if_pos hexp, hdigits]
    simp only [if_pos hbound, hsigned]

theorem signed_natAbs (c : ℤ) : signed (decide (c < 0)) c.natAbs = c := by
  unfold signed
  by_cases h : c < 0
  · rw [if_pos (decide_eq_true h)]
    omega
  · rw [if_neg (by simpa using h)]
    omega

/-- A coefficient below the bound keeps all its places. -/
theorem fit?_of_lt {c : ℤ} (h : c.natAbs < coeffBound) (scale : ℕ) :
    fit? c scale = some ⟨c, scale⟩ := by
  have hround : roundDiv .even c.natAbs 1 = c.natAbs := by
    rw [roundDiv_of_dvd _ one_pos (one_dvd _), Nat.div_one]
  simp [fit?, List.range_succ_eq_map, hround, h, signed_natAbs]

theorem add?_whole {a b : ℤ} (h : (a + b).natAbs < coeffBound) :
    add? ⟨a, 0⟩ ⟨b, 0⟩ = some ⟨a + b, 0⟩ := by
  unfold add?
  split
  · rename_i ha
    rw [show a = 0 from ha, zero_add]
  · split
    · rename_i hb
      rw [show b = 0 from hb, add_zero]
    · simpa using fit?_of_lt h 0

theorem toInt?_toBinary64 {n : ℤ} (h : n.natAbs < 2 ^ 53) :
    (toBinary64 ⟨n, 0⟩).toInt? = some n := by
  have hwhole := Binary64.toInt?_ofNat h
  unfold toBinary64
  simp only [Nat.pow_eq, pow_zero, Nat.mod_one, if_true, Nat.div_one]
  split
  · rw [Binary64.toInt?_neg hwhole]
    congr 1
    omega
  · rw [hwhole]
    congr 1
    omega

end FixedPoint

namespace Aggregate

theorem foldlM_whole {xs : List Binary64} {ns : List ℤ}
    (h : List.Forall₂ (fun x n => x.toInt? = some n) xs ns) (a : ℤ)
    (hbound : a.natAbs + (ns.map Int.natAbs).sum < 2 ^ 53) :
    xs.foldlM (fun total x => do total.add? (← FixedPoint.ofBinary64? x)) (⟨a, 0⟩ : FixedPoint) =
      some ⟨a + ns.sum, 0⟩ := by
  induction h generalizing a with
  | nil => rw [List.foldlM_nil, List.sum_nil, add_zero]; rfl
  | @cons x n xs ns hx _ ih =>
    rw [List.map_cons, List.sum_cons] at hbound
    have hsum : (a + n).natAbs ≤ a.natAbs + n.natAbs := Int.natAbs_add_le a n
    have hfits : (a + n).natAbs < FixedPoint.coeffBound := by
      have : 2 ^ 53 < FixedPoint.coeffBound := by decide
      omega
    have hfirst : FixedPoint.ofBinary64? x = some ⟨n, 0⟩ :=
      FixedPoint.ofBinary64?_of_toInt? hx (by omega)
    have hstep : (do (⟨a, 0⟩ : FixedPoint).add? (← FixedPoint.ofBinary64? x)) = some ⟨a + n, 0⟩ := by
      rw [hfirst]
      exact FixedPoint.add?_whole hfits
    rw [List.foldlM_cons, hstep, List.sum_cons, ← add_assoc]
    exact ih (a + n) (by omega)

theorem natAbs_sum_le (ns : List ℤ) : ns.sum.natAbs ≤ (ns.map Int.natAbs).sum := by
  induction ns with
  | nil => rfl
  | cons n ns ih =>
    rw [List.sum_cons, List.map_cons, List.sum_cons]
    have := Int.natAbs_add_le n ns.sum
    omega

/-- The sum of whole numbers is their exact sum while their magnitudes add up to less than
fifty-three bits. -/
theorem toInt?_sum {xs : List Binary64} {ns : List ℤ}
    (h : List.Forall₂ (fun x n => x.toInt? = some n) xs ns)
    (hbound : (ns.map Int.natAbs).sum < 2 ^ 53) : (sum xs).toInt? = some ns.sum := by
  have hexact : exactSum? xs = some ⟨ns.sum, 0⟩ := by
    have := foldlM_whole h 0 (by simpa using hbound)
    rwa [zero_add] at this
  have hrounded : roundedSum? xs = some ⟨ns.sum, 0⟩ := by
    rw [roundedSum?, hexact]
    rfl
  unfold sum
  rw [hrounded]
  exact FixedPoint.toInt?_toBinary64 ((natAbs_sum_le ns).trans_lt hbound)

end Aggregate

end CampusQuery
