import CampusQuery.Proofs.Number.Size
import CampusQuery.Proofs.Query.Aggregate

namespace CampusQuery

open Outcome

namespace Binary64

variable {x : Binary64}

/-- A number that has hundredths is not large. -/
theorem within_of_lt_wholeFrom (h : x.abs.lt Aggregate.wholeFrom = true) : x.Within 50 := by
  have hlevel : Aggregate.wholeFrom.level? = some 4831355200913801216 := by decide +kernel
  obtain ⟨i, j, hi, hj, hlt⟩ := lt_iff.mp h
  obtain rfl := Option.some.inj (hlevel.symm.trans hj)
  cases x with
  | infinite s =>
    obtain rfl := Option.some.inj hi
    exact absurd hlt (by decide)
  | quietNaN s p => cases hi
  | finite s m =>
    obtain rfl := Option.some.inj hi
    have hbits : (m.val : ℤ) < 4831355200913801216 := hlt
    have hexp : m.exponent ≤ -3 := by
      rcases lt_or_ge m.val 0x10_0000_0000_0000 with hm | hm
      · rw [Magnitude.exponent_of_lt hm]
        omega
      · rw [Magnitude.exponent_of_le hm]
        omega
    have hmant : (m.mantissa : ℚ) ≤ 2 ^ 53 := by exact_mod_cast m.mantissa_lt.le
    refine ⟨s, m, rfl, ?_⟩
    calc m.value ≤ 2 ^ 53 * 2 ^ (-3 : ℤ) := mul_le_mul hmant
          (zpow_le_zpow_right₀ one_le_two hexp) (by positivity) (by positivity)
      _ = 2 ^ 50 := by norm_num

/-- Divided by a count, a number is finite only if it was. -/
theorem isFinite_div_ofNat {n : ℕ} (hn : 0 < n) (h : n ≤ 2 ^ 64) :
    (x.div (ofNat n)).isFinite = x.isFinite := by
  obtain ⟨m, hm, hone⟩ := exists_ofNat hn (by norm_num) h
  rw [hm]
  cases x with
  | finite s m => exact isFinite_div hone
  | _ => rfl

end Binary64

namespace Aggregate

variable {xs : List Binary64}

/-- Neither does the exact sum fit nor is the sum in doubles, from left to right, finite. -/
def Overflows (xs : List Binary64) : Prop :=
  exactSum? xs = none ∧ (doubleSum xs).isFinite = false

theorem isFinite_roundHundredths (x : Binary64) : (roundHundredths x).isFinite = x.isFinite := by
  unfold roundHundredths
  simp only
  split
  · rename_i hlt
    have hx := Binary64.within_of_lt_wholeFrom hlt
    obtain ⟨m, hm, hone⟩ := Binary64.exists_ofNat (n := 100) (k := 7) (by norm_num) (by norm_num)
      (by norm_num)
    have hhundred := Binary64.within_ofNat (n := 100) (k := 7) (by norm_num) (by norm_num)
    have hwhole := (hx.mul hhundred (by norm_num)).round (by norm_num)
    rw [hx.isFinite]
    rw [hm] at hwhole ⊢
    exact (hwhole.div (by norm_num) hone).isFinite
  · rfl

theorem foldlM_size {total r : FixedPoint} (ht : |total.value| ≤ FixedPoint.coeffBound)
    (h : xs.foldlM (fun total x => do total.add? (← FixedPoint.ofBinary64? x)) total = some r) :
    |r.value| ≤ FixedPoint.coeffBound := by
  induction xs generalizing total with
  | nil =>
    cases h
    exact ht
  | cons x xs ih =>
    rw [List.foldlM_cons] at h
    obtain ⟨next, hnext, h⟩ := Option.bind_eq_some_iff.mp h
    obtain ⟨y, hy, hadd⟩ := Option.bind_eq_some_iff.mp hnext
    exact ih (FixedPoint.abs_value_add?_le ht (FixedPoint.abs_value_ofBinary64?_le hy) hadd) h

theorem abs_value_exactSum?_le {total : FixedPoint} (h : exactSum? xs = some total) :
    |total.value| ≤ FixedPoint.coeffBound := by
  refine foldlM_size ?_ h
  rw [FixedPoint.value_zero, abs_zero]
  positivity

/-- Rounded to hundredths, the exact results are finite doubles. -/
theorem isFinite_of_rounded {r : FixedPoint} (h : |r.value| ≤ FixedPoint.coeffBound + 1) :
    (r.roundPlaces places).toBinary64.isFinite = true := by
  have hscale : (r.roundPlaces places).scale ≤ FixedPoint.maxScale :=
    (FixedPoint.scale_roundPlaces_le places r).trans (by decide)
  have hbound : (FixedPoint.coeffBound + 2 : ℚ) ≤ 2 ^ 100 := by
    exact_mod_cast (by decide +kernel : FixedPoint.coeffBound + 2 ≤ 2 ^ 100)
  have hround := FixedPoint.abs_value_roundPlaces_le places r
  exact FixedPoint.isFinite_toBinary64 hscale (by linarith)

theorem isFinite_sum_iff (xs : List Binary64) : (sum xs).isFinite = true ↔ ¬Overflows xs := by
  unfold sum roundedSum? Overflows
  cases h : exactSum? xs with
  | none => simp [isFinite_roundHundredths]
  | some total =>
    have hsize := abs_value_exactSum?_le h
    simpa using isFinite_of_rounded (hsize.trans (by linarith))

theorem isFinite_mean_iff (hlength : xs.length ≤ 2 ^ 64) :
    (mean xs).isFinite = true ↔ ¬Overflows xs := by
  unfold mean roundedMean? Overflows
  cases h : exactSum? xs with
  | none =>
    have hpos : 0 < xs.length := by
      apply List.length_pos_of_ne_nil
      rintro rfl
      cases h
    simp [isFinite_roundHundredths, Binary64.isFinite_div_ofNat hpos hlength]
  | some total =>
    have hsize := abs_value_exactSum?_le h
    have hmean := FixedPoint.abs_value_divNat_le total xs.length
    simpa using isFinite_of_rounded (hmean.trans (by linarith))

end Aggregate

end CampusQuery
