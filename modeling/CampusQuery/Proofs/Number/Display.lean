import CampusQuery.Proofs.Number.FixedPoint
import CampusQuery.Proofs.Number.Text
import Mathlib

namespace CampusQuery

open Numeral

def fractionDigits (text : List Char) : ℕ := (text.dropWhile (· != '.')).tail.length

def Numeral.rat (n : Numeral) : ℚ := if n.neg then -n.decimal.value else n.decimal.value

theorem Numeral.rat_of_int (n : ℤ) (plain : Bool) :
    rat ⟨decide (n < 0), n.natAbs, 0, plain⟩ = n := by
  have hvalue : Decimal.value ⟨n.natAbs, 0⟩ = |(n : ℚ)| := by
    rw [Decimal.value, zpow_zero, mul_one, Nat.cast_natAbs, Int.cast_abs]
  rw [rat, decimal, hvalue]
  by_cases hneg : n < 0
  · rw [if_pos (decide_eq_true hneg), abs_of_neg (by exact_mod_cast hneg), neg_neg]
  · rw [if_neg (by simpa using hneg), abs_of_nonneg (by exact_mod_cast not_lt.mp hneg)]

namespace Binary64

def displayed? (x : Binary64) : Option ℚ :=
  match Numeral.read? (Layout.display.render x).toList with
  | some (n, []) => some n.rat
  | _ => none

def displayPlaces (x : Binary64) : ℕ := fractionDigits (Layout.display.render x).toList

theorem exists_finite_of_displayed? {x : Binary64} {d : ℚ} (h : x.displayed? = some d) :
    ∃ s m, x = .finite s m := by
  cases x with
  | finite s m => exact ⟨s, m, rfl⟩
  | infinite s => cases s <;> cases h
  | quietNaN s p =>
    have hread : Numeral.read? (Layout.display.render (quietNaN s p)).toList = none := by
      rw [Layout.render]
      rfl
    rw [displayed?, hread] at h
    cases h

end Binary64

theorem toList_display (s : Bool) (m : Magnitude) :
    (Layout.display.render (.finite s m)).toList =
      signText s ++ Layout.positionalText false (m.shortest .away) := by
  rw [Layout.render, String.toList_ofList]
  rfl

theorem displayed?_finite (s : Bool) (m : Magnitude) :
    (Binary64.finite s m).displayed? =
      some (if s then -(m.shortest .away).value else (m.shortest .away).value) := by
  obtain ⟨spelling, htext, hvalue, -⟩ := Layout.exists_spelling_magnitudeText .display m
  have hread := spelling.read?_append s ends_nil
  rw [List.append_nil, htext] at hread
  rw [Binary64.displayed?, toList_display]
  rw [show Layout.display.magnitudeText m = Layout.positionalText false (m.shortest .away) from rfl]
    at hread
  simp only [hread, rat, hvalue]
  rfl

/-- Whole numbers are displayed by the digits of the decimal, without a point. -/
theorem Layout.display_of_whole {s : Bool} {m : Magnitude} {n : ℕ} (hm : 0 < m.val)
    (hvalue : m.value = n) {i : ℤ} (hi : (Binary64.finite s m).displayed? = some (i : ℚ)) :
    (Layout.display.render (.finite s m)).toList = Layout.intText i := by
  have hexp := Magnitude.exponent_shortest_nonneg .away hm hvalue
  have hpos := (Magnitude.attracts_shortest .away hm).pos hm
  rw [displayed?_finite, Option.some.injEq] at hi
  rw [toList_display]
  generalize m.shortest .away = d at *
  have hwhole : d.value = (d.digits * 10 ^ d.exponent.toNat : ℕ) := by
    rw [Decimal.value, Nat.cast_mul, Nat.cast_pow, Nat.cast_ofNat, ← zpow_natCast,
      Int.toNat_of_nonneg hexp]
  have hdigits : 0 < d.digits := by
    rw [hwhole] at hpos
    exact Nat.pos_of_mul_pos_right (by exact_mod_cast hpos)
  have htext : Layout.positionalText false d =
      Layout.digitText (d.digits * 10 ^ d.exponent.toNat) := by
    rw [Layout.positionalText, if_pos hexp, if_neg Bool.false_ne_true, List.append_nil,
      digitText_mul_ten_pow hdigits]
  rw [htext, Layout.intText]
  rw [hwhole] at hi hpos
  generalize d.digits * 10 ^ d.exponent.toNat = k at *
  have hk : 0 < k := by exact_mod_cast hpos
  cases s with
  | false =>
    obtain rfl : i = k := by exact_mod_cast hi.symm
    rw [if_neg (by omega), Int.natAbs_natCast]
    rfl
  | true =>
    obtain rfl : i = -(k : ℤ) := by
      rw [if_pos rfl] at hi
      exact_mod_cast hi.symm
    rw [if_pos (by omega), Int.natAbs_neg, Int.natAbs_natCast]
    rfl

theorem dropWhile_digits {ds rest : List Char} (h : AllDigits ds) :
    (ds ++ rest).dropWhile (· != '.') = rest.dropWhile (· != '.') := by
  apply List.dropWhile_append_of_pos
  intro c hc
  rw [bne_iff_ne]
  rintro rfl
  cases h '.' hc

theorem fractionDigits_positionalText (d : Decimal) :
    fractionDigits (Layout.positionalText false d) = (-d.exponent).toNat := by
  have hdigits := allDigits_digitText d.digits
  unfold Layout.positionalText
  simp only
  split
  · rw [if_neg Bool.false_ne_true, List.append_nil, fractionDigits,
      ← List.append_nil (_ ++ _), dropWhile_digits (hdigits.append (allDigits_zeros _))]
    simp
    omega
  · split
    · rw [fractionDigits, dropWhile_digits fun c hc => hdigits c (List.mem_of_mem_take hc)]
      simp
      omega
    · simp [fractionDigits]
      omega

theorem displayPlaces_finite (s : Bool) (m : Magnitude) :
    (Binary64.finite s m).displayPlaces = (-(m.shortest .away).exponent).toNat := by
  rw [Binary64.displayPlaces, toList_display, ← fractionDigits_positionalText]
  cases s <;> rfl

namespace FixedPoint

theorem value_of_signed (s : Bool) (n k : ℕ) :
    value ⟨signed s n, k⟩ = if s then -(n / 10 ^ k : ℚ) else n / 10 ^ k := by
  cases s
  · rfl
  · simp [value, signed, neg_div]

/-- A displayed decimal that fits becomes a fixed-point number without rounding. -/
theorem ofBinary64?_eq {x : Binary64} {d : ℚ} {k : ℕ} (hd : x.displayed? = some d)
    (hplaces : x.displayPlaces ≤ k) (hk : k ≤ maxScale) (h : |d| * 10 ^ k < coeffBound) :
    ∃ y, ofBinary64? x = some y ∧ y.value = d ∧ y.scale ≤ k := by
  obtain ⟨s, m, rfl⟩ := Binary64.exists_finite_of_displayed? hd
  rw [displayed?_finite, Option.some.injEq] at hd
  rw [displayPlaces_finite] at hplaces
  rw [ofBinary64?, ofDecimal?]
  generalize m.shortest .away = decimal at *
  have habs : |d| = decimal.value := by
    rw [← hd]
    split
    · rw [abs_neg, abs_of_nonneg decimal.value_nonneg]
    · exact abs_of_nonneg decimal.value_nonneg
  rw [habs, Decimal.value, ten_zpow_eq] at h
  rw [Decimal.value, ten_zpow_eq] at hd
  split
  -- Digits in front of the point only: the scale is zero.
  · rename_i hexp
    rw [show (-decimal.exponent).toNat = 0 by omega, pow_zero, Nat.cast_one, div_one] at h hd
    have hfits : decimal.digits * Nat.pow 10 decimal.exponent.toNat < coeffBound := by
      have hpow : (1 : ℚ) ≤ 10 ^ k := one_le_pow₀ (by norm_num)
      have hle := (le_mul_of_one_le_right (by positivity) hpow).trans_lt h
      exact_mod_cast hle
    refine ⟨_, if_pos hfits, ?_, Nat.zero_le _⟩
    rw [value_of_signed, ← hd, pow_zero, div_one, Nat.pow_eq]
    push_cast
    rfl
  · rename_i hexp
    rw [show decimal.exponent.toNat = 0 by omega, pow_zero, Nat.cast_one, mul_one_div] at hd
    refine ⟨_, if_pos (by omega), ?_, hplaces⟩
    rw [value_of_signed, ← hd]
    push_cast
    rfl

end FixedPoint

end CampusQuery
