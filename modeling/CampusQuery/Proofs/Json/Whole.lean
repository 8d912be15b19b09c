import CampusQuery.Json.Value
import CampusQuery.Proofs.Number.Display
import CampusQuery.Proofs.Number.Range

namespace CampusQuery

open Numeral

namespace Binary64

variable {s : Bool} {n num den : ℕ}

theorem toInt?_ofRatio (s : Bool) (hd : 0 < den) (h : (num / den : ℚ) = n) (hn : n < 2 ^ 53) :
    (ofRatio s num den).toInt? = some (if s then -(n : ℤ) else n) := by
  obtain ⟨m, hm⟩ := Magnitude.exists_value_eq hn
  by_cases hzero : num = 0
  · have hn_zero : n = 0 := by
      rw [hzero, Nat.cast_zero, zero_div] at h
      exact_mod_cast h.symm
    rw [hzero, hn_zero]
    exact toInt?_of_value (m := .zero) (by rw [Magnitude.value_zero, Nat.cast_zero])
  · have hpos : 0 < m.val := by
      apply Nat.pos_of_ne_zero
      intro hval
      have hquot : (num / den : ℚ) ≠ 0 :=
        div_ne_zero (by exact_mod_cast hzero) (by exact_mod_cast hd.ne')
      rw [h, ← hm, (Fin.ext hval : m = .zero), Magnitude.value_zero] at hquot
      exact hquot rfl
    rw [ofRatio_eq hpos s hd (h.trans hm.symm), toInt?_of_value hm]

theorem le_natAbs_of_toInt?_ofRatio {k : ℕ} {i : ℤ} (hd : 0 < den) (h : 2 ^ k ≤ (num / den : ℚ))
    (hi : (ofRatio s num den).toInt? = some i) : 2 ^ k ≤ i.natAbs := by
  rw [ofRatio] at hi
  split at hi
  · rename_i m hm
    have hvalue := Magnitude.two_pow_le_value_of_ofRatio? hd h hm
    rw [value_of_toInt? hi] at hvalue
    exact_mod_cast hvalue
  · cases hi

/-- Below the largest bits a whole number is seen as it is, though others are rounded. -/
theorem filter_toInt?_ofRatio {bound : ℕ} (s : Bool) (hd : 0 < den) (h : (num / den : ℚ) = n)
    (hbound : bound ≤ 2 ^ 53) : (ofRatio s num den).toInt?.filter (·.natAbs < bound) =
      if n < bound then some (if s then -(n : ℤ) else n) else none := by
  rcases Nat.lt_or_ge n (2 ^ 53) with hsmall | hlarge
  · have habs : (if s then -(n : ℤ) else n).natAbs = n := by split <;> omega
    rw [toInt?_ofRatio s hd h hsmall, Option.filter_some, habs]
    simp only [decide_eq_true_eq]
  · -- What a larger number is rounded to is no smaller than 2^53.
    rw [if_neg (by omega), Option.filter_eq_none_iff]
    intro i hi
    have hle := le_natAbs_of_toInt?_ofRatio (k := 53) hd (h ▸ by exact_mod_cast hlarge) hi
    simp only [decide_eq_true_eq]
    omega

/-- A decimal for a whole number is rounded as a ratio, unless it is beyond the doubles. -/
theorem exists_ofDecimal_eq {neg : Bool} {d : Decimal} (hvalue : d.value = n)
    (hfinite : (ofDecimal neg d.digits d.exponent).isFinite = true) :
    ∃ num den : ℕ, 0 < den ∧ (num / den : ℚ) = n ∧
      ofDecimal neg d.digits d.exponent = ofRatio neg num den := by
  by_cases hdigits : d.digits = 0
  · refine ⟨0, 1, one_pos, ?_, ?_⟩
    · rw [← hvalue, Decimal.value, hdigits, Nat.cast_zero, zero_div, zero_mul]
    · rw [ofDecimal, if_pos (.inl hdigits)]
      rfl
  · -- A whole number other than zero is at least one, far from the decimals taken for zero.
    have hten : (0 : ℚ) < 10 ^ d.exponent := by positivity
    have hone : 1 ≤ d.value := by
      have hpos : 0 < d.value := mul_pos (by exact_mod_cast Nat.pos_of_ne_zero hdigits) hten
      rw [hvalue] at hpos ⊢
      exact_mod_cast hpos
    have hlt := mul_lt_mul_of_pos_right (Magnitude.pow_length_toDigits hdigits).2 hten
    rw [← zpow_add₀ (by norm_num)] at hlt
    have hsize : (0 : ℤ) < (Nat.toDigits 10 d.digits).length + d.exponent := by
      rw [← zpow_lt_zpow_iff_right₀ (a := (10 : ℚ)) (by norm_num), zpow_zero]
      exact hone.trans_lt hlt
    have hlarge : ¬(320 < ((Nat.toDigits 10 d.digits).length : ℤ) + d.exponent) := by
      intro hlarge
      rw [ofDecimal, if_neg (by omega), if_pos hlarge] at hfinite
      cases hfinite
    refine ⟨d.digits * Nat.pow 10 d.exponent.toNat, Nat.pow 10 (-d.exponent).toNat,
      Nat.pow_pos (by norm_num), ?_, ?_⟩
    · rw [← hvalue, Decimal.value, ten_zpow_eq, ← mul_div_assoc]
      norm_cast
    · rw [ofDecimal, if_neg (by omega), if_neg hlarge]

end Binary64

theorem Numeral.exponent_of_plain {cs rest : List Char} {n : Numeral}
    (h : read? cs = some (n, rest)) (hplain : n.plain = true) : n.exponent = 0 := by
  simp only [read?, Option.bind_eq_some_iff, Option.map_eq_some_iff, Prod.exists,
    Prod.mk.injEq] at h
  obtain ⟨whole, _, -, frac, _, -, power, _, -, rfl, -⟩ := h
  simp only [Bool.and_eq_true, List.isEmpty_iff, Option.isNone_iff_eq_none] at hplain
  simp [hplain.1, hplain.2]

theorem Numeral.rat_of_integer? {cs rest : List Char} {n : Numeral} {i : ℤ}
    (h : read? cs = some (n, rest)) (hi : n.integer? = some i) : n.rat = i := by
  rw [integer?] at hi
  split at hi
  · cases hi
  · rename_i hnot
    have hplain : n.plain = true := by simpa using (not_or.mp hnot).1
    rw [rat, decimal, Decimal.value, exponent_of_plain h hplain, zpow_zero, mul_one]
    split at hi
    · rename_i hneg
      split at hi <;> cases hi
      rw [if_pos hneg, Int.cast_neg, Int.cast_natCast]
    · rename_i hneg
      split at hi <;> cases hi
      rw [if_neg hneg, Int.cast_natCast]

/-- The value is what a document gives for a number that is written as `q` in whatever way. -/
def Json.Denotes (v : Json) (q : ℚ) : Prop :=
  ∃ text n, Numeral.read? text = some (n, []) ∧ n.rat = q ∧ ofNumeral? n = some v

namespace Json

variable {v : Json} {m : ℤ}

theorem number?_of_ofNumeral? {n : Numeral} (h : ofNumeral? n = some v) :
    (∃ i, n.integer? = some i ∧ v = .int i) ∨
    n.toBinary64.isFinite = true ∧ v = .double n.toBinary64 := by
  rw [ofNumeral?] at h
  split at h
  · rename_i i hi
    exact .inl ⟨i, hi, (Option.some.inj h).symm⟩
  · split at h
    · rename_i hfinite
      exact .inr ⟨hfinite, (Option.some.inj h).symm⟩
    · cases h

theorem Denotes.exists_ofRatio (h : v.Denotes m) : ∃ (s : Bool) (num den : ℕ), 0 < den ∧
    (num / den : ℚ) = m.natAbs ∧ (if s then -(m.natAbs : ℤ) else m.natAbs) = m ∧
      v.number? = some (.ofRatio s num den) := by
  obtain ⟨text, n, hread, hrat, hv⟩ := h
  rcases number?_of_ofNumeral? hv with ⟨i, hi, rfl⟩ | ⟨hfinite, rfl⟩
  · obtain rfl : i = m := Int.cast_injective ((rat_of_integer? hread hi).symm.trans hrat)
    refine ⟨decide (i < 0), i.natAbs, 1, one_pos, by simp, ?_, rfl⟩
    simp only [decide_eq_true_eq]
    split <;> omega
  · have hvalue : n.decimal.value = m.natAbs := by
      have habs : |n.rat| = n.decimal.value := by
        rw [rat]
        split
        · rw [abs_neg, abs_of_nonneg n.decimal.value_nonneg]
        · rw [abs_of_nonneg n.decimal.value_nonneg]
      rw [← habs, hrat, Nat.cast_natAbs, Int.cast_abs]
    obtain ⟨num, den, hd, hquot, heq⟩ := Binary64.exists_ofDecimal_eq hvalue hfinite
    have hsign : ((if n.neg then -(m.natAbs : ℤ) else m.natAbs : ℤ) : ℚ) = m := by
      rw [← hrat, rat, hvalue, apply_ite Int.cast, Int.cast_neg, Int.cast_natCast]
    exact ⟨n.neg, num, den, hd, hquot, Int.cast_injective hsign, congrArg some heq⟩

theorem ofNumeral?_int (low : -0x8000_0000_0000_0000 ≤ m) (high : m < 0x1_0000_0000_0000_0000) :
    ofNumeral? ⟨decide (m < 0), m.natAbs, 0, true⟩ = some (.int m) := by
  have hinteger : Numeral.integer? ⟨decide (m < 0), m.natAbs, 0, true⟩ = some m := by
    unfold Numeral.integer?
    by_cases hneg : m < 0
    · simp only [hneg, decide_true]
      rw [if_neg (by simp; omega), if_pos trivial, if_pos (by omega)]
      congr 1
      omega
    · simp only [hneg, decide_false]
      rw [if_neg (by simp), if_neg Bool.false_ne_true, if_pos (by omega)]
      congr 1
      omega
  rw [ofNumeral?, hinteger]

theorem denotes_int (low : -0x8000_0000_0000_0000 ≤ m) (high : m < 0x1_0000_0000_0000_0000) :
    (int m).Denotes m := by
  have hread := Layout.read?_intText m ends_nil
  rw [List.append_nil] at hread
  exact ⟨_, _, hread, rat_of_int m true, ofNumeral?_int low high⟩

/-- Whole numbers short of a bound are told by their doubles. -/
theorem Denotes.filter_toInt? (h : v.Denotes m) {bound : ℕ} (hbound : bound ≤ 2 ^ 53) :
    ∃ x, v.number? = some x ∧ x.toInt?.filter (·.natAbs < bound) =
      if m.natAbs < bound then some m else none := by
  obtain ⟨s, num, den, hd, hquot, hsign, hv⟩ := h.exists_ofRatio
  exact ⟨_, hv, by rw [Binary64.filter_toInt?_ofRatio s hd hquot hbound, hsign]⟩

end Json

end CampusQuery
