import CampusQuery.Dataset.Cell
import CampusQuery.Proofs.Number.Order
import CampusQuery.Proofs.Number.Text
import CampusQuery.Proofs.Number.Whole

namespace CampusQuery

open Numeral

variable {x y : Binary64}

theorem Binary64.level?_of_toInt? {n : ℤ} (h : x.toInt? = some n) :
    (Numeral.toBinary64 ⟨decide (n < 0), n.natAbs, 0, true⟩).level? = x.level? := by
  cases x with
  | infinite s => cases h
  | quietNaN s p => cases h
  | finite s m =>
    have hvalue := value_of_toInt? h
    rw [toInt?_of_value hvalue] at h
    have hsign := Option.some.inj h
    -- Both zeros are written without a sign and have one place.
    by_cases hm : m = .zero
    · rw [hm, Magnitude.value_zero] at hvalue
      have hzero : n.natAbs = 0 := by exact_mod_cast hvalue.symm
      have hval : Magnitude.zero.val = 0 := rfl
      simp [toBinary64, ofDecimal, hzero, hm, level?, hval]
    · have hpos : 0 < m.val := Nat.pos_of_ne_zero fun hval => hm (Fin.ext hval)
      have hn : n.natAbs ≠ 0 := by
        intro hzero
        rw [hzero] at hvalue
        exact (Magnitude.value_pos hpos).ne' (by exact_mod_cast hvalue)
      have hneg : decide (n < 0) = s := by
        cases s with
        | false =>
          rw [if_neg Bool.false_ne_true] at hsign
          exact decide_eq_false (by omega)
        | true =>
          rw [if_pos rfl] at hsign
          exact decide_eq_true (by omega)
      have hattracts : m.Attracts (n.natAbs * 10 ^ (0 : ℤ)) := by
        rw [zpow_zero, mul_one, ← hvalue]
        exact m.attracts_value
      rw [toBinary64, hattracts.ofDecimal _ hpos, hneg]

namespace Cell

theorem read?_numberText (h : x.isFinite = true) :
    ∃ n, Numeral.read? (numberText x).toList = some (n, []) ∧
      n.toBinary64.level? = x.level? := by
  unfold numberText
  split
  · rename_i i hi
    have hint := (Option.filter_eq_some_iff.mp hi).1
    have hread := Layout.read?_intText i ends_nil
    rw [List.append_nil] at hread
    exact ⟨_, by rw [String.toList_ofList, hread], Binary64.level?_of_toInt? hint⟩
  · cases x with
    | infinite s => cases h
    | quietNaN s p => cases h
    | finite s m =>
      obtain ⟨n, hread, hvalue, -⟩ := Layout.display.read?_magnitudeText s m ends_nil
      rw [List.append_nil] at hread
      exact ⟨n, by rw [Layout.render, String.toList_ofList]; exact hread, by rw [hvalue]⟩

theorem numberText_infinite (s : Bool) :
    numberText (.infinite s) = if s then "-inf" else "inf" := rfl

theorem numberText_quietNaN (s : Bool) (p : Payload) : numberText (.quietNaN s p) = "NaN" := rfl

theorem numberText_of_isNaN (h : x.isNaN = true) : numberText x = "NaN" := by
  cases x with
  | finite s m => cases h
  | infinite s => cases h
  | quietNaN s p => rfl

/-- Infinite numbers and NaNs have texts that are no numerals. -/
theorem read?_numberText_of_not_finite (h : x.isFinite = false) :
    Numeral.read? (numberText x).toList = none := by
  cases x with
  | finite s m => cases h
  | infinite s =>
    rw [numberText_infinite]
    cases s <;> decide
  | quietNaN s p =>
    rw [numberText_quietNaN]
    decide

theorem level?_eq_of_numberText (h : numberText x = numberText y) : x.level? = y.level? := by
  cases hx : x.isFinite with
  | true =>
    obtain ⟨n, hread, hlevel⟩ := read?_numberText hx
    cases hy : y.isFinite with
    | true =>
      obtain ⟨n', hread', hlevel'⟩ := read?_numberText hy
      rw [h, hread'] at hread
      obtain rfl : n' = n := by injection hread with hread; injection hread
      rw [← hlevel, hlevel']
    | false =>
      rw [h, read?_numberText_of_not_finite hy] at hread
      cases hread
  | false =>
    cases hy : y.isFinite with
    | true =>
      obtain ⟨n, hread, -⟩ := read?_numberText hy
      rw [← h, read?_numberText_of_not_finite hx] at hread
      cases hread
    -- What is left are the words for infinities and NaNs.
    | false =>
      cases x with
      | finite s m => cases hx
      | infinite s =>
        cases y with
        | finite t m => cases hy
        | infinite t =>
          rw [numberText_infinite, numberText_infinite] at h
          cases s <;> cases t <;> first | rfl | exact absurd h (by decide)
        | quietNaN t p =>
          rw [numberText_infinite, numberText_quietNaN] at h
          cases s <;> exact absurd h (by decide)
      | quietNaN s p =>
        cases y with
        | finite t m => cases hy
        | infinite t =>
          rw [numberText_infinite, numberText_quietNaN] at h
          cases t <;> exact absurd h (by decide)
        | quietNaN t p => rfl

/-- Numbers have one text exactly if they are equal or both are NaNs. -/
theorem numberText_eq_iff : numberText x = numberText y ↔ x.level? = y.level? := by
  refine ⟨level?_eq_of_numberText, fun h => ?_⟩
  cases hx : x.level? with
  | none =>
    rw [numberText_of_isNaN (Binary64.level?_eq_none.mp hx),
      numberText_of_isNaN (Binary64.level?_eq_none.mp (h ▸ hx))]
  | some i =>
    have hsame : x.same y = true := Binary64.same_iff.mpr ⟨i, hx, h ▸ hx⟩
    have hzeros : numberText Binary64.zero.neg = numberText Binary64.zero := by decide
    rcases Binary64.eq_or_zeros_of_same hsame with rfl | ⟨rfl, rfl⟩ | ⟨rfl, rfl⟩
    · rfl
    · exact hzeros
    · exact hzeros.symm

end Cell

end CampusQuery
