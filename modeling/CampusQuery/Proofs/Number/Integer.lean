import CampusQuery.Number.Integer
import CampusQuery.Proofs.Number.Text
import CampusQuery.Proofs.Outcome
import CampusQuery.Text

namespace CampusQuery

open Numeral

namespace Integer

variable {bound n : ℕ}

/-- Digits are read as long as the bound is kept; the value so far is never more than the whole. -/
theorem foldlM_digits {ds : List Char} (hds : AllDigits ds) (hn : n ≤ bound) :
    ds.foldlM (fun n c =>
      if c.isDigit then
        let m := 10 * n + digitValue c
        if m ≤ bound then .ok m else .error .tooLarge
      else .error .badDigit) n =
      (if ds.foldl (fun n c => 10 * n + digitValue c) n ≤ bound then
        .ok (ds.foldl (fun n c => 10 * n + digitValue c) n)
      else .error .tooLarge : Except IntegerError ℕ) := by
  have hgrows : ∀ (ds : List Char) (n : ℕ),
      n ≤ ds.foldl (fun n c => 10 * n + digitValue c) n := by
    intro ds
    induction ds with
    | nil => exact fun n => le_rfl
    | cons c ds ih =>
      intro n
      exact le_trans (by omega) (ih (10 * n + digitValue c))
  induction ds generalizing n with
  | nil => exact (if_pos hn).symm
  | cons c ds ih =>
    have hdigit := hds c List.mem_cons_self
    rw [List.foldl_cons, List.foldlM_cons, if_pos hdigit]
    by_cases hstep : 10 * n + digitValue c ≤ bound
    · simp only [if_pos hstep]
      exact ih (fun c hc => hds c (List.mem_cons_of_mem _ hc)) hstep
    · -- Past the bound there is no way back below it.
      simp only [if_neg hstep]
      exact (if_neg fun h => hstep ((hgrows ds _).trans h)).symm

theorem magnitude_digitText (bound n : ℕ) : magnitude bound (Layout.digitText n) =
    if n ≤ bound then .ok n else .error .tooLarge := by
  have hread := foldlM_digits (allDigits_digitText n) (Nat.zero_le bound)
  rw [show (Layout.digitText n).foldl _ 0 = n from value_digitText n] at hread
  rw [magnitude]
  · exact hread
  · exact digitText_ne_nil n

theorem natural_digitText (bound n : ℕ) : natural bound (Layout.digitText n) =
    if n ≤ bound then .ok n else .error .tooLarge := by
  have hdigits := allDigits_digitText n
  rw [← magnitude_digitText]
  unfold natural
  split
  · rename_i hnil
    exact absurd hnil (digitText_ne_nil n)
  · rename_i hplus
    exact absurd (hdigits '+' (hplus ▸ List.mem_cons_self)) (by decide)
  · rfl

/-- The digits of a whole number are read as it, if it is one of 32 bits. -/
theorem int32_intText (m : ℤ) : int32 (Layout.intText m) =
    if -2147483648 ≤ m ∧ m ≤ 2147483647 then .ok (Int32.ofInt m) else .error .tooLarge := by
  rw [Layout.intText]
  by_cases hneg : m < 0
  · have hminus : -(m.natAbs : ℤ) = m := by omega
    rw [if_pos hneg, List.singleton_append, int32, magnitude_digitText]
    by_cases hrange : m.natAbs ≤ 0x8000_0000
    · rw [if_pos hrange, if_pos (by omega)]
      exact congrArg (fun k => Except.ok (Int32.ofInt k)) hminus
    · rw [if_neg hrange, if_neg (by omega)]
      rfl
  · have hplus : (m.natAbs : ℤ) = m := by omega
    have hhead : ∀ ds, Layout.digitText m.natAbs ≠ '-' :: ds := fun ds h =>
      absurd (allDigits_digitText m.natAbs '-' (h ▸ List.mem_cons_self)) (by decide)
    rw [if_neg hneg, List.nil_append, int32]
    · rw [natural_digitText]
      by_cases hrange : m.natAbs ≤ 0x7fff_ffff
      · rw [if_pos hrange, if_pos (by omega)]
        exact congrArg (fun k => Except.ok (Int32.ofInt k)) hplus
      · rw [if_neg hrange, if_neg (by omega)]
        rfl
    · exact hhead

end Integer

theorem isBlank_of_isDigit {c : Char} (h : c.isDigit = true) : isBlank c = false := by
  obtain ⟨hlow, hhigh⟩ : 48 ≤ c.toNat ∧ c.toNat ≤ 57 := by
    simp only [Char.isDigit, Bool.and_eq_true, decide_eq_true_eq, ge_iff_le,
      UInt32.le_iff_toNat_le] at h
    exact h
  have hrange : ∀ low high : ℕ, high < 48 ∨ 57 < low →
      (decide (low ≤ c.toNat) && decide (c.toNat ≤ high)) = false := by
    intro low high hout
    simp only [Bool.and_eq_false_iff, decide_eq_false_iff_not]
    omega
  simp [isBlank, inRanges, blankRanges, hrange]

theorem trimBlanks_of_forall {cs : List Char} (h : ∀ c ∈ cs, isBlank c = false) :
    trimBlanks cs = cs := by
  have hdrop : ∀ ds : List Char, (∀ c ∈ ds, isBlank c = false) → ds.dropWhile isBlank = ds := by
    intro ds hds
    cases ds with
    | nil => rfl
    | cons c ds => rw [List.dropWhile_cons_of_neg (by simp [hds c List.mem_cons_self])]
  rw [trimBlanks, hdrop cs h, hdrop cs.reverse fun c hc => h c (List.mem_reverse.mp hc),
    List.reverse_reverse]

theorem trimBlanks_intText (m : ℤ) : trimBlanks (Layout.intText m) = Layout.intText m := by
  apply trimBlanks_of_forall
  intro c hc
  rcases List.mem_append.mp hc with hsign | hdigit
  · split at hsign
    · rw [List.mem_singleton.mp hsign]
      decide
    · cases hsign
  · exact isBlank_of_isDigit (allDigits_digitText m.natAbs c hdigit)

end CampusQuery
