import Mathlib.Data.Finset.Card
import Mathlib.Data.List.Perm.Basic

namespace CampusQuery.Distinct

theorem eq_singleton {α : Type} {xs : List α} {a : α} (hn : xs.Nodup)
    (h : ∀ x, x ∈ xs ↔ x = a) : xs = [a] := by
  apply List.perm_singleton.mp
  apply (List.perm_ext_iff_of_nodup hn (List.nodup_singleton a)).mpr
  intro x
  rw [h, List.mem_singleton]

variable {α : Type} [BEq α] [LawfulBEq α]

theorem nodup_eraseDups (xs : List α) : xs.eraseDups.Nodup := by
  -- The rest is filtered before its own duplicates go, so the induction is on the length.
  induction hn : xs.length using Nat.strong_induction_on generalizing xs with
  | _ n ih =>
    cases xs with
    | nil => exact List.nodup_nil
    | cons x rest =>
      rw [List.eraseDups_cons]
      have hlen : (rest.filter fun y => !y == x).length < n := by
        have := List.length_filter_le (fun y => !y == x) rest
        rw [List.length_cons] at hn
        omega
      exact List.Nodup.cons (by simp) (ih _ hlen _ rfl)

theorem eraseDups_filter (p : α → Bool) (xs : List α) :
    (xs.filter p).eraseDups = xs.eraseDups.filter p := by
  induction hn : xs.length using Nat.strong_induction_on generalizing xs with
  | _ n ih =>
    cases xs with
    | nil => rfl
    | cons x rest =>
      have hlen : (rest.filter fun y => !y == x).length < n := by
        have := List.length_filter_le (fun y => !y == x) rest
        rw [List.length_cons] at hn
        omega
      have hrest := ih _ hlen _ rfl
      rw [List.filter_comm] at hrest
      rw [List.eraseDups_cons, List.filter_cons, List.filter_cons, ← hrest]
      split
      · rw [List.eraseDups_cons]
      · rename_i hx
        -- The rest holds no element that is dropped together with the first.
        congr 1
        rw [List.filter_filter]
        apply List.filter_congr
        intro y _
        by_cases hy : y = x
        · simp [hy, hx]
        · simp [hy]

theorem length_eraseDups [DecidableEq α] (xs : List α) :
    xs.eraseDups.length = xs.toFinset.card := by
  rw [← List.toFinset_card_of_nodup (nodup_eraseDups xs)]
  congr 1
  ext x
  simp

end CampusQuery.Distinct
