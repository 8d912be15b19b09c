import Mathlib.Data.List.Perm.Basic
import Mathlib.Order.Defs.Unbundled

namespace CampusQuery

variable {α : Type}

def tied (le : α → α → Prop) [DecidableRel le] (x : α) (l : List α) : List α :=
  l.filter fun y => le x y ∧ le y x

/-- `s` is `l` put in order, elements that tie left as they stood. -/
structure IsStableSort (le : α → α → Prop) [DecidableRel le] (l s : List α) : Prop where
  perm : s.Perm l
  pairwise : s.Pairwise le
  tied_eq : ∀ x, tied le x s = tied le x l

namespace IsStableSort

variable {le : α → α → Prop} [DecidableRel le]

theorem mem_tied {x y : α} {l : List α} : y ∈ tied le x l ↔ y ∈ l ∧ le x y ∧ le y x := by
  rw [tied, List.mem_filter, decide_eq_true_eq]

theorem tied_cons_of_tie {x a : α} (h : le x a ∧ le a x) (l : List α) :
    tied le x (a :: l) = a :: tied le x l := List.filter_cons_of_pos (decide_eq_true h)

theorem tied_cons_of_not_tie {x a : α} (h : ¬(le x a ∧ le a x)) (l : List α) :
    tied le x (a :: l) = tied le x l :=
  List.filter_cons_of_neg (by rwa [decide_eq_true_eq])

/-- What is left of a sorted list is the sorted list of what is left. -/
theorem filter {l s : List α} (h : IsStableSort le l s) (p : α → Bool) :
    IsStableSort le (l.filter p) (s.filter p) where
  perm := h.perm.filter p
  pairwise := h.pairwise.filter p
  tied_eq x := by
    have hx := congrArg (List.filter p) (h.tied_eq x)
    unfold tied at *
    rw [List.filter_comm, hx, List.filter_comm]

variable [Std.Total le]

omit [DecidableRel le] in
theorem le_self (a : α) : le a a := (Std.Total.total a a).elim id id

theorem mem_of_tied_eq {a : α} {l l' : List α} (h : ∀ x, tied le x l = tied le x l')
    (ha : a ∈ l) : a ∈ l' := by
  have hmem : a ∈ tied le a l := mem_tied.mpr ⟨ha, le_self a, le_self a⟩
  rw [h a] at hmem
  exact (mem_tied.mp hmem).1

omit [DecidableRel le] in
theorem head_le {a b : α} {l : List α} (h : (b :: l).Pairwise le) (ha : a ∈ b :: l) : le b a := by
  rcases List.mem_cons.mp ha with rfl | ha
  · exact le_self a
  · exact List.rel_of_pairwise_cons h ha

/-- Order and the sequences of tied elements leave no choice. -/
theorem eq_of_tied_eq {l l' : List α} (hl : l.Pairwise le) (hl' : l'.Pairwise le)
    (h : ∀ x, tied le x l = tied le x l') : l = l' := by
  induction l generalizing l' with
  | nil =>
    cases l' with
    | nil => rfl
    | cons b l' => cases mem_of_tied_eq (fun x => (h x).symm) List.mem_cons_self
  | cons a l ih =>
    cases l' with
    | nil => cases mem_of_tied_eq h List.mem_cons_self
    | cons b l' =>
      -- Each head stands somewhere in the other list, so the heads tie and are equal.
      have hba : le b a := head_le hl' (mem_of_tied_eq h List.mem_cons_self)
      have hab : le a b := head_le hl (mem_of_tied_eq (fun x => (h x).symm) List.mem_cons_self)
      have hhead := h a
      rw [tied_cons_of_tie ⟨le_self a, le_self a⟩, tied_cons_of_tie ⟨hab, hba⟩,
        List.cons.injEq] at hhead
      obtain ⟨rfl, -⟩ := hhead
      have htail : ∀ x, tied le x l = tied le x l' := by
        intro x
        have hx := h x
        by_cases ht : le x a ∧ le a x
        · rw [tied_cons_of_tie ht, tied_cons_of_tie ht] at hx
          exact List.tail_eq_of_cons_eq hx
        · rwa [tied_cons_of_not_tie ht, tied_cons_of_not_tie ht] at hx
      rw [ih hl.of_cons hl'.of_cons htail]

theorem unique {l s s' : List α} (h : IsStableSort le l s) (h' : IsStableSort le l s') : s = s' :=
  eq_of_tied_eq h.pairwise h'.pairwise fun x => (h.tied_eq x).trans (h'.tied_eq x).symm

variable [IsTrans α le]

omit [Std.Total le] in
theorem pairwise_tied (x : α) (l : List α) : (tied le x l).Pairwise le := by
  rw [List.pairwise_iff_forall_sublist]
  intro a b hab
  have ha := (mem_tied.mp (hab.subset List.mem_cons_self)).2
  have hb := (mem_tied.mp (hab.subset (List.mem_cons_of_mem a List.mem_cons_self))).2
  exact IsTrans.trans a x b ha.2 hb.1

theorem mergeSort (l : List α) :
    IsStableSort le l (l.mergeSort fun a b => le a b) := by
  have htrans : ∀ a b c, decide (le a b) = true → decide (le b c) = true →
      decide (le a c) = true := by
    simp only [decide_eq_true_eq]
    intro a b c hab hbc
    exact IsTrans.trans a b c hab hbc
  have htotal : ∀ a b, (decide (le a b) || decide (le b a)) = true := by
    intro a b
    rw [Bool.or_eq_true, decide_eq_true_eq, decide_eq_true_eq]
    exact Std.Total.total a b
  have hperm := List.mergeSort_perm l fun a b => le a b
  refine ⟨hperm, ?_, ?_⟩
  · simpa only [decide_eq_true_eq] using List.pairwise_mergeSort htrans htotal l
  · intro x
    -- The tied elements are in order among themselves, so sorting keeps their sequence.
    have hpairwise : (tied le x l).Pairwise fun a b => decide (le a b) = true := by
      simpa only [decide_eq_true_eq] using pairwise_tied x l
    have hsub := List.sublist_mergeSort htrans htotal hpairwise List.filter_sublist
    have hsub := hsub.filter fun y => le x y ∧ le y x
    simp only [tied, List.filter_filter, Bool.and_self] at hsub
    exact (hsub.eq_of_length (hperm.filter _).length_eq.symm).symm

end IsStableSort

end CampusQuery
