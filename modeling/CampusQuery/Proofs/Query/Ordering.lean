import CampusQuery.Proofs.Query.Run
import CampusQuery.Proofs.Stable
import Mathlib

namespace CampusQuery

/-- Where a cell stands: numbers by their rank, then texts. -/
def Cell.place : Cell → ℤ ⊕ₗ String
  | .number x => toLex (.inl x.rank)
  | .text s => toLex (.inr s)

/-- Where the row stands under a key, at the bottom if it has no cell there. -/
def Row.place (key : String) (r : Row) : WithBot (ℤ ⊕ₗ String) :=
  (r.get? key).elim ⊥ fun c => c.place

def Order.places (o : Order) (r : Row) : List (WithBot (ℤ ⊕ₗ String)) := o.names.map (Row.place · r)

def Order.Precedes (o : Order) (a b : Row) : Prop :=
  match o.direction with
  | .up => o.places a ≤ o.places b
  | .down => o.places b ≤ o.places a

theorem Cell.compares (c d : Cell) : (c.compare d).Compares c.place d.place := by
  cases c with
  | number x =>
    cases d with
    | number y => exact Sum.Lex.inl_strictMono.compares.mpr ((compare_iff x.rank y.rank).mp rfl)
    | text t => exact Sum.Lex.inl_lt_inr _ _
  | text s =>
    cases d with
    | number y => exact Sum.Lex.inl_lt_inr _ _
    | text t => exact Sum.Lex.inr_strictMono.compares.mpr ((compare_iff s t).mp rfl)

theorem compares_cells (key : String) (a b : Row) :
    (compareCells (a.get? key) (b.get? key)).Compares (Row.place key a) (Row.place key b) := by
  unfold Row.place
  cases a.get? key with
  | none =>
    cases b.get? key with
    | none => rfl
    | some d => exact WithBot.bot_lt_coe _
  | some c =>
    cases b.get? key with
    | none => exact WithBot.bot_lt_coe _
    | some d => exact WithBot.coe_strictMono.compares.mpr (c.compares d)

theorem compares_cons {α : Type} [LinearOrder α] {o o' : Ordering} {x y : α} {xs ys : List α}
    (h : o.Compares x y) (h' : o'.Compares xs ys) : (o.then o').Compares (x :: xs) (y :: ys) := by
  cases o with
  | lt => exact List.Lex.rel h
  | gt => exact List.Lex.rel h
  | eq =>
    obtain rfl : x = y := h
    cases o' with
    | lt => exact List.Lex.cons h'
    | gt => exact List.Lex.cons h'
    | eq => exact congrArg (x :: ·) h'

theorem compares_rows (keys : List String) (a b : Row) :
    (compareRows .up keys a b).Compares (keys.map (Row.place · a)) (keys.map (Row.place · b)) := by
  induction keys with
  | nil => rfl
  | cons key keys ih => exact compares_cons (compares_cells key a b) ih

theorem compareRows_down (keys : List String) (a b : Row) :
    compareRows .down keys a b = (compareRows .up keys a b).swap := by
  induction keys with
  | nil => rfl
  | cons key keys ih =>
    rw [compareRows, compareRows, ih, Ordering.swap_then]
    rfl

namespace Order

variable (o : Order)

/-- Read upwards, rows compare as their places do. -/
theorem compares (a b : Row) :
    (o.direction.apply (o.compare a b)).Compares (o.places a) (o.places b) := by
  have h := compares_rows o.names a b
  unfold compare
  cases o.direction with
  | up => exact h
  | down =>
    rw [compareRows_down, Direction.apply, Ordering.swap_swap]
    exact h

theorem isLE_compare {a b : Row} : (o.compare a b).isLE = true ↔ o.Precedes a b := by
  have h := o.compares a b
  rw [Ordering.isLE_iff_ne_gt, Precedes]
  cases hd : o.direction with
  | up =>
    rw [hd] at h
    exact h.ne_gt
  | down =>
    rw [hd] at h
    exact h.of_swap.ne_gt

instance : DecidableRel o.Precedes := fun _ _ => decidable_of_iff _ o.isLE_compare

instance : Std.Total o.Precedes where
  total a b := by
    unfold Precedes
    cases o.direction with
    | up => exact le_total _ _
    | down => exact le_total _ _

instance : IsTrans Row o.Precedes where
  trans a b c hab hbc := by
    unfold Precedes at *
    cases hd : o.direction with
    | up =>
      rw [hd] at hab hbc
      exact le_trans hab hbc
    | down =>
      rw [hd] at hab hbc
      exact le_trans hbc hab

theorem transCmp_compare : Std.TransCmp o.compare where
  eq_swap {a b} := by
    have h := o.compares a b
    have h' := (o.compares b a).swap
    cases hd : o.direction with
    | up =>
      rw [hd] at h h'
      exact h.inj h'
    | down =>
      rw [hd] at h h'
      exact h.of_swap.inj h'.of_swap
  isLE_trans {a b c} hab hbc := by
    rw [isLE_compare] at *
    exact IsTrans.trans a b c hab hbc

theorem isStableSort_sort (rows : List Row) : IsStableSort o.Precedes rows (o.sort rows) := by
  have hle : (fun a b => (o.compare a b).isLE) = fun a b => decide (o.Precedes a b) := by
    funext a b
    rw [Bool.eq_iff_iff, isLE_compare, decide_eq_true_eq]
  rw [sort, hle]
  exact .mergeSort rows

theorem length_sort (rows : List Row) : (o.sort rows).length = rows.length :=
  List.length_mergeSort rows

theorem elim_sort_perm (order : Option Order) (rows : List Row) :
    (order.elim rows (·.sort rows)).Perm rows := by
  cases order with
  | none => exact .refl _
  | some o => exact (o.isStableSort_sort rows).perm

end Order

namespace Query

theorem answer_ordered (q : Query) (o : Order) (d : Dataset) :
    { q with order := some o }.answer d = ({ q with order := none }.answer d).map o.sort := by
  have hproject : { q with order := some o }.project = { q with order := none }.project := rfl
  unfold answer
  rw [hproject]
  cases q.filter.select d.records with
  | error e => rfl
  | ok matching =>
    simp only [Outcome.ok_bind]
    cases { q with order := none }.project d matching with
    | error e => rfl
    | ok rows => rfl

theorem execute_eq (q : Query) (o : Order) (store : Store) (limit : Nat) :
    { q with order := some o }.execute store limit =
      ({ q with order := none }.execute store limit).map o.sort := by
  have hresolve : { q with order := some o }.resolve = { q with order := none }.resolve := rfl
  unfold execute
  rw [hresolve]
  cases { q with order := none }.resolve store with
  | error e => rfl
  | ok d =>
    simp only [Outcome.ok_bind, answer_ordered]
    cases { q with order := none }.answer d with
    | error e => rfl
    | ok rows =>
      -- Both answers have one length, so the limit refuses both or none.
      simp only [Except.map, Outcome.ok_bind, o.length_sort]
      by_cases hlimit : limit < rows.length
      · rw [if_pos hlimit, if_pos hlimit]
        rfl
      · rw [if_neg hlimit, if_neg hlimit]
        rfl

/-- An order does nothing but put the answer in order: rows compare consistently, and of all ways to
put them in order the answer has the one in which rows that tie stand as they would without. -/
theorem execute_ordered (q : Query) (o : Order) (store : Store) (limit : Nat) :
    Std.TransCmp o.compare ∧
      ((∃ e, { q with order := some o }.execute store limit = .error e ∧
          { q with order := none }.execute store limit = .error e) ∨
        ∃ rows rows', { q with order := some o }.execute store limit = .ok rows' ∧
          { q with order := none }.execute store limit = .ok rows ∧
          ∀ other, IsStableSort o.Precedes rows other ↔ other = rows') := by
  refine ⟨o.transCmp_compare, ?_⟩
  rw [execute_eq]
  cases h : { q with order := none }.execute store limit with
  | error e => exact .inl ⟨e, rfl, rfl⟩
  | ok rows =>
    refine .inr ⟨rows, o.sort rows, rfl, rfl, ?_⟩
    intro other
    constructor
    · intro hother
      exact hother.unique (o.isStableSort_sort rows)
    · rintro rfl
      exact o.isStableSort_sort rows

end Query

end CampusQuery
