import CampusQuery.Proofs.Distinct
import CampusQuery.Proofs.Number.Exact
import CampusQuery.Proofs.Number.Order
import CampusQuery.Proofs.Query.Evaluation
import CampusQuery.Query.Aggregate

namespace CampusQuery

open Outcome

def Cell.unsigned : Cell → Cell
  | .text s => .text s
  | .number x => .number (if x.same .zero then .zero else x)

theorem Aggregate.distinctKey_eq (c : Cell) : distinctKey c = c.unsigned := by
  cases c with
  | text s => rfl
  | number x => rw [distinctKey, Cell.unsigned, Binary64.add_zero_eq]

theorem Aggregate.countDistinct_eq (cells : List Cell) :
    countDistinct cells = (cells.map Cell.unsigned).toFinset.card := by
  rw [countDistinct, Distinct.length_eraseDups]
  congr 2
  exact List.map_congr_left fun c _ => distinctKey_eq c

namespace Rule

def Values (field : String) (group : List Record) (cells : List Cell) : Prop :=
  List.Forall₂ (fun r c => r (FieldName.attributeName field) = some c) group cells

/-- What a rule yields for the records of a group, its field read in their order. -/
def IsValue (r : Rule) (group : List Record) (value : Cell) : Prop :=
  match r.token with
  | .max => ∃ xs x, Values r.field group (xs.map .number) ∧ value = .number x ∧ x.IsMax xs
  | .min => ∃ xs x, Values r.field group (xs.map .number) ∧ value = .number x ∧ x.IsMin xs
  | .avg => ∃ xs, Values r.field group (xs.map .number) ∧ value = .number (Aggregate.mean xs)
  | .sum => ∃ xs, Values r.field group (xs.map .number) ∧ value = .number (Aggregate.sum xs)
  | .count => ∃ cells, Values r.field group cells ∧
      value = .number (Binary64.ofNat (cells.map Cell.unsigned).toFinset.card)
  | .unknown _ => False

theorem numbers_eq_ok {field : String} {group : List Record} {xs : List Binary64} :
    numbers field group = .ok xs ↔ Values field group (xs.map .number) := by
  rw [numbers, mapM_eq_ok, Values, List.forall₂_map_right_iff]
  simp only [Record.number_eq_ok]

theorem cells_eq_ok {field : String} {group : List Record} {cells : List Cell} :
    group.mapM (·.cell field) = .ok cells ↔ Values field group cells := by
  rw [mapM_eq_ok, Values]
  simp only [Record.cell_eq_ok]

theorem Values.unique {field : String} {group : List Record} {cells cells' : List Cell}
    (h : Values field group cells) (h' : Values field group cells') : cells = cells' := by
  rw [← cells_eq_ok] at h h'
  exact Except.ok.inj (h.symm.trans h')

/-- A rule that combines the numbers of a group sees all of them, the first one apart. -/
theorem reduce_eq_ok {r : Rule} {combine : Binary64 → List Binary64 → Binary64}
    {group : List Record} {value : Cell} (h : r.reduce combine group = .ok value) :
    ∃ x xs, Values r.field group ((x :: xs).map .number) ∧ value = .number (combine x xs) := by
  rw [reduce, bind_eq_ok] at h
  obtain ⟨numbers, hnumbers, h⟩ := h
  cases numbers with
  | nil => exact (throw_ne_ok h).elim
  | cons x xs => exact ⟨x, xs, numbers_eq_ok.mp hnumbers, (pure_eq_ok.mp h).symm⟩

theorem isValue_of_eval {r : Rule} {group : List Record} {value : Cell}
    (h : r.eval group = .ok value) : r.IsValue group value := by
  unfold eval at h
  unfold IsValue
  cases hr : r.token with
  | count =>
    simp only [hr, bind_eq_ok, cells_eq_ok, pure_eq_ok] at h
    obtain ⟨cells, hcells, rfl⟩ := h
    exact ⟨cells, hcells, by rw [Aggregate.countDistinct_eq]⟩
  | max =>
    rw [hr] at h
    obtain ⟨x, xs, hvalues, rfl⟩ := reduce_eq_ok h
    exact ⟨x :: xs, _, hvalues, rfl, Binary64.isMax_foldl x xs⟩
  | min =>
    rw [hr] at h
    obtain ⟨x, xs, hvalues, rfl⟩ := reduce_eq_ok h
    exact ⟨x :: xs, _, hvalues, rfl, Binary64.isMin_foldl x xs⟩
  | avg =>
    rw [hr] at h
    obtain ⟨x, xs, hvalues, rfl⟩ := reduce_eq_ok h
    exact ⟨x :: xs, hvalues, rfl⟩
  | sum =>
    simp only [hr, bind_eq_ok, numbers_eq_ok, pure_eq_ok] at h
    obtain ⟨xs, hvalues, rfl⟩ := h
    exact ⟨xs, hvalues, rfl⟩
  | unknown name =>
    rw [hr] at h
    cases h

end Rule

end CampusQuery
