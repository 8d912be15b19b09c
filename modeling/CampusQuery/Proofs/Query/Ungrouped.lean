import CampusQuery.Proofs.Query.Typing
import Mathlib

namespace CampusQuery

open Outcome

/-- The row shows under each column, in their order, what the record has there. -/
def Record.IsRow (columns : List String) (r : Record) (row : Row) : Prop :=
  List.Forall₂ (fun column cell =>
    cell.1 = column ∧ r (FieldName.attributeName column) = some cell.2) columns row.cells

theorem Dataset.attributeName_of_attributeOf {d : Dataset} {name a : String}
    (h : d.attributeOf name = .ok a) : FieldName.attributeName name = a := by
  rw [FieldName.attributeName, (attributeOf_eq_ok.mp h).1, Option.elim_some]

theorem Record.isRow_of_project {d : Dataset} {names : List String}
    {columns : List (String × String)} {r : Record} {row : Row}
    (hcolumns : List.Forall₂ (fun name column =>
      column.1 = name ∧ d.attributeOf name = .ok column.2) names columns)
    (h : r.project columns = .ok row) : r.IsRow names row := by
  refine (forall₂_comp hcolumns (project_eq_ok.mp h)).imp ?_
  rintro name cell ⟨column, ⟨hname, ha⟩, hcell, hget⟩
  rw [Dataset.attributeName_of_attributeOf ha]
  exact ⟨hcell.trans hname, hget⟩

namespace Query

variable {q : Query} {d : Dataset}

theorem answer_ungrouped (ht : q.transform = none) (ho : q.order = none)
    (hknown : ∀ column ∈ q.columns, ∃ a, d.attributeOf column = .ok a)
    (heval : ∀ r ∈ d.records, ∃ b, q.filter.eval r = .ok b) :
    ∃ rows, List.Forall₂ (Record.IsRow q.columns) (d.records.filter q.filter.holds) rows ∧
      q.answer d = .ok rows := by
  obtain ⟨rows, hproject⟩ := exists_project_ungrouped ht hknown fun r hr =>
    d.fits (List.mem_filter.mp hr).1
  obtain ⟨columns, hcolumns, hrows⟩ := (project_eq_ok_of_ungrouped ht).mp hproject
  refine ⟨rows, hrows.imp fun _ _ h => Record.isRow_of_project hcolumns h, ?_⟩
  exact answer_eq_ok.mpr ⟨_, rows, Filter.select_eq_ok.mpr ⟨heval, rfl⟩, hproject, by rw [ho]; rfl⟩

theorem answer_of_first_error {before behind : List Record} {r : Record} {e : Failure}
    (hd : d.records = before ++ r :: behind)
    (hbefore : ∀ s ∈ before, ∃ b, q.filter.eval s = .ok b) (hr : q.filter.eval r = .error e) :
    q.answer d = .error e := by
  rw [answer, hd, Filter.select_of_first_error hbefore hr]
  rfl

/-- A query without a transformation and an order shows exactly the records that meet its condition,
or fails as the first record does on which the condition cannot be evaluated. -/
theorem execute_ungrouped {store : Store} (limit : Nat) (ht : q.transform = none)
    (ho : q.order = none) (hd : q.resolve store = .ok d) :
    ((∀ column ∈ q.columns, ∃ a, d.attributeOf column = .ok a) →
      (∀ r ∈ d.records, ∃ b, q.filter.eval r = .ok b) →
      ∃ rows, List.Forall₂ (Record.IsRow q.columns) (d.records.filter q.filter.holds) rows ∧
        q.execute store limit =
          if rows.length ≤ limit then .ok rows else .error (.tooManyRows rows.length limit)) ∧
    ((∃ r ∈ d.records, ∃ e, q.filter.eval r = .error e) →
      ∃ before r behind e, d.records = before ++ r :: behind ∧
        (∀ s ∈ before, ∃ b, q.filter.eval s = .ok b) ∧ q.filter.eval r = .error e ∧
        q.execute store limit = .error e) := by
  constructor
  · intro hknown heval
    obtain ⟨rows, hrows, hanswer⟩ := answer_ungrouped ht ho hknown heval
    exact ⟨rows, hrows, execute_of_answer hd hanswer limit⟩
  · intro hfail
    obtain ⟨before, r, behind, e, hrecords, hbefore, hr⟩ := exists_first_error hfail
    exact ⟨before, r, behind, e, hrecords, hbefore, hr,
      execute_of_answer_error hd (answer_of_first_error hrecords hbefore hr) limit⟩

/-- One passed average of two, and a condition that reads the other as a text; the latter query
shows a column that there is not, under a limit of no rows. -/
theorem execute_ungrouped_grades :
    let passed : Query :=
      ⟨.compare .greater "c_avg" .zero, ["c_dept", "c_avg", "c_dept"], none, none⟩
    let mistyped : Query :=
      ⟨.connect .or [.compare .greater "c_avg" .zero, .like "c_avg" ⟨"*"⟩], ["c_seats"], none, none⟩
    let d := Dataset.ofGrades [("a", .infinite false), ("b", .zero)]
    let store := Store.ofGrades [("a", .infinite false), ("b", .zero)]
    (∃ rows,
      List.Forall₂ (Record.IsRow passed.columns) (d.records.filter passed.filter.holds) rows ∧
      passed.execute store 1 =
        if rows.length ≤ 1 then .ok rows else .error (.tooManyRows rows.length 1)) ∧
    ∃ before r behind e, d.records = before ++ r :: behind ∧
      (∀ s ∈ before, ∃ b, mistyped.filter.eval s = .ok b) ∧ mistyped.filter.eval r = .error e ∧
      mistyped.execute store 0 = .error e := by
  intro passed mistyped d store
  have hpassed : passed.resolve store = .ok d := by cbv
  have hmistyped : mistyped.resolve store = .ok d := by cbv
  constructor
  · refine (execute_ungrouped 1 rfl rfl hpassed).1 ?_ ?_
    · intro column hc
      simp only [passed, List.mem_cons, List.not_mem_nil, or_false] at hc
      rcases hc with rfl | rfl | rfl
      · exact ⟨"dept", by cbv⟩
      · exact ⟨"avg", by cbv⟩
      · exact ⟨"dept", by cbv⟩
    · intro r hr
      have havg : d.kind.HasField "c" "c_avg" .number := ⟨"avg", rfl, by decide⟩
      exact (Filter.WellTyped.compare havg).exists_eval (by decide) (d.fits hr)
  · refine (execute_ungrouped 0 rfl rfl hmistyped).2
      ⟨_, List.mem_cons_of_mem _ List.mem_cons_self, ?_⟩
    exact ⟨.typeMismatch "c_avg" .number .text, by cbv⟩

end Query

end CampusQuery
