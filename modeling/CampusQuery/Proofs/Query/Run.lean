import CampusQuery.Proofs.Query.Evaluation
import CampusQuery.Query.Run

namespace CampusQuery

open Outcome

theorem Dataset.attributeOf_eq_ok {d : Dataset} {name a : String} :
    d.attributeOf name = .ok a ↔
      FieldName.split? name = some (d.id, a) ∧ d.kind.hasAttribute a = true := by
  unfold attributeOf
  split
  · rename_i id b hsplit
    rw [hsplit]
    split
    · rename_i h
      obtain ⟨rfl, hattr⟩ := h
      simp only [Except.ok.injEq, Option.some.injEq, Prod.mk.injEq, true_and]
      constructor
      · rintro rfl
        exact ⟨rfl, hattr⟩
      · exact And.left
    · rename_i h
      simp only [reduceCtorEq, Option.some.injEq, Prod.mk.injEq, false_iff]
      rintro ⟨⟨rfl, rfl⟩, hattr⟩
      exact h ⟨rfl, hattr⟩
  · rename_i hsplit
    simp [hsplit]

theorem discard_eq_ok {ε α : Type} {x : Except ε α} :
    (discard x : Except ε Unit) = .ok () ↔ ∃ a, x = .ok a := by
  cases x <;> simp [discard, Functor.discard, Functor.mapConst, Except.map]

theorem Record.project_eq_ok {columns : List (String × String)} {r : Record} {row : Row} :
    r.project columns = .ok row ↔
      List.Forall₂ (fun column cell => cell.1 = column.1 ∧ r column.2 = some cell.2)
        columns row.cells := by
  rw [project, bind_eq_ok]
  simp only [mapM_eq_ok, pure_eq_ok]
  constructor
  · rintro ⟨cells, hcells, rfl⟩
    refine hcells.imp ?_
    rintro ⟨column, a⟩ cell h
    split at h
    · cases h
      exact ⟨rfl, by assumption⟩
    · cases h
  · intro h
    refine ⟨row.cells, h.imp ?_, rfl⟩
    rintro ⟨column, a⟩ ⟨name, c⟩ ⟨rfl, hget⟩
    rw [hget]

theorem Row.project_eq_ok {columns : List String} {r row : Row} :
    r.project columns = .ok row ↔
      List.Forall₂ (fun column cell => cell.1 = column ∧ r.get? column = some cell.2)
        columns row.cells := by
  rw [project, bind_eq_ok]
  simp only [mapM_eq_ok, pure_eq_ok]
  constructor
  · rintro ⟨cells, hcells, rfl⟩
    refine hcells.imp ?_
    intro column cell h
    split at h
    · cases h
      exact ⟨rfl, by assumption⟩
    · cases h
  · intro h
    refine ⟨row.cells, h.imp ?_, rfl⟩
    rintro column ⟨name, c⟩ ⟨rfl, hget⟩
    rw [hget]

namespace Transform

variable {t : Transform}

theorem rowOf_eq_ok {key : List String} {group : List Record} {row : Row} :
    t.rowOf key group = .ok row ↔ ∃ values,
      List.Forall₂ (fun rule value => value.1 = rule.key ∧ rule.eval group = .ok value.2)
        t.apply values ∧
      row = ⟨t.group.zip (key.map .text) ++ values⟩ := by
  rw [rowOf, bind_eq_ok]
  simp only [mapM_eq_ok, pair_eq_ok, pure_eq_ok, eq_comm (a := row)]

theorem rows_eq_ok {records : List Record} {rows : List Row} :
    t.rows records = .ok rows ↔ ∃ groups, t.groups records = .ok groups ∧
      List.Forall₂ (fun g row => t.rowOf g.1 g.2 = .ok row) groups rows := by
  simp only [Transform.rows, bind_eq_ok, mapM_eq_ok]

end Transform

namespace Query

variable {q : Query} {d : Dataset}

theorem project_eq_ok_of_transform {t : Transform} (ht : q.transform = some t)
    {records : List Record} {rows : List Row} :
    q.project d records = .ok rows ↔ (∀ field ∈ t.fields, ∃ a, d.attributeOf field = .ok a) ∧
      ∃ grouped, t.rows records = .ok grouped ∧
        List.Forall₂ (fun g row => Row.project q.columns g = .ok row) grouped rows := by
  simp only [project, ht]
  rw [check_bind_eq_ok, forM_eq_ok]
  simp only [discard_eq_ok, bind_eq_ok, mapM_eq_ok]

theorem project_eq_ok_of_ungrouped (ht : q.transform = none) {records : List Record}
    {rows : List Row} :
    q.project d records = .ok rows ↔ ∃ columns : List (String × String),
      List.Forall₂ (fun name column => column.1 = name ∧ d.attributeOf name = .ok column.2)
        q.columns columns ∧
      List.Forall₂ (fun r row => Record.project columns r = .ok row) records rows := by
  simp only [project, ht, bind_eq_ok (β := List Row), mapM_eq_ok, pair_eq_ok]

theorem answer_eq_ok {rows : List Row} :
    q.answer d = .ok rows ↔ ∃ matching unordered, q.filter.select d.records = .ok matching ∧
      q.project d matching = .ok unordered ∧ rows = q.order.elim unordered (·.sort unordered) := by
  simp only [answer, bind_eq_ok, pure_eq_ok, eq_comm (a := rows)]
  tauto

theorem execute_eq_ok {store : Store} {limit : Nat} {rows : List Row} :
    q.execute store limit = .ok rows ↔ ∃ d, q.resolve store = .ok d ∧ q.answer d = .ok rows ∧
      rows.length ≤ limit := by
  rw [execute, bind_eq_ok]
  apply exists_congr
  intro d
  apply and_congr_right
  intro _
  rw [bind_eq_ok]
  constructor
  · rintro ⟨given, h, hlimit⟩
    rw [guard_eq_ok, pure_eq_ok] at hlimit
    obtain ⟨hle, rfl⟩ := hlimit
    exact ⟨h, Nat.not_lt.mp hle⟩
  · rintro ⟨h, hle⟩
    refine ⟨rows, h, ?_⟩
    rw [guard_eq_ok, pure_eq_ok]
    exact ⟨Nat.not_lt.mpr hle, rfl⟩

theorem execute_eq_error {store : Store} {limit : Nat} {rows : List Row}
    (hd : q.resolve store = .ok d) (h : q.answer d = .ok rows) (hlimit : limit < rows.length) :
    q.execute store limit = .error (.tooManyRows rows.length limit) := by
  simp [execute, hd, h, bind, Except.bind, hlimit, throw, throwThe, MonadExceptOf.throw]

theorem execute_of_answer {store : Store} (hd : q.resolve store = .ok d) {rows : List Row}
    (h : q.answer d = .ok rows) (limit : Nat) :
    q.execute store limit =
      if rows.length ≤ limit then .ok rows else .error (.tooManyRows rows.length limit) := by
  by_cases hlimit : rows.length ≤ limit
  · rw [if_pos hlimit]
    exact execute_eq_ok.mpr ⟨d, hd, h, hlimit⟩
  · rw [if_neg hlimit]
    exact execute_eq_error hd h (Nat.not_le.mp hlimit)

theorem execute_of_answer_error {store : Store} (hd : q.resolve store = .ok d) {e : Failure}
    (h : q.answer d = .error e) (limit : Nat) : q.execute store limit = .error e := by
  rw [execute, hd, ok_bind, h]
  rfl

theorem execute_of_resolve_error {store : Store} {e : Failure} (h : q.resolve store = .error e)
    (limit : ℕ) : q.execute store limit = .error e := by
  rw [execute, h]
  rfl

theorem resolve_eq_ok {store : Store} :
    q.resolve store = .ok d ↔ ∃ id, q.datasetId = .ok id ∧ store.get id = .ok d := by
  simp only [resolve, bind_eq_ok, mapError_eq_ok]

theorem perform_eq_ok {document : Json} {store : Store} {limit : Nat} {rows : List Row} :
    perform document store limit = .ok rows ↔ ∃ q, ofJson document = .ok q ∧ q.check = .ok () ∧
      q.execute store limit = .ok rows := by
  rw [perform, bind_eq_ok]
  apply exists_congr
  intro q
  rw [mapError_eq_ok, check_bind_eq_ok, mapError_eq_ok, mapError_eq_ok]

end Query

end CampusQuery
