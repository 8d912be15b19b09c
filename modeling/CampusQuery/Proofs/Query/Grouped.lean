import CampusQuery.Proofs.Dataset.Typing
import CampusQuery.Proofs.Query.Aggregate
import CampusQuery.Proofs.Query.Grouping
import CampusQuery.Proofs.Query.Run
import CampusQuery.Proofs.Query.Scope
import CampusQuery.Proofs.Query.Validity
import Mathlib

namespace CampusQuery

open Outcome

namespace Transform

/-- What the row of a group holds: under a grouped field the text that all members have there, under
the key of a rule the value of that one rule over the members. -/
structure IsRow (t : Transform) (columns : List String) (group : List Record) (row : Row) :
    Prop where
  columns_eq : row.columns = columns
  grouped : ∀ cell ∈ row.cells, cell.1 ∈ t.group → ∀ r ∈ group,
    ∃ c, r (FieldName.attributeName cell.1) = some c ∧ cell.2 = .text c.keyText
  applied : ∀ cell ∈ row.cells, cell.1 ∈ t.keys →
    ∃ rule, t.apply.filter (·.key == cell.1) = [rule] ∧ rule.IsValue group cell.2
  covered : ∀ column ∈ columns, Xor (column ∈ t.group) (column ∈ t.keys)

/-- One row for each key that occurs among the records, in the order in which the keys first do; the
groups share out the records. -/
structure IsAnswer (t : Transform) (columns : List String) (records : List Record)
    (rows : List Row) : Prop where
  rows : List.Forall₂ (fun key row => t.IsRow columns (t.members records key) row)
    (t.distinctKeys records) rows
  nodup : (t.distinctKeys records).Nodup
  unique : ∀ r ∈ records, ∃! key, key ∈ t.distinctKeys records ∧ r ∈ t.members records key
  perm : ((t.distinctKeys records).flatMap (t.members records)).Perm records

variable {t : Transform}

theorem filter_key_eq (hn : t.keys.Nodup) {rule : Rule} (hr : rule ∈ t.apply) :
    t.apply.filter (·.key == rule.key) = [rule] := by
  apply Distinct.eq_singleton (List.Nodup.of_map _ hn |>.filter _)
  intro other
  rw [List.mem_filter, beq_iff_eq]
  constructor
  · rintro ⟨ho, hkey⟩
    exact List.inj_on_of_nodup_map hn ho hr hkey
  · rintro rfl
    exact ⟨hr, rfl⟩

/-- A text beside a grouped field is the one that the records under the key have there. -/
theorem exists_of_mem_zip {key : List String} {r : Record} (hkey : t.key? r = some key)
    {field : String} {c : Cell} (h : (field, c) ∈ t.group.zip (key.map Cell.text)) :
    ∃ v, r (FieldName.attributeName field) = some v ∧ c = .text v.keyText := by
  rw [key?, mapM_eq_some] at hkey
  have hcells : List.Forall₂ (fun (field : String) (c : Cell) =>
      ∃ v, r (FieldName.attributeName field) = some v ∧ c = .text v.keyText)
      t.group (key.map Cell.text) := by
    rw [List.forall₂_map_right_iff]
    refine hkey.imp ?_
    intro field s hs
    obtain ⟨v, hv, rfl⟩ := Option.map_eq_some_iff.mp hs
    exact ⟨v, hv, rfl⟩
  exact List.forall₂_zip hcells h

theorem isRow_of_project {columns key : List String} {group : List Record} {full row : Row}
    (hcheck : t.check columns = .ok ()) (hfields : ∀ field ∈ t.group, '_' ∈ field.toList)
    (hkey : ∀ r ∈ group, t.key? r = some key) (hfull : t.rowOf key group = .ok full)
    (hrow : full.project columns = .ok row) : t.IsRow columns group row := by
  obtain ⟨-, hnodup, happly, hcolumns⟩ := check_eq_ok.mp hcheck
  -- Grouped fields have an underscore and keys of rules have none, so no name is both.
  have hdisjoint : ∀ name ∈ t.group, name ∉ t.keys := by
    intro name hg hk
    obtain ⟨rule, hr, rfl⟩ := List.mem_map.mp hk
    exact (isApplyKey_iff.mp (happly rule hr).1).2 (hfields _ hg)
  obtain ⟨values, hvalues, rfl⟩ := rowOf_eq_ok.mp hfull
  have hcells := Row.project_eq_ok.mp hrow
  have hsource : ∀ cell ∈ row.cells, cell ∈ t.group.zip (key.map Cell.text) ∨ cell ∈ values := by
    intro cell hcell
    obtain ⟨column, -, rfl, hget⟩ := exists_of_mem_right hcells hcell
    exact List.mem_append.mp (Keyed.mem_of_get? hget)
  have hrule : ∀ cell ∈ values, ∃ rule ∈ t.apply, cell.1 = rule.key ∧
      rule.eval group = .ok cell.2 := fun cell hcell => exists_of_mem_right hvalues hcell
  refine ⟨?_, ?_, ?_, ?_⟩
  · have heq : List.Forall₂ (fun column cell => column = cell.1) columns row.cells :=
      hcells.imp fun _ _ h => h.1.symm
    rw [← List.forall₂_map_right_iff, List.forall₂_eq_eq_eq] at heq
    exact heq.symm
  · intro cell hcell hg r hr
    rcases hsource cell hcell with hzip | hval
    · exact exists_of_mem_zip (hkey r hr) hzip
    · obtain ⟨rule, hmem, hname, -⟩ := hrule cell hval
      exact absurd (hname ▸ List.mem_map_of_mem hmem) (hdisjoint _ hg)
  · intro cell hcell hk
    rcases hsource cell hcell with hzip | hval
    · exact absurd hk (hdisjoint _ (List.of_mem_zip hzip).1)
    · obtain ⟨rule, hmem, hname, heval⟩ := hrule cell hval
      exact ⟨rule, hname ▸ filter_key_eq hnodup hmem, Rule.isValue_of_eval heval⟩
  · intro column hc
    rcases hcolumns column hc with hg | hk
    · exact .inl ⟨hg, hdisjoint _ hg⟩
    · exact .inr ⟨hk, fun hg => hdisjoint _ hg hk⟩

theorem isAnswer_of_project {columns : List String} {records : List Record} {full rows : List Row}
    (hcheck : t.check columns = .ok ()) (hfields : ∀ field ∈ t.group, '_' ∈ field.toList)
    (hfull : t.rows records = .ok full)
    (hrows : List.Forall₂ (fun f row => Row.project columns f = .ok row) full rows) :
    t.IsAnswer columns records rows := by
  obtain ⟨groups, hgroups, hrow⟩ := rows_eq_ok.mp hfull
  obtain ⟨hkeys, rfl⟩ := groups_eq_ok.mp hgroups
  rw [List.forall₂_map_left_iff] at hrow
  refine ⟨?_, t.nodup_distinctKeys records, ?_, members_perm hkeys⟩
  · refine (forall₂_comp hrow hrows).imp ?_
    rintro key row ⟨f, hf, hproject⟩
    exact isRow_of_project hcheck hfields (fun r hr => (mem_members.mp hr).2) hf hproject
  · intro r hr
    exact existsUnique_key hr (hkeys r hr)

end Transform

namespace Query

/-- A grouped query that gives an answer gives exactly the declared groups of the records that meet
its condition. -/
theorem execute_grouped {q : Query} {t : Transform} {store : Store} {limit : Nat} {rows : List Row}
    (valid : q.check = .ok ()) (ht : q.transform = some t) (ho : q.order = none)
    (h : q.execute store limit = .ok rows) :
    ∃ d, q.resolve store = .ok d ∧
      t.IsAnswer q.columns (d.records.filter q.filter.holds) rows := by
  obtain ⟨d, hd, hanswer, -⟩ := execute_eq_ok.mp h
  obtain ⟨matching, unordered, hselect, hproject, hrows⟩ := answer_eq_ok.mp hanswer
  obtain ⟨-, rfl⟩ := Filter.select_eq_ok.mp hselect
  obtain ⟨hknown, full, hfull, hcolumns⟩ := (project_eq_ok_of_transform ht).mp hproject
  rw [ho, Option.elim_none] at hrows
  subst hrows
  have hfields : ∀ field ∈ t.group, '_' ∈ field.toList := by
    intro field hfield
    obtain ⟨a, ha⟩ := hknown field (List.mem_append_left _ hfield)
    exact FieldName.mem_of_split? (Dataset.attributeOf_eq_ok.mp ha).1
  have hcheck := (check_eq_ok.mp valid).2.2.2 t ht
  exact ⟨d, hd, Transform.isAnswer_of_project hcheck hfields hfull hcolumns⟩

def bestByDept : Transform := ⟨["c_dept"], [⟨"best", .max, "c_avg"⟩]⟩

/-- Two departments, the first with two sections. -/
theorem execute_grouped_bestByDept :
    let q : Query := ⟨.all, ["c_dept", "best"], none, some bestByDept⟩
    let store := Store.ofGrades [("a", .zero), ("b", .infinite true), ("a", .infinite false)]
    ∃ d, q.resolve store = .ok d ∧
      bestByDept.IsAnswer q.columns (d.records.filter q.filter.holds)
        [⟨[("c_dept", .text "a"), ("best", .number (.infinite false))]⟩,
         ⟨[("c_dept", .text "b"), ("best", .number (.infinite true))]⟩] := by
  intro q store
  have h : q.execute store 2 = .ok
      [⟨[("c_dept", .text "a"), ("best", .number (.infinite false))]⟩,
       ⟨[("c_dept", .text "b"), ("best", .number (.infinite true))]⟩] := by cbv
  exact execute_grouped (by rfl) rfl rfl h

end Query

end CampusQuery
