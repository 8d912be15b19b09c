import CampusQuery.Proofs.Dataset.Registry
import CampusQuery.Proofs.Query.Run
import CampusQuery.Proofs.Query.Scope
import CampusQuery.Proofs.Query.Validity
import Mathlib

namespace CampusQuery

open Outcome

def Dataset.Names (d : Dataset) (name : String) : Prop :=
  ∃ a, name = FieldName.qualify d.id a ∧ d.kind.hasAttribute a = true

theorem Dataset.Names.of_attributeOf {d : Dataset} {name a : String}
    (h : d.attributeOf name = .ok a) : d.Names name := by
  obtain ⟨hsplit, hattr⟩ := attributeOf_eq_ok.mp h
  exact ⟨a, FieldName.eq_qualify_of_split? hsplit, hattr⟩

namespace Query

/-- Every field, and every column that is not computed by a rule, carries the id. -/
structure Namespaced (q : Query) (id : String) : Prop where
  filter : ∀ field ∈ q.filter.fields, ∃ a, field = FieldName.qualify id a
  transform : ∀ t, q.transform = some t → ∀ field ∈ t.fields, ∃ a, field = FieldName.qualify id a
  columns : ∀ column ∈ q.columns, column ∉ q.transform.elim [] Transform.keys →
    ∃ a, column = FieldName.qualify id a

/-- Behind the condition all names are attributes of the dataset, and in the condition those with an
underscore carry its id. -/
structure ReadsFrom (q : Query) (d : Dataset) : Prop where
  filter : ∀ field ∈ q.filter.fields, '_' ∈ field.toList → ∃ a, field = FieldName.qualify d.id a
  transform : ∀ t, q.transform = some t → ∀ field ∈ t.fields, d.Names field
  columns : ∀ column ∈ q.columns, column ∉ q.transform.elim [] Transform.keys → d.Names column

variable {q : Query} {d : Dataset}

/-- An id that a name of the query carries is the id that the query is about. -/
theorem eq_qualify_of_mem_names {id name : String} (hid : q.datasetId = .ok id)
    (hname : name ∈ q.names) (h : '_' ∈ name.toList) :
    ∃ a, name = FieldName.qualify id a := by
  obtain ⟨⟨other, a⟩, hsplit⟩ := FieldName.exists_split? h
  have hother : other ∈ q.names.filterMap FieldName.dataset? :=
    List.mem_filterMap.mpr ⟨name, hname, by rw [FieldName.dataset?, hsplit, Option.map_some]⟩
  obtain rfl := (datasetId_eq_ok.mp hid other).mp hother
  exact ⟨a, FieldName.eq_qualify_of_split? hsplit⟩

/-- An answer has looked up every name behind the condition. -/
theorem readsFrom_of_answer {rows : List Row} (valid : q.check = .ok ())
    (hid : q.datasetId = .ok d.id) (h : q.answer d = .ok rows) : q.ReadsFrom d := by
  have hfilter : ∀ field ∈ q.filter.fields, '_' ∈ field.toList →
      ∃ a, field = FieldName.qualify d.id a := by
    intro field hf
    exact eq_qualify_of_mem_names hid (by simp [names, hf])
  obtain ⟨matching, unordered, -, hproject, -⟩ := answer_eq_ok.mp h
  cases hq : q.transform with
  | none =>
    obtain ⟨columns, hcolumns, -⟩ := (project_eq_ok_of_ungrouped hq).mp hproject
    refine ⟨hfilter, by simp [hq], ?_⟩
    intro column hc _
    obtain ⟨_, -, -, ha⟩ := exists_of_mem_right hcolumns.flip hc
    exact .of_attributeOf ha
  | some t =>
    obtain ⟨hknown, -⟩ := (project_eq_ok_of_transform hq).mp hproject
    have hfield : ∀ field ∈ t.fields, d.Names field := by
      intro field hf
      obtain ⟨a, ha⟩ := hknown field hf
      exact .of_attributeOf ha
    refine ⟨hfilter, by simpa [hq] using hfield, ?_⟩
    intro column hc hkey
    -- A column that no rule computes is grouped by.
    rw [hq, Option.elim_some] at hkey
    have hcheck := (check_eq_ok.mp valid).2.2.2 t hq
    have hgroup := ((Transform.check_eq_ok.mp hcheck).2.2.2 column hc).resolve_right hkey
    exact hfield column (List.mem_append_left _ hgroup)

theorem ReadsFrom.namespaced_iff (h : q.ReadsFrom d) :
    q.Namespaced d.id ↔ ∀ field ∈ q.filter.fields, '_' ∈ field.toList := by
  constructor
  · intro hn field hf
    obtain ⟨a, rfl⟩ := hn.filter field hf
    exact FieldName.mem_qualify d.id a
  · intro hfilter
    refine ⟨fun field hf => h.filter field hf (hfilter field hf), ?_, ?_⟩
    · intro t ht field hf
      obtain ⟨a, ha, -⟩ := h.transform t ht field hf
      exact ⟨a, ha⟩
    · intro column hc hkey
      obtain ⟨a, ha, -⟩ := h.columns column hc hkey
      exact ⟨a, ha⟩

/-- Where a document has an answer, all that its query names belongs to the one dataset that is
read, but for the names without an underscore in the condition. -/
theorem perform_namespaced_iff {document : Json} {store : Store} {limit : Nat} {rows : List Row}
    (reach : store.Reachable) (h : perform document store limit = .ok rows) :
    ∃ q d, ofJson document = .ok q ∧ q.datasetId = .ok d.id ∧ store.get d.id = .ok d ∧
      q.answer d = .ok rows ∧ q.ReadsFrom d ∧
      (q.Namespaced d.id ↔ ∀ field ∈ q.filter.fields, '_' ∈ field.toList) := by
  obtain ⟨q, hq, valid, hexecute⟩ := perform_eq_ok.mp h
  obtain ⟨d, hresolve, hanswer, -⟩ := execute_eq_ok.mp hexecute
  obtain ⟨id, hid, hget⟩ := resolve_eq_ok.mp hresolve
  obtain rfl := reach.id_of_get hget
  have reads := readsFrom_of_answer valid hid hanswer
  exact ⟨q, d, hq, hid, hget, hanswer, reads, reads.namespaced_iff⟩

def bareDocument : Json :=
  .object
    [("OPTIONS", .object [("COLUMNS", .array [.string "c_dept"])]),
     ("WHERE", .object [("GT", .object [("avg", .int 50)])])]

def bareStore : Store := .ofGrades [("a", .ofNat 60)]

theorem perform_namespaced_iff_bare :
    ∃ q d, ofJson bareDocument = .ok q ∧ q.datasetId = .ok d.id ∧ bareStore.get d.id = .ok d ∧
      q.answer d = .ok [⟨[("c_dept", .text "a")]⟩] ∧ q.ReadsFrom d ∧
      (q.Namespaced d.id ↔ ∀ field ∈ q.filter.fields, '_' ∈ field.toList) := by
  have h : perform bareDocument bareStore 1 = .ok [⟨[("c_dept", .text "a")]⟩] := by cbv
  exact perform_namespaced_iff (Store.reachable_ofGrades (by simp)) h

/-- The condition is answered from the average of a dataset that it does not name. -/
theorem bareDocument_not_namespaced :
    bareStore.Reachable ∧ perform bareDocument bareStore 1 = .ok [⟨[("c_dept", .text "a")]⟩] ∧
      ∃ q, ofJson bareDocument = .ok q ∧ ∀ id, ¬q.Namespaced id := by
  refine ⟨Store.reachable_ofGrades (by simp), by cbv, _, rfl, ?_⟩
  intro id hn
  obtain ⟨a, ha⟩ := hn.filter "avg" List.mem_cons_self
  have hmem : '_' ∈ "avg".toList := ha ▸ FieldName.mem_qualify id a
  exact absurd hmem (by decide)

end Query

end CampusQuery
