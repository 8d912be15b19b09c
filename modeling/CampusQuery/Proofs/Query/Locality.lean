import CampusQuery.Proofs.Dataset.History
import CampusQuery.Proofs.Query.Run
import CampusQuery.Proofs.Query.Scope
import Mathlib

namespace CampusQuery

/-- Two lookups of an id are one for a query: both find nothing, or datasets of one kind with the
same records. -/
inductive Lookalike : Except StoreError Dataset → Except StoreError Dataset → Prop
  | absent {e e' : StoreError} : Lookalike (.error e) (.error e')
  | found {d d' : Dataset} (kind : d.kind = d'.kind) (records : d.records = d'.records) :
      Lookalike (.ok d) (.ok d')

theorem Lookalike.refl (x : Except StoreError Dataset) : Lookalike x x := by
  cases x with
  | error e => exact .absent
  | ok d => exact .found rfl rfl

namespace Store

variable {s s' : Store} {op : Operation} {reply : Reply} {id : String}

theorem Answers.get_of_unchanged (h : s.Answers op reply s') (hs : s.Reachable)
    (hs' : s'.Reachable) (hid : (Event.mk op reply).changed? ≠ some id) : s'.get id = s.get id := by
  have hiff (d : Dataset) : s'.get id = .ok d ↔ s.get id = .ok d := by
    rw [h.get_eq_ok]
    constructor
    · rintro (⟨ids, hadd, rfl⟩ | ⟨-, hd⟩)
      · exact absurd (congrArg Event.changed? hadd) hid
      · exact hd
    · exact fun hd => .inr ⟨hid, hd⟩
  cases hd : s.get id with
  | ok d => exact (hiff d).mpr hd
  | error e =>
    cases hd' : s'.get id with
    | ok d => rw [(hiff d).mp hd'] at hd; cases hd
    | error e' => rw [hs.get_eq_error hd, hs'.get_eq_error hd']

theorem Reachable.get_run (h : s.Reachable) {ops : List Operation}
    (hid : ∀ e ∈ (s.run ops).1, e.changed? ≠ some id) : (s.run ops).2.get id = s.get id := by
  induction ops generalizing s with
  | nil => rfl
  | cons op ops ih =>
    rw [Store.run, List.forall_mem_cons] at hid
    rw [Store.run, ih (h.serve op) hid.2]
    exact (h.answers op).get_of_unchanged h (h.serve op) hid.1

end Store

namespace Dataset

variable {d d' : Dataset}

theorem attributeOf_congr (hid : d.id = d'.id) (hkind : d.kind = d'.kind) (name : String) :
    d.attributeOf name = d'.attributeOf name := by
  simp only [attributeOf, hid, hkind]

end Dataset

namespace Query

variable {d d' : Dataset} {s s' : Store} {id : String}

theorem project_congr (q : Query) (hid : d.id = d'.id) (hkind : d.kind = d'.kind)
    (records : List Record) : q.project d records = q.project d' records := by
  simp only [project, Dataset.attributeOf_congr hid hkind]

theorem answer_congr (q : Query) (hid : d.id = d'.id) (hkind : d.kind = d'.kind)
    (hrecords : d.records = d'.records) : q.answer d = q.answer d' := by
  simp only [answer, hrecords, q.project_congr hid hkind]

variable {q : Query}

theorem execute_of_datasetId_error {e : Failure} (h : q.datasetId = .error e) (s : Store)
    (limit : ℕ) : q.execute s limit = .error e := by
  apply execute_of_resolve_error
  rw [resolve, h]
  rfl

theorem resolve_of_get {x : Except StoreError Dataset} (hid : q.datasetId = .ok id)
    (h : s.get id = x) : q.resolve s = x.mapError fun
      | .notFound id => .datasetNotFound id
      | e => .storage e := by
  rw [resolve, hid, ← h]
  rfl

/-- What is found under the id that a query names decides its answer. -/
theorem execute_congr (hs : s.Reachable) (hs' : s'.Reachable)
    (h : ∀ id, q.datasetId = .ok id → Lookalike (s.get id) (s'.get id)) (limit : ℕ) :
    q.execute s limit = q.execute s' limit := by
  cases hid : q.datasetId with
  | error e => rw [execute_of_datasetId_error hid, execute_of_datasetId_error hid]
  | ok id =>
    have hlook := h id hid
    generalize hx : s.get id = x at hlook
    generalize hx' : s'.get id = x' at hlook
    rw [execute, execute, resolve_of_get hid hx, resolve_of_get hid hx']
    cases hlook with
    | absent => rw [hs.get_eq_error hx, hs'.get_eq_error hx']
    | @found d d' hkind hrecords =>
      have hanswer : q.answer d = q.answer d' :=
        q.answer_congr ((hs.id_of_get hx).trans (hs'.id_of_get hx').symm) hkind hrecords
      change (q.answer d >>= _) = (q.answer d' >>= _)
      rw [hanswer]

/-- The query answers alike from both stores; under more or fewer than one id it has no answer from
either, and under one id only what they find there matters. -/
structure Local (q : Query) (s s' : Store) (limit : ℕ) : Prop where
  noDataset : q.datasetIds = [] →
    q.execute s limit = .error .noDataset ∧ q.execute s' limit = .error .noDataset
  multipleDatasets : 2 ≤ q.datasetIds.length →
    q.execute s limit = .error (.multipleDatasets q.datasetIds) ∧
      q.execute s' limit = .error (.multipleDatasets q.datasetIds)
  single : ∀ id, q.datasetIds = [id] → Lookalike (s.get id) (s'.get id) →
    q.execute s limit = q.execute s' limit

theorem local_of_reachable (q : Query) (hs : s.Reachable) (hs' : s'.Reachable) (limit : ℕ) :
    q.Local s s' limit where
  noDataset h :=
    have hid := datasetId_of_nil h
    ⟨execute_of_datasetId_error hid s limit, execute_of_datasetId_error hid s' limit⟩
  multipleDatasets h :=
    have hid := datasetId_of_many h
    ⟨execute_of_datasetId_error hid s limit, execute_of_datasetId_error hid s' limit⟩
  single id hid h := by
    refine execute_congr hs hs' (fun id' hid' => ?_) limit
    cases (datasetId_of_single.mpr hid).symm.trans hid'
    exact h

/-- From reachable stores a query depends on what they find under its id alone; operations that
change other ids only never change its answer. -/
theorem execute_local (q : Query) (hs : s.Reachable) (hs' : s'.Reachable) (limit : ℕ) :
    q.Local s s' limit ∧ ∀ ops : List Operation,
      (∀ id, q.datasetIds = [id] → ∀ e ∈ (s.run ops).1, e.changed? ≠ some id) →
      q.execute (s.run ops).2 limit = q.execute s limit := by
  refine ⟨q.local_of_reachable hs hs' limit, fun ops hops => ?_⟩
  refine execute_congr (hs.run ops) hs (fun id hid => ?_) limit
  rw [hs.get_run (hops id (datasetId_of_single.mp hid))]
  exact .refl _

/-- Another dataset beside the one that is asked for. -/
theorem execute_local_ofGrades :
    let q : Query := ⟨.all, ["c_dept"], none, none⟩
    let s := Store.ofGrades [("a", .zero)]
    let other := { Dataset.ofGrades [("b", .zero)] with id := "e" }
    q.execute (s.run [.add other, .remove "e", .add other]).2 1 = q.execute s 1 ∧
      q.execute s 1 = .ok [⟨[("c_dept", .text "a")]⟩] := by
  intro q s other
  have hs : s.Reachable := Store.reachable_ofGrades (List.cons_ne_nil _ _)
  refine ⟨(q.execute_local hs hs 1).2 _ fun id hid e he => ?_, by cbv⟩
  have hc : q.datasetIds = ["c"] := by cbv
  have hlog : (s.run [.add other, .remove "e", .add other]).1.map Event.changed? =
      [some "e", some "e", some "e"] := by cbv
  obtain rfl := List.singleton_inj.mp (hid.symm.trans hc)
  intro hchanged
  have hmem := List.mem_map_of_mem (f := Event.changed?) he
  rw [hlog, hchanged] at hmem
  simp at hmem

end Query

end CampusQuery
