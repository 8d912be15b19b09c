import CampusQuery.Proofs.Dataset.Registry
import CampusQuery.Proofs.Keyed
import CampusQuery.Proofs.Text.ByteOrder

namespace CampusQuery

open Outcome

namespace Registry

variable {r : Registry} {id : String} {d : Dataset}

theorem get_eq_ok : r.get id = .ok d ↔ r.datasets.get? id = some d := by
  rw [get, get?]
  cases r.datasets.get? id <;> simp

theorem get_eq_error {e : StoreError} :
    r.get id = .error e ↔ r.datasets.get? id = none ∧ e = .notFound id := by
  rw [get, get?]
  cases r.datasets.get? id <;> simp [eq_comm]

theorem get_insert (r : Registry) (id : String) (d : Dataset) (id' : String) :
    get ⟨r.datasets.insert id d⟩ id' = if id' = id then .ok d else r.get id' := by
  rw [get, get?, Keyed.get?_insert]
  by_cases h : id' = id
  · rw [if_pos h, if_pos h]
  · rw [if_neg h, if_neg h]
    rfl

theorem get_erase (h : r.datasets.Increasing) (id id' : String) :
    get ⟨r.datasets.erase id⟩ id' = if id' = id then .error (.notFound id) else r.get id' := by
  rw [get, get?, h.get?_erase]
  by_cases h : id' = id
  · rw [if_pos h, if_pos h, h]
  · rw [if_neg h, if_neg h]
    rfl

end Registry

namespace Store

variable {s s' : Store} {r : Registry} {id : String} {d : Dataset} {ids : List String}

/-- The ids of the loaded datasets, by the order of their bytes. -/
structure HasIds (s : Store) (ids : List String) : Prop where
  increasing : ids.Pairwise (utf8Bytes · < utf8Bytes ·)
  mem_iff : ∀ id, id ∈ ids ↔ ∃ d, s.get id = .ok d

/-- One more dataset, with records, is found under an id that was free; without it the store is as
it was. -/
structure Adds (s : Store) (d : Dataset) (s' : Store) (ids : List String) : Prop where
  isDatasetId : isDatasetId d.id = true
  records_ne : d.records ≠ []
  fresh : s.get d.id = .error (.notFound d.id)
  get : ∀ id, s'.get id = if id = d.id then .ok d else s.get id
  hasIds : s'.HasIds ids
  remove : s'.remove d.id = .ok s

structure Removes (s : Store) (id : String) (s' : Store) : Prop where
  isDatasetId : isDatasetId id = true
  loaded : ∃ d, s.get id = .ok d
  get : ∀ id', s'.get id' = if id' = id then .error (.notFound id) else s.get id'

theorem hasIds_ready (h : r.datasets.Increasing) : (ready r).HasIds r.ids where
  increasing := h.keys.imp utf8Bytes_lt
  mem_iff _ := Keyed.mem_keys.trans (exists_congr fun _ => Registry.get_eq_ok.symm)

theorem ready_add_eq_ok_of_get : (ready r).add d = .ok (s', ids) ↔
    isDatasetId d.id = true ∧ d.records ≠ [] ∧ r.get d.id = .error (.notFound d.id) ∧
      s' = ready ⟨r.datasets.insert d.id d⟩ ∧ ids = Registry.ids ⟨r.datasets.insert d.id d⟩ := by
  rw [ready_add_eq_ok, Keyed.contains_eq_false, Registry.get_eq_error, and_iff_left rfl]

theorem ready_remove_eq_ok_of_get : (ready r).remove id = .ok s' ↔
    isDatasetId id = true ∧ (∃ d, r.get id = .ok d) ∧ s' = ready ⟨r.datasets.erase id⟩ := by
  simp only [ready_remove_eq_ok, Keyed.contains_eq_true, Registry.get_eq_ok]

theorem checkDatasetId_of_not (h : isDatasetId id = false) :
    checkDatasetId id = .error (.invalidId id) := by
  rw [checkDatasetId, h]
  rfl

theorem ready_add_of_invalid (h : isDatasetId d.id = false) :
    (ready r).add d = .error (.invalidId d.id) := by
  rw [ready_add, checkAddition, checkDatasetId_of_not h]
  rfl

theorem ready_add_of_empty (hid : isDatasetId d.id = true) (h : d.records = []) :
    (ready r).add d = .error (.emptyDataset d.id) := by
  rw [ready_add, checkAddition, checkDatasetId_eq_ok.mpr hid, ok_bind,
    if_pos (List.isEmpty_iff.mpr h)]
  rfl

theorem ready_add_of_taken (hid : isDatasetId d.id = true) (h : d.records ≠ []) {e : Dataset}
    (taken : r.get d.id = .ok e) : (ready r).add d = .error (.alreadyExists d.id) := by
  have hcontains : r.datasets.contains d.id = true :=
    Keyed.contains_eq_true.mpr ⟨e, Registry.get_eq_ok.mp taken⟩
  rw [ready_add, checkAddition_eq_ok.mpr ⟨hid, h⟩, ok_bind, Registry.add, if_pos hcontains]
  rfl

theorem ready_remove_of_invalid (h : isDatasetId id = false) :
    (ready r).remove id = .error (.invalidId id) := by
  rw [ready_remove, checkDatasetId_of_not h]
  rfl

theorem ready_remove_of_absent (hid : isDatasetId id = true) {e : StoreError}
    (absent : r.get id = .error e) : (ready r).remove id = .error (.notFound id) := by
  have hcontains : r.datasets.contains id = false :=
    Keyed.contains_eq_false.mpr (Registry.get_eq_error.mp absent).1
  rw [ready_remove, checkDatasetId_eq_ok.mpr hid, ok_bind, Registry.remove, hcontains]
  rfl

/-- Adding under a fresh id and removing again leaves nothing behind. -/
theorem ready_remove_insert (hid : isDatasetId id = true) (fresh : r.get id = .error (.notFound id))
    (d : Dataset) : (ready ⟨r.datasets.insert id d⟩).remove id = .ok (ready r) := by
  have hget := Registry.get_insert r id d id
  rw [if_pos rfl] at hget
  refine ready_remove_eq_ok_of_get.mpr ⟨hid, ⟨d, hget⟩, ?_⟩
  rw [Keyed.erase_insert (Registry.get_eq_error.mp fresh).1]

theorem Reachable.exists_registry (h : s.Reachable) :
    ∃ r, s = .ready r ∧ r.Sound ∧ r.datasets.Increasing := by
  obtain ⟨r, rfl, hsound⟩ := h.exists_sound
  refine ⟨r, rfl, hsound, ?_⟩
  generalize hs : ready r = s at h
  induction h generalizing r with
  | empty =>
    cases hs
    exact List.Pairwise.nil
  | add hs' hadd ih =>
    obtain ⟨r₀, rfl, hsound₀⟩ := hs'.exists_sound
    obtain ⟨-, -, -, rfl, -⟩ := ready_add_eq_ok_of_get.mp hadd
    cases hs
    exact (ih r₀ hsound₀ rfl).insert _ _
  | remove hs' hremove ih =>
    obtain ⟨r₀, rfl, hsound₀⟩ := hs'.exists_sound
    obtain ⟨-, -, rfl⟩ := ready_remove_eq_ok_of_get.mp hremove
    cases hs
    exact (ih r₀ hsound₀ rfl).erase _

theorem Reachable.adds (h : s.Reachable) (hadd : s.add d = .ok (s', ids)) : s.Adds d s' ids := by
  obtain ⟨r, rfl, -, hr⟩ := h.exists_registry
  obtain ⟨hid, hrecords, hfresh, rfl, rfl⟩ := ready_add_eq_ok_of_get.mp hadd
  exact ⟨hid, hrecords, hfresh, Registry.get_insert r d.id d, hasIds_ready (hr.insert d.id d),
    ready_remove_insert hid hfresh d⟩

theorem Reachable.removes (h : s.Reachable) (hremove : s.remove id = .ok s') :
    s.Removes id s' := by
  obtain ⟨r, rfl, -, hr⟩ := h.exists_registry
  obtain ⟨hid, hloaded, rfl⟩ := ready_remove_eq_ok_of_get.mp hremove
  exact ⟨hid, hloaded, Registry.get_erase hr id⟩

theorem Reachable.get_eq_error (h : s.Reachable) {e : StoreError} (he : s.get id = .error e) :
    e = .notFound id := by
  obtain ⟨r, rfl, -⟩ := h.exists_registry
  exact (Registry.get_eq_error.mp he).2

end Store

end CampusQuery
