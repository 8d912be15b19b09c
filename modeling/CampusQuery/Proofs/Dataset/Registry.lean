import CampusQuery.Proofs.Dataset.Typing
import CampusQuery.Proofs.Outcome

namespace CampusQuery

open Outcome

theorem checkDatasetId_eq_ok {id : String} :
    checkDatasetId id = .ok () ↔ isDatasetId id = true := by
  unfold checkDatasetId
  split <;> simp_all

theorem checkAddition_eq_ok {d : Dataset} :
    checkAddition d = .ok () ↔ isDatasetId d.id = true ∧ d.records ≠ [] := by
  rw [checkAddition, check_bind_eq_ok, checkDatasetId_eq_ok, ne_eq, ← List.isEmpty_iff]
  cases d.records.isEmpty <;> simp

/-- What `add` lets in under an id: a dataset of that id with records. -/
structure Dataset.IsEntry (d : Dataset) (id : String) : Prop where
  id_eq : d.id = id
  isDatasetId : isDatasetId id = true
  records_ne : d.records ≠ []

namespace Registry

variable {r r' : Registry}

def Sound (r : Registry) : Prop := ∀ id d, (id, d) ∈ r.datasets → d.IsEntry id

theorem add_eq_ok {d : Dataset} :
    r.add d = .ok r' ↔ r.datasets.contains d.id = false ∧ r' = ⟨r.datasets.insert d.id d⟩ := by
  rw [add, guard_eq_ok, pure_eq_ok, Bool.not_eq_true, eq_comm (b := r')]

theorem remove_eq_ok {id : String} :
    r.remove id = .ok r' ↔ r.datasets.contains id = true ∧ r' = ⟨r.datasets.erase id⟩ := by
  rw [remove]
  by_cases h : r.datasets.contains id = true
  · rw [if_pos h, pure_eq_ok, eq_comm (b := r')]
    simp [h]
  · rw [if_neg h]
    simp [h]

theorem sound_empty : empty.Sound := by
  intro id d h
  cases h

theorem Sound.insert {d : Dataset} (h : r.Sound) (hid : isDatasetId d.id = true)
    (hrecords : d.records ≠ []) : Sound ⟨r.datasets.insert d.id d⟩ := by
  intro id e he
  rcases Keyed.eq_or_mem_of_mem_insert he with hnew | hold
  · cases hnew
    exact ⟨rfl, hid, hrecords⟩
  · exact h id e hold

theorem Sound.erase (h : r.Sound) (id : String) : Sound ⟨r.datasets.erase id⟩ :=
  fun id' d hd => h id' d (Keyed.mem_of_mem_erase hd)

end Registry

namespace Store

variable {s s' : Store} {r : Registry} {d : Dataset} {ids : List String} {id : String}

theorem ready_add (r : Registry) (d : Dataset) : (ready r).add d =
    checkAddition d >>= fun _ => (r.add d).map fun r' => (ready r', r'.ids) := by
  rw [add, checkWorks, ok_bind, reach]
  cases checkAddition d with
  | error e => rfl
  | ok =>
    rw [ok_bind, ok_bind, ok_bind]
    cases r.add d <;> rfl

theorem ready_remove (r : Registry) (id : String) : (ready r).remove id =
    checkDatasetId id >>= fun _ => (r.remove id).map ready := by
  rw [remove, checkWorks, ok_bind, reach]
  cases checkDatasetId id with
  | error e => rfl
  | ok =>
    rw [ok_bind, ok_bind, ok_bind]
    cases r.remove id <;> rfl

theorem ready_add_eq_ok : (ready r).add d = .ok (s', ids) ↔
    isDatasetId d.id = true ∧ d.records ≠ [] ∧ r.datasets.contains d.id = false ∧
      s' = ready ⟨r.datasets.insert d.id d⟩ ∧ ids = Registry.ids ⟨r.datasets.insert d.id d⟩ := by
  rw [ready_add, check_bind_eq_ok, checkAddition_eq_ok, and_assoc, map_eq_ok]
  refine and_congr_right fun _ => and_congr_right fun _ => ?_
  constructor
  · rintro ⟨_, hadd, h⟩
    obtain ⟨hfresh, rfl⟩ := Registry.add_eq_ok.mp hadd
    cases h
    exact ⟨hfresh, rfl, rfl⟩
  · rintro ⟨hfresh, rfl, rfl⟩
    exact ⟨_, Registry.add_eq_ok.mpr ⟨hfresh, rfl⟩, rfl⟩

theorem ready_remove_eq_ok : (ready r).remove id = .ok s' ↔ isDatasetId id = true ∧
    r.datasets.contains id = true ∧ s' = ready ⟨r.datasets.erase id⟩ := by
  rw [ready_remove, check_bind_eq_ok, checkDatasetId_eq_ok, map_eq_ok]
  refine and_congr_right fun _ => ?_
  constructor
  · rintro ⟨_, hremove, rfl⟩
    obtain ⟨hloaded, rfl⟩ := Registry.remove_eq_ok.mp hremove
    exact ⟨hloaded, rfl⟩
  · rintro ⟨hloaded, rfl⟩
    exact ⟨_, Registry.remove_eq_ok.mpr ⟨hloaded, rfl⟩, rfl⟩

/-- The states that adding and removing datasets leads to. -/
inductive Reachable : Store → Prop
  | empty : Reachable empty
  | add {s s' : Store} {d : Dataset} {ids : List String} (h : Reachable s)
      (hadd : s.add d = .ok (s', ids)) : Reachable s'
  | remove {s s' : Store} {id : String} (h : Reachable s)
      (hremove : s.remove id = .ok s') : Reachable s'

theorem Reachable.exists_sound (h : s.Reachable) : ∃ r, s = .ready r ∧ r.Sound := by
  induction h with
  | empty => exact ⟨.empty, rfl, Registry.sound_empty⟩
  | add _ hadd ih =>
    obtain ⟨r, rfl, hr⟩ := ih
    obtain ⟨hid, hrecords, -, rfl, -⟩ := ready_add_eq_ok.mp hadd
    exact ⟨_, rfl, hr.insert hid hrecords⟩
  | remove _ hremove ih =>
    obtain ⟨r, rfl, hr⟩ := ih
    obtain ⟨-, -, rfl⟩ := ready_remove_eq_ok.mp hremove
    exact ⟨_, rfl, hr.erase _⟩

theorem mem_of_get (h : (ready r).get id = .ok d) : (id, d) ∈ r.datasets := by
  change r.get id = .ok d at h
  unfold Registry.get at h
  split at h
  · cases h
    exact Keyed.mem_of_get? (by assumption)
  · cases h

/-- A dataset that is found is the one that carries the id. -/
theorem Reachable.id_of_get (h : s.Reachable) (hd : s.get id = .ok d) : d.id = id := by
  obtain ⟨r, rfl, hr⟩ := h.exists_sound
  exact (hr id d (mem_of_get hd)).id_eq

theorem reachable_ofGrades {grades : List (String × Binary64)} (h : grades ≠ []) :
    (ofGrades grades).Reachable := by
  have hrecords : (Dataset.ofGrades grades).records ≠ [] := by
    cases grades with
    | nil => exact absurd rfl h
    | cons => exact List.cons_ne_nil _ _
  have hid : isDatasetId "c" = true := by decide
  exact .add .empty (ready_add_eq_ok.mpr ⟨hid, hrecords, rfl, rfl, rfl⟩)

end Store

end CampusQuery
