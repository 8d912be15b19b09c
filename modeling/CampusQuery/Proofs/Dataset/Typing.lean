import CampusQuery.Dataset.Registry
import Mathlib.Data.List.Nodup

namespace CampusQuery

/-- Every attribute of the kind has a value of its type. -/
def Record.Fits (r : Record) (k : Kind) : Prop :=
  ∀ a t, (a, t) ∈ k.attributes → ∃ c, r a = some c ∧ c.type = t

namespace Attribute

variable {α : Type}

/-- In a table without repeated names a record shows each attribute under its name. -/
theorem record_name {table : List (Attribute α)} (hn : (table.map (·.name)).Nodup)
    {a : Attribute α} (ha : a ∈ table) (x : α) : record table x a.name = some (a.cell x) := by
  induction table with
  | nil => simp at ha
  | cons b table ih =>
    rw [List.map_cons, List.nodup_cons] at hn
    unfold record at ih ⊢
    rw [List.find?_cons]
    rcases List.mem_cons.mp ha with rfl | hmem
    · simp
    · have hne : (b.name == a.name) = false := by
        rw [beq_eq_false_iff_ne]
        intro he
        exact hn.1 (he ▸ List.mem_map_of_mem hmem)
      rw [hne]
      exact ih hn.2 hmem

theorem exists_cell {table : List (Attribute α)} (hn : (table.map (·.name)).Nodup) (x : α)
    {name : String} {t : CellType} (h : (name, t) ∈ table.map fun a => (a.name, a.type)) :
    ∃ c, record table x name = some c ∧ c.type = t := by
  obtain ⟨a, ha, he⟩ := List.mem_map.mp h
  rw [Prod.mk.injEq] at he
  obtain ⟨rfl, rfl⟩ := he
  exact ⟨a.cell x, record_name hn ha x, a.type_cell x⟩

end Attribute

theorem Section.nodup_names : (Section.attributes.map (·.name)).Nodup := by decide

theorem Room.nodup_names : (Room.attributes.map (·.name)).Nodup := by decide

theorem Section.fits (s : Section) : s.record.Fits .sections := by
  intro a t h
  exact Attribute.exists_cell Section.nodup_names s h

theorem Room.fits (r : Room) : r.record.Fits .rooms := by
  intro a t h
  exact Attribute.exists_cell Room.nodup_names r h

namespace Dataset

theorem fits (d : Dataset) {r : Record} (h : r ∈ d.records) : r.Fits d.kind := by
  obtain ⟨id, contents, loadedAt⟩ := d
  cases contents with
  | sections all =>
    obtain ⟨s, -, rfl⟩ := List.mem_map.mp h
    exact s.fits
  | rooms all =>
    obtain ⟨room, -, rfl⟩ := List.mem_map.mp h
    exact room.fits

def ofGrades (grades : List (String × Binary64)) : Dataset :=
  ⟨"c", .sections (grades.map fun (dept, avg) => ⟨"", "", "", "", dept, 0, avg, 0, 0, 0⟩), .epoch⟩

end Dataset

def Store.ofGrades (grades : List (String × Binary64)) : Store := .ready ⟨[("c", .ofGrades grades)]⟩

end CampusQuery
