import CampusQuery.Dataset.Basic
import CampusQuery.Proofs.Outcome

namespace CampusQuery

open Outcome

theorem convertRows_eq_ok {α : Type} {convert : Json → Except RowError α} {index : ℕ}
    {rows : List Json} {records : List α} : convertRows convert index rows = .ok records ↔
      List.Forall₂ (fun row a => convert row = .ok a) rows records := by
  induction rows generalizing index records with
  | nil => cases records <;> simp [convertRows]
  | cons row rows ih =>
    simp only [convertRows, bind_eq_ok, mapError_eq_ok, pure_eq_ok, ih,
      List.forall₂_cons_left_iff]
    constructor
    · rintro ⟨a, ha, rest, hrest, rfl⟩
      exact ⟨a, rest, ha, hrest, rfl⟩
    · rintro ⟨a, rest, ha, hrest, rfl⟩
      exact ⟨a, ha, rest, hrest, rfl⟩

namespace Contents

def ReadFrom (rows : List Json) : Contents → Prop
  | sections all => List.Forall₂ (fun row s => Section.ofRow row = .ok s) rows all
  | rooms all => List.Forall₂ (fun row r => Room.ofRow row = .ok r) rows all

def IsBadRow (row : Json) : Kind → Prop
  | .sections => ∃ e, Section.ofRow row = .error e
  | .rooms => ∃ e, Room.ofRow row = .error e

variable {c : Contents} {rows : List Json}

theorem ofRows_eq_ok {kind : Kind} : ofRows rows kind = .ok c ↔ c.kind = kind ∧ c.ReadFrom rows := by
  cases kind <;> cases c <;>
    simp [ofRows, map_eq_ok, convertRows_eq_ok, Contents.kind, ReadFrom]

theorem ReadFrom.length_eq (h : c.ReadFrom rows) : rows.length = c.records.length := by
  cases c with
  | sections all => exact (List.Forall₂.length_eq h).trans (List.length_map _).symm
  | rooms all => exact (List.Forall₂.length_eq h).trans (List.length_map _).symm

theorem ReadFrom.not_isBadRow (h : c.ReadFrom rows) {row : Json} (hrow : row ∈ rows) :
    ¬IsBadRow row c.kind := by
  cases c with
  | sections all =>
    rintro ⟨e, he⟩
    obtain ⟨s, -, hs⟩ := exists_of_mem_right (List.Forall₂.flip h) hrow
    cases he.symm.trans hs
  | rooms all =>
    rintro ⟨e, he⟩
    obtain ⟨r, -, hr⟩ := exists_of_mem_right (List.Forall₂.flip h) hrow
    cases he.symm.trans hr

end Contents

theorem Dataset.ofRows_eq_ok {id : String} {kind : Kind} {rows : List Json} {now : Timestamp}
    {d : Dataset} : ofRows id kind rows now = .ok d ↔
      d.id = id ∧ d.kind = kind ∧ d.loadedAt = now ∧ d.contents.ReadFrom rows := by
  obtain ⟨id', contents, loadedAt⟩ := d
  simp only [ofRows, map_eq_ok, Contents.ofRows_eq_ok, Dataset.kind, mk.injEq]
  constructor
  · rintro ⟨c, ⟨hkind, hrows⟩, rfl, rfl, rfl⟩
    exact ⟨rfl, hkind, rfl, hrows⟩
  · rintro ⟨rfl, hkind, rfl, hrows⟩
    exact ⟨contents, ⟨hkind, hrows⟩, rfl, rfl, rfl⟩

end CampusQuery
