import CampusQuery.Proofs.Dataset.Ingestion

namespace CampusQuery

open Outcome

namespace Kind

variable {k : Kind} {row : Json} {members : Keyed Json} {e : Entry}

def rowNames : Kind → List String
  | sections => CourseRow.shape.names
  | rooms => Room.shape.names

/-- Arrays of this length are rows; the last member of a course row may be left out. -/
def TakesLength : Kind → ℕ → Prop
  | sections, n => n = 10 ∨ n = 11
  | rooms, n => n = 11

/-- The row is the object of the members, or an array that gives them by their places. -/
inductive GivesMembers (k : Kind) : Json → Keyed Json → Prop
  | object (members : Keyed Json) : GivesMembers k (.object members) members
  | array {items : List Json} (h : k.TakesLength items.length) :
      GivesMembers k (.array items) (k.rowNames.zip items)

theorem givesMembers_iff_of_shape {α : Type} {s : Shape α} (hnames : k.rowNames = s.names)
    (hlength : ∀ n, k.TakesLength n ↔ s.FitsLength n) :
    k.GivesMembers row members ↔ s.entries? row = some members := by
  rw [Shape.entries?_eq_some]
  constructor
  · rintro (_ | ⟨h⟩)
    · exact .inl rfl
    · exact .inr ⟨_, rfl, (hlength _).mp h, by rw [hnames]⟩
  · rintro (rfl | ⟨items, rfl, h, rfl⟩)
    · exact .object members
    · exact hnames ▸ .array ((hlength _).mpr h)

theorem givesMembers_sections :
    sections.GivesMembers row members ↔ CourseRow.shape.entries? row = some members := by
  refine givesMembers_iff_of_shape rfl fun n => ?_
  have hfits : CourseRow.shape.FitsLength n ↔ 10 ≤ n ∧ n ≤ 11 := Iff.rfl
  rw [hfits, TakesLength]
  omega

theorem givesMembers_rooms :
    rooms.GivesMembers row members ↔ Room.shape.entries? row = some members := by
  refine givesMembers_iff_of_shape rfl fun n => ?_
  have hfits : Room.shape.FitsLength n ↔ 11 ≤ n ∧ n ≤ 11 := Iff.rfl
  rw [hfits, TakesLength]
  omega

theorem convert_sections_eq_ok : sections.convert row = .ok e ↔
    ∃ r, CourseRow.ofJson row = .ok r ∧ r.toSection.map .section = .ok e := by
  simp only [convert, map_eq_ok, Section.ofRow_eq_ok]
  constructor
  · rintro ⟨s, ⟨r, hread, hsection⟩, he⟩
    exact ⟨r, hread, s, hsection, he⟩
  · rintro ⟨r, hread, s, hsection, he⟩
    exact ⟨s, ⟨r, hread, hsection⟩, he⟩

theorem convert_rooms_eq_ok : rooms.convert row = .ok e ↔
    ∃ r, Room.ofJson row = .ok r ∧ r.violations = [] ∧ .room r = e := by
  simp only [convert, map_eq_ok, Room.ofRow_eq_ok, and_assoc]

theorem convert_eq_ok_iff_object : k.convert row = .ok e ↔
    ∃ members, k.GivesMembers row members ∧ k.convert (.object members) = .ok e := by
  cases k with
  | sections =>
    simp only [convert_sections_eq_ok, givesMembers_sections]
    exact Shape.exists_read_iff_object CourseRow.nodup_memberNames
  | rooms =>
    simp only [convert_rooms_eq_ok, givesMembers_rooms]
    exact Shape.exists_read_iff_object Room.nodup_memberNames

end Kind

namespace Dataset

/-- Rows make a dataset exactly if they stand for objects that make the same one. So a row that is
neither an object nor an array of the right length is refused, with all the others. -/
theorem ofRows_eq_ok_iff_objects (id : String) (kind : Kind) (rows : List Json) (now : Timestamp) :
    (∀ d, ofRows id kind rows now = .ok d ↔ ∃ objects, List.Forall₂ kind.GivesMembers rows objects ∧
      ofRows id kind (objects.map .object) now = .ok d) ∧
    ((∃ row ∈ rows, ∀ members, ¬kind.GivesMembers row members) →
      ∃ r, ofRows id kind rows now = .error r) := by
  have hrows : ∀ d, ofRows id kind rows now = .ok d ↔ ∃ objects,
      List.Forall₂ kind.GivesMembers rows objects ∧
        ofRows id kind (objects.map .object) now = .ok d := by
    intro d
    -- Row by row, the conversion goes through the object.
    simp only [ofRows_eq_ok_iff_entries, List.forall₂_map_left_iff]
    constructor
    · rintro ⟨hid, hkind, hnow, hentries⟩
      obtain ⟨objects, hobjects, hconvert⟩ := exists_forall₂_of_comp
        (hentries.imp fun row e he => Kind.convert_eq_ok_iff_object.mp he)
      exact ⟨objects, hobjects, hid, hkind, hnow, hconvert⟩
    · rintro ⟨objects, hobjects, hid, hkind, hnow, hconvert⟩
      refine ⟨hid, hkind, hnow, (forall₂_comp hobjects hconvert).imp fun row e he => ?_⟩
      exact Kind.convert_eq_ok_iff_object.mpr he
  refine ⟨hrows, ?_⟩
  rintro ⟨row, hrow, hnone⟩
  cases hd : ofRows id kind rows now with
  | error r => exact ⟨r, rfl⟩
  | ok d =>
    obtain ⟨objects, hobjects, -⟩ := (hrows d).mp hd
    obtain ⟨members, -, hmembers⟩ := exists_of_mem_right hobjects.flip hrow
    exact absurd hmembers (hnone members)

def sampleRoom : List Json :=
  [.string "Hugh", .string "DMP", .string "110", .string "DMP_110", .string "6245", .int 49,
   .int (-123), .int 120, .string "Tiered", .string "Fixed", .string "http"]

theorem ofRows_sampleRoom :
    (∃ d, ofRows "c" .rooms [.array sampleRoom, .object (Kind.rooms.rowNames.zip sampleRoom)]
      .epoch = .ok d) ∧
    ∃ r, ofRows "c" .rooms [.array sampleRoom, .bool true] .epoch = .error r := by
  have hmembers : Kind.rooms.GivesMembers (.array sampleRoom)
      (Kind.rooms.rowNames.zip sampleRoom) := .array rfl
  constructor
  · exact ⟨_, ((ofRows_eq_ok_iff_objects "c" .rooms _ .epoch).1 _).mpr
      ⟨_, .cons hmembers (.cons (.object _) .nil), rfl⟩⟩
  · refine (ofRows_eq_ok_iff_objects "c" .rooms _ .epoch).2 ⟨.bool true, by simp, ?_⟩
    rintro members ⟨⟩

/-- A room is loaded from a row that is no object. -/
theorem ofRows_array : (∀ members, Json.array sampleRoom ≠ .object members) ∧
    ∃ d, ofRows "c" .rooms [.array sampleRoom] .epoch = .ok d ∧ d.size = 1 :=
  ⟨fun _ => nofun, _, rfl, rfl⟩

end Dataset

end CampusQuery
