import CampusQuery.Proofs.Dataset.Finite

namespace CampusQuery

open Outcome

inductive Entry where
  | section (s : Section)
  | room (r : Room)

def Contents.entries : Contents → List Entry
  | sections all => all.map .section
  | rooms all => all.map .room

def Kind.convert : Kind → Json → Except RowError Entry
  | sections, row => (Section.ofRow row).map .section
  | rooms, row => (Room.ofRow row).map .room

/-- The first of the rows that is no record taken alone, and why it is none. -/
def Kind.IsFirstBad (k : Kind) (rows : List Json) (r : InvalidRow) : Prop :=
  ∃ row, rows[r.index]? = some row ∧ k.convert row = .error r.cause ∧
    ∀ earlier ∈ rows.take r.index, ∃ e, k.convert earlier = .ok e

theorem convertRows_cons {α : Type} (convert : Json → Except RowError α) (index : ℕ) (row : Json)
    (rows : List Json) : convertRows convert index (row :: rows) = match convert row with
      | .ok a => (convertRows convert (index + 1) rows).map (a :: ·)
      | .error e => .error ⟨index, e⟩ := by
  rw [convertRows]
  cases convert row with
  | error e => rfl
  | ok a => cases convertRows convert (index + 1) rows <;> rfl

theorem convertRows_eq_error {α : Type} {convert : Json → Except RowError α} {index : ℕ}
    {rows : List Json} {r : InvalidRow} : convertRows convert index rows = .error r ↔
      ∃ i row, r.index = index + i ∧ rows[i]? = some row ∧ convert row = .error r.cause ∧
        ∀ earlier ∈ rows.take i, ∃ a, convert earlier = .ok a := by
  induction rows generalizing index with
  | nil => simp [convertRows]
  | cons row rows ih =>
    rw [convertRows_cons]
    cases hrow : convert row with
    | error e =>
      -- A bad row behind this one is not the first.
      constructor
      · rintro ⟨⟩
        exact ⟨0, row, rfl, rfl, hrow, by simp⟩
      · rintro ⟨i, row', hindex, hrow', hcause, hearlier⟩
        cases i with
        | zero =>
          cases hrow'
          cases hrow.symm.trans hcause
          rw [← show r.index = index from hindex]
        | succ i =>
          obtain ⟨a, ha⟩ := hearlier row List.mem_cons_self
          cases hrow.symm.trans ha
    | ok a =>
      -- The places of the rows behind are counted from the next one on.
      rw [map_eq_error, ih]
      constructor
      · rintro ⟨i, row', hindex, hrow', hcause, hearlier⟩
        exact ⟨i + 1, row', by omega, hrow', hcause,
          List.forall_mem_cons.mpr ⟨⟨a, hrow⟩, hearlier⟩⟩
      · rintro ⟨i, row', hindex, hrow', hcause, hearlier⟩
        cases i with
        | zero =>
          cases hrow'
          cases hrow.symm.trans hcause
        | succ i =>
          exact ⟨i, row', by omega, hrow', hcause, (List.forall_mem_cons.mp hearlier).2⟩

namespace Contents

variable {c : Contents} {rows : List Json}

theorem readFrom_iff : c.ReadFrom rows ↔
    List.Forall₂ (fun row e => c.kind.convert row = .ok e) rows c.entries := by
  cases c with
  | sections all =>
    rw [ReadFrom, entries, List.forall₂_map_right_iff]
    simp only [Contents.kind, Kind.convert, map_eq_ok, Entry.section.injEq, exists_eq_right]
  | rooms all =>
    rw [ReadFrom, entries, List.forall₂_map_right_iff]
    simp only [Contents.kind, Kind.convert, map_eq_ok, Entry.room.injEq, exists_eq_right]

theorem ofRows_eq_error {kind : Kind} {r : InvalidRow} :
    ofRows rows kind = .error r ↔ kind.IsFirstBad rows r := by
  have hindex (p : ℕ → Prop) : (∃ i, r.index = 0 + i ∧ p i) ↔ p r.index := by simp
  -- The constructor around the record changes neither success nor the error.
  cases kind
  all_goals
    rw [ofRows, map_eq_error, convertRows_eq_error, Kind.IsFirstBad]
    simp only [Kind.convert, exists_map_eq_ok, map_eq_error, exists_and_left, hindex]

end Contents

def Binary64.Bounded (x : Binary64) (bound : ℕ) : Prop :=
  ∃ s m, x = .finite s m ∧ m.value ≤ bound

theorem requireText_eq_nil {field message value : String} :
    requireText field message value = [] ↔ value ≠ "" := by
  simp [requireText]

/-- Finite numbers pass a bound that is a double if they keep to it. -/
theorem bounded_of_requireWithin {field : String} {bound : ℕ} {x : Binary64}
    (hbound : bound < 2 ^ 53) (hfinite : x.isFinite = true)
    (h : requireWithin field bound x = []) : x.Bounded bound := by
  obtain ⟨b, hb⟩ := Magnitude.exists_value_eq hbound
  have hnot : ¬(x.lt (Binary64.ofNat bound).neg = true ∨ (Binary64.ofNat bound).lt x = true) := by
    intro hout
    rw [requireWithin, if_pos hout] at h
    cases h
  rw [Binary64.ofNat, Binary64.ofRatio_of_value hb, not_or] at hnot
  cases x with
  | finite s m =>
    -- The bound and its negation have the same bits, so either comparison is one of magnitudes.
    have hle : m.val ≤ b.val := by
      simp only [Binary64.lt, Binary64.relates, Binary64.level?, Binary64.neg] at hnot
      cases s <;> simp at hnot <;> omega
    exact ⟨s, m, rfl, hb ▸ Magnitude.value_le_value hle⟩
  | infinite s => cases hfinite
  | quietNaN s p => cases hfinite

/-- What holds of the section that a row is read as. Rows that sum up a course have one year,
whatever number or text they give. Documents that are read hold no numbers but finite ones. -/
structure Section.IsSound (row : Json) (s : Section) : Prop where
  finite : row.Finite → s.record.IsFinite
  uuid_ne : s.uuid ≠ ""
  dept_ne : s.dept ≠ ""
  overall : CourseRow.IsOverall row → s.year = 1900 ∧
    ∀ year c, CourseRow.scalar year = .ok c → ofRow (CourseRow.withYear row year) = .ok s

structure Room.IsSound (row : Json) (r : Room) : Prop where
  finite : row.Finite → r.record.IsFinite
  lat_bounded : row.Finite → r.lat.Bounded 90
  lon_bounded : row.Finite → r.lon.Bounded 180
  shortname_ne : r.shortname ≠ ""
  number_ne : r.number ≠ ""

def Entry.IsSound (row : Json) : Entry → Prop
  | .section s => s.IsSound row
  | .room r => r.IsSound row

theorem Section.isSound_of_row {row : Json} {s : Section} (h : ofRow row = .ok s) :
    s.IsSound row := by
  obtain ⟨r, hread, hsection⟩ := ofRow_eq_ok.mp h
  obtain ⟨year, hyear, rfl, hviolations⟩ := CourseRow.toSection_eq_ok.mp hsection
  obtain ⟨hdept, huuid⟩ := List.append_eq_nil_iff.mp hviolations
  refine ⟨fun hrow => isFinite_of_row hrow h, requireText_eq_nil.mp huuid,
    requireText_eq_nil.mp hdept, fun hoverall => ?_⟩
  have hlabel := (CourseRow.label_eq_overall_iff hread).mpr hoverall
  rw [CourseRow.takenYear, if_pos hlabel] at hyear
  cases hyear
  -- The label decides on the year before the row's own is looked at.
  refine ⟨rfl, fun year c hc => ofRow_eq_ok.mpr ⟨_, CourseRow.ofJson_withYear hread hc, ?_⟩⟩
  exact CourseRow.toSection_eq_ok.mpr ⟨_, if_pos hlabel, rfl, hviolations⟩

theorem Room.isSound_of_row {row : Json} {r : Room} (h : ofRow row = .ok r) : r.IsSound row := by
  obtain ⟨hread, hviolations⟩ := ofRow_eq_ok.mp h
  simp only [violations, List.append_eq_nil_iff, requireText_eq_nil] at hviolations
  obtain ⟨⟨⟨hlat, hlon⟩, hnumber⟩, hshortname⟩ := hviolations
  have hfinite : row.Finite → r.lat.isFinite = true ∧ r.lon.isFinite = true := fun hrow =>
    Room.yields_shape.read hrow hread
  exact ⟨fun hrow => isFinite_of_row hrow h,
    fun hrow => bounded_of_requireWithin (by norm_num) (hfinite hrow).1 hlat,
    fun hrow => bounded_of_requireWithin (by norm_num) (hfinite hrow).2 hlon, hshortname, hnumber⟩

theorem Kind.isSound_of_convert {k : Kind} {row : Json} {e : Entry} (h : k.convert row = .ok e) :
    e.IsSound row := by
  cases k with
  | sections =>
    obtain ⟨s, hs, rfl⟩ := map_eq_ok.mp h
    exact Section.isSound_of_row hs
  | rooms =>
    obtain ⟨r, hr, rfl⟩ := map_eq_ok.mp h
    exact Room.isSound_of_row hr

namespace Dataset

variable {id : String} {kind : Kind} {rows : List Json} {now : Timestamp} {d : Dataset}

theorem ofRows_eq_ok_iff_entries : ofRows id kind rows now = .ok d ↔
    d.id = id ∧ d.kind = kind ∧ d.loadedAt = now ∧
      List.Forall₂ (fun row e => kind.convert row = .ok e) rows d.contents.entries := by
  rw [ofRows_eq_ok, Contents.readFrom_iff]
  refine and_congr_right fun _ => and_congr_right fun hkind => ?_
  rw [← hkind]
  rfl

theorem ofRows_eq_error {r : InvalidRow} :
    ofRows id kind rows now = .error r ↔ kind.IsFirstBad rows r := by
  rw [ofRows, map_eq_error, Contents.ofRows_eq_error]

theorem exists_ofRows_iff (id : String) (kind : Kind) (rows : List Json) (now : Timestamp) :
    (∃ d, ofRows id kind rows now = .ok d) ↔ ∀ row ∈ rows, ∃ e, kind.convert row = .ok e := by
  constructor
  · rintro ⟨d, hd⟩ row hrow
    obtain ⟨-, -, -, hentries⟩ := ofRows_eq_ok_iff_entries.mp hd
    obtain ⟨e, -, he⟩ := exists_of_mem_right hentries.flip hrow
    exact ⟨e, he⟩
  · intro h
    cases hd : ofRows id kind rows now with
    | ok d => exact ⟨d, rfl⟩
    | error r =>
      obtain ⟨row, hrow, hcause, -⟩ := ofRows_eq_error.mp hd
      obtain ⟨e, he⟩ := h row (List.mem_of_getElem? hrow)
      cases he.symm.trans hcause

/-- Rows make a dataset if each of them alone is a record. The dataset has these records, in the
order of the rows, and they keep the rules of their kind; otherwise the first bad row is blamed. -/
theorem ofRows_allOrNothing (id : String) (kind : Kind) (rows : List Json) (now : Timestamp) :
    ((∃ d, ofRows id kind rows now = .ok d) ↔ ∀ row ∈ rows, ∃ e, kind.convert row = .ok e) ∧
    (∀ d, ofRows id kind rows now = .ok d ↔ d.id = id ∧ d.kind = kind ∧ d.loadedAt = now ∧
      List.Forall₂ (fun row e => kind.convert row = .ok e) rows d.contents.entries) ∧
    (∀ r, ofRows id kind rows now = .error r ↔ kind.IsFirstBad rows r) ∧
    ∀ d, ofRows id kind rows now = .ok d → List.Forall₂ Entry.IsSound rows d.contents.entries := by
  refine ⟨exists_ofRows_iff id kind rows now, fun d => ofRows_eq_ok_iff_entries,
    fun r => ofRows_eq_error, fun d hd => ?_⟩
  obtain ⟨-, -, -, hentries⟩ := ofRows_eq_ok_iff_entries.mp hd
  exact hentries.imp fun row e he => Kind.isSound_of_convert he

def roomAt (lat lon : ℤ) : Json :=
  .object
    [("address", .string ""), ("fullname", .string ""), ("furniture", .string ""),
     ("href", .string ""), ("lat", .int lat), ("lon", .int lon), ("name", .string ""),
     ("number", .string "1"), ("seats", .int 0), ("shortname", .string "A"), ("type", .string "")]

theorem finite_roomAt {lat lon : ℤ} (hlat : lat.natAbs < 2 ^ 64) (hlon : lon.natAbs < 2 ^ 64) :
    (roomAt lat lon).Finite := by
  refine .object ?_
  simp only [List.forall_mem_cons]
  exact ⟨.string, .string, .string, .string, .int (Binary64.isFinite_ofInt hlat),
    .int (Binary64.isFinite_ofInt hlon), .string, .string, .int (by decide), .string, .string,
    List.forall_mem_nil _⟩

/-- A row that sums up its course is loaded though its year is none, and a room at the pole but none
beyond. Of two bad rows behind a good one the first is blamed. -/
theorem ofRows_overall :
    let row :=
      .object (("Section", .string "overall") :: CourseRow.sample (.int 1) (.string "none"))
    ((∃ d, ofRows "c" .sections [row] .epoch = .ok d ∧
      List.Forall₂ Entry.IsSound [row] d.contents.entries) ∧
      ∃ r, r.index = 1 ∧ ofRows "c" .sections [row, .null, .bool true] .epoch = .error r) ∧
    (∃ d r, ofRows "a" .rooms [roomAt 90 (-180)] .epoch = .ok d ∧ d.contents.entries = [.room r] ∧
      r.record.IsFinite ∧ r.lat.Bounded 90 ∧ r.lon.Bounded 180) ∧
    ∃ r, r.index = 1 ∧
      ofRows "a" .rooms [roomAt 90 (-180), roomAt 91 0, .null] .epoch = .error r := by
  intro row
  constructor
  · have hrow : ∃ e, Kind.sections.convert row = .ok e := ⟨_, rfl⟩
    have hone := ofRows_allOrNothing "c" .sections [row] .epoch
    have hbad := ofRows_allOrNothing "c" .sections [row, .null, .bool true] .epoch
    obtain ⟨d, hd⟩ := hone.1.mpr (List.forall_mem_singleton.mpr hrow)
    exact ⟨⟨d, hd, hone.2.2.2 d hd⟩, ⟨1, _⟩, rfl, (hbad.2.2.1 _).mpr ⟨.null, rfl, rfl,
      List.forall_mem_singleton.mpr hrow⟩⟩
  · let pole : Room := ⟨"", "A", "1", "", "", .ofInt 90, .ofInt (-180), 0, "", "", ""⟩
    have hpole : Kind.rooms.convert (roomAt 90 (-180)) = .ok (.room pole) := by cbv
    have hone := ofRows_allOrNothing "a" .rooms [roomAt 90 (-180)] .epoch
    have hbad := ofRows_allOrNothing "a" .rooms [roomAt 90 (-180), roomAt 91 0, .null] .epoch
    have hd := (hone.2.1 ⟨"a", .rooms [pole], .epoch⟩).mpr ⟨rfl, rfl, rfl, .cons hpole .nil⟩
    have hsound : pole.IsSound (roomAt 90 (-180)) := (List.forall₂_cons.mp (hone.2.2.2 _ hd)).1
    have hfinite : (roomAt 90 (-180)).Finite := finite_roomAt (by decide) (by decide)
    exact ⟨⟨_, pole, hd, rfl, hsound.finite hfinite, hsound.lat_bounded hfinite,
      hsound.lon_bounded hfinite⟩, ⟨1, _⟩, rfl, (hbad.2.2.1 _).mpr ⟨_, rfl, rfl,
      List.forall_mem_singleton.mpr ⟨_, hpole⟩⟩⟩

end Dataset

end CampusQuery
