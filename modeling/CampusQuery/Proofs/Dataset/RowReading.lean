import CampusQuery.Dataset.Row
import CampusQuery.Proofs.Json.Shape

namespace CampusQuery

open Outcome

theorem accepted_eq_ok {α : Type} {a b : α} {violations : List Violation} :
    accepted a violations = .ok b ↔ violations = [] ∧ a = b := by
  cases violations with
  | nil => simp [accepted]
  | cons => simp [accepted]

namespace Room

theorem nodup_memberNames : shape.names.Nodup := by decide

theorem ofRow_eq_ok {row : Json} {r : Room} :
    ofRow row = .ok r ↔ ofJson row = .ok r ∧ r.violations = [] := by
  simp only [ofRow, bind_eq_ok, mapError_eq_ok, accepted_eq_ok]
  constructor
  · rintro ⟨r, hread, hviolations, rfl⟩
    exact ⟨hread, hviolations⟩
  · rintro ⟨hread, hviolations⟩
    exact ⟨r, hread, hviolations, rfl⟩

end Room

namespace CourseRow

open Shape (Gives)

theorem nodup_memberNames : shape.names.Nodup := by decide

variable {row year : Json} {r : CourseRow} {given : Keyed Json} {c : Cell} {s : Section}

theorem build_eq_ok : shape.build given = .ok r ↔
    Gives given "id" scalar r.id ∧ Gives given "Course" Json.text r.course ∧
    Gives given "Title" Json.text r.title ∧ Gives given "Professor" Json.text r.professor ∧
    Gives given "Subject" Json.text r.subject ∧ Gives given "Year" scalar r.year ∧
    Gives given "Avg" Json.real r.avg ∧ Gives given "Pass" Json.word32 r.pass ∧
    Gives given "Fail" Json.word32 r.fail ∧ Gives given "Audit" Json.word32 r.audit ∧
    (Shape.optional "Section" Json.text).build given = .ok r.label := by
  simp only [shape, Shape.build_seq_eq_ok, Shape.build_map_eq_ok, Shape.build_required_eq_ok]
  constructor
  · rintro ⟨_, label, ⟨_, audit, ⟨_, fail, ⟨_, pass, ⟨_, avg, ⟨_, year, ⟨_, subject, ⟨_, professor,
      ⟨_, title, ⟨_, course, ⟨id, hid, rfl⟩, hcourse, rfl⟩, htitle, rfl⟩, hprofessor, rfl⟩,
      hsubject, rfl⟩, hyear, rfl⟩, havg, rfl⟩, hpass, rfl⟩, hfail, rfl⟩, haudit, rfl⟩, hlabel, rfl⟩
    exact ⟨hid, hcourse, htitle, hprofessor, hsubject, hyear, havg, hpass, hfail, haudit, hlabel⟩
  · rintro ⟨hid, hcourse, htitle, hprofessor, hsubject, hyear, havg, hpass, hfail, haudit, hlabel⟩
    exact ⟨_, _, ⟨_, _, ⟨_, _, ⟨_, _, ⟨_, _, ⟨_, _, ⟨_, _, ⟨_, _, ⟨_, _, ⟨_, _, ⟨_, hid, rfl⟩,
      hcourse, rfl⟩, htitle, rfl⟩, hprofessor, rfl⟩, hsubject, rfl⟩, hyear, rfl⟩, havg, rfl⟩, hpass,
      rfl⟩, hfail, rfl⟩, haudit, rfl⟩, hlabel, rfl⟩

/-- The row sums up its course. -/
def IsOverall (row : Json) : Prop := shape.member? row "Section" = some (.string "overall")

def withYear (row year : Json) : Json := shape.replace "Year" year row

theorem withYear_withYear (row year year' : Json) :
    withYear (withYear row year) year' = withYear row year' :=
  Shape.replace_replace "Year" year year' row

theorem isOverall_withYear (row year : Json) : IsOverall (withYear row year) ↔ IsOverall row := by
  rw [IsOverall, withYear, Shape.member?_replace_of_ne nodup_memberNames (by decide), IsOverall]

theorem label_eq_overall_iff (h : ofJson row = .ok r) :
    r.label = some "overall" ↔ IsOverall row := by
  obtain ⟨given, hgiven, -, hbuild⟩ := (Shape.read_eq_ok nodup_memberNames).mp h
  obtain ⟨-, -, -, -, -, -, -, -, -, -, hlabel⟩ := build_eq_ok.mp hbuild
  rw [IsOverall, Shape.member?, hgiven, Option.bind_some]
  simp only [Shape.optional] at hlabel
  cases hv : given.get? "Section" with
  | none =>
    rw [hv] at hlabel
    simp [← Except.ok.inj hlabel]
  | some v =>
    rw [hv] at hlabel
    cases v with
    | null => simp [← Except.ok.inj hlabel]
    | string text => simp [← Except.ok.inj hlabel]
    | _ => cases hlabel

/-- A row is read with any number or text in the place of its year. -/
theorem ofJson_withYear (h : ofJson row = .ok r) (hyear : scalar year = .ok c) :
    ofJson (withYear row year) = .ok { r with year := c } := by
  obtain ⟨given, hgiven, hcheck, hbuild⟩ := (Shape.read_eq_ok nodup_memberNames).mp h
  obtain ⟨hid, hcourse, htitle, hprofessor, hsubject, ⟨old, hold, -⟩, havg, hpass, hfail, haudit,
    hlabel⟩ := build_eq_ok.mp hbuild
  refine (Shape.read_eq_ok nodup_memberNames).mpr
    ⟨given.replace "Year" year, ?_, ?_, build_eq_ok.mpr ?_⟩
  · rw [withYear, Shape.entries?_replace nodup_memberNames, hgiven, Option.map_some]
  · -- The new year passes the check of its member, and the other members are as they were.
    intro m hm
    rcases Keyed.eq_or_mem_of_mem_replace hm with rfl | hm
    · have hcheck_year : shape.check "Year" year = (scalar year).map fun _ => () := rfl
      rw [hcheck_year, hyear]
      rfl
    · exact hcheck m hm
  · have hnew : (given.replace "Year" year).get? "Year" = some year := by
      rw [Keyed.get?_replace, if_pos rfl, hold, Option.map_some]
    have hsection : (given.replace "Year" year).get? "Section" = given.get? "Section" := by
      rw [Keyed.get?_replace, if_neg (by decide)]
    refine ⟨hid.replace_of_ne (by decide) _, hcourse.replace_of_ne (by decide) _,
      htitle.replace_of_ne (by decide) _, hprofessor.replace_of_ne (by decide) _,
      hsubject.replace_of_ne (by decide) _, ⟨year, hnew, hyear⟩, havg.replace_of_ne (by decide) _,
      hpass.replace_of_ne (by decide) _, hfail.replace_of_ne (by decide) _,
      haudit.replace_of_ne (by decide) _, ?_⟩
    rw [← hlabel]
    simp only [Shape.optional, hsection]

def sample (id year : Json) : Keyed Json :=
  [("id", id), ("Course", .string "310"), ("Title", .string "data"), ("Professor", .string "gail"),
   ("Subject", .string "cpsc"), ("Year", year), ("Avg", .int 70), ("Pass", .int 9),
   ("Fail", .int 1), ("Audit", .int 0)]

/-- The year of the section, which rows that sum up a course do not give themselves. -/
def takenYear (r : CourseRow) : Except RowError Int32 :=
  if r.label = some "overall" then .ok overallYear else yearOf r.year

def sectionIn (r : CourseRow) (year : Int32) : Section where
  uuid := r.id.keyText
  id := r.course
  title := r.title
  instructor := r.professor
  dept := r.subject
  year := year
  avg := r.avg
  pass := r.pass
  fail := r.fail
  audit := r.audit

theorem toSection_eq (r : CourseRow) : r.toSection = r.takenYear >>= fun year =>
    accepted (r.sectionIn year) (r.sectionIn year).violations := by
  unfold toSection takenYear
  split <;> rfl

theorem toSection_eq_ok : r.toSection = .ok s ↔
    ∃ year, r.takenYear = .ok year ∧ s = r.sectionIn year ∧ s.violations = [] := by
  rw [toSection_eq, bind_eq_ok]
  refine exists_congr fun year => and_congr_right fun _ => ?_
  rw [accepted_eq_ok, and_comm, eq_comm]
  exact and_congr_right fun h => by rw [h]

end CourseRow

theorem Section.ofRow_eq_ok {row : Json} {s : Section} :
    ofRow row = .ok s ↔ ∃ r, CourseRow.ofJson row = .ok r ∧ r.toSection = .ok s := by
  simp only [ofRow, bind_eq_ok, mapError_eq_ok]

end CampusQuery
