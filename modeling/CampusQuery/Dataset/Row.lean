import CampusQuery.Dataset.Room
import CampusQuery.Dataset.Section
import CampusQuery.Number.Integer
import CampusQuery.Text

namespace CampusQuery

inductive Violation where
  | empty (field : String) (message : String)
  | outOfRange (field : String)
deriving DecidableEq, Repr

namespace Violation

def field : Violation → String
  | empty field _ | outOfRange field => field

def code : Violation → String
  | empty .. => "length"
  | outOfRange _ => "range"

def message? : Violation → Option String
  | empty _ message => some message
  | outOfRange _ => none

def text (v : Violation) : String :=
  s!"{v.field}: " ++ v.message?.getD s!"Validation error: {v.code}"

end Violation

inductive RowError where
  | invalidYear (given : String)
  | malformed (cause : Mismatch)
  | invalid (violations : List Violation)
deriving DecidableEq, Repr

def RowError.message : RowError → String
  | invalidYear given => s!"Invalid year value: '{given}'"
  | malformed cause => s!"Malformed record: {cause.message}"
  | invalid violations => "Validation failed: " ++ "\n".intercalate (violations.map Violation.text)

def accepted {α : Type} (a : α) : List Violation → Except RowError α
  | [] => .ok a
  | violations => .error (.invalid violations)

def requireText (field message value : String) : List Violation :=
  if value = "" then [.empty field message] else []

/-- The violation, if the field lies outside of `-bound` to `bound`. -/
def requireWithin (field : String) (bound : Nat) (value : Binary64) : List Violation :=
  let b := Binary64.ofNat bound
  if value.lt b.neg ∨ b.lt value then [.outOfRange field] else []

namespace Section

/-- In the order of the fields' names. -/
def violations (s : Section) : List Violation :=
  requireText "dept" "Department cannot be empty" s.dept ++
    requireText "uuid" "Section uuid cannot be empty" s.uuid

end Section

namespace Room

def violations (r : Room) : List Violation :=
  requireWithin "lat" 90 r.lat ++ requireWithin "lon" 180 r.lon ++
    requireText "number" "Room number cannot be empty" r.number ++
    requireText "shortname" "Building short name cannot be empty" r.shortname

def ofRow (row : Json) : Except RowError Room := do
  let room ← (ofJson row).mapError .malformed
  accepted room room.violations

end Room

/-- A row of a course file. Identifier and year are numbers in some files and texts in others. -/
structure CourseRow where
  id : Cell
  course : String
  title : String
  professor : String
  subject : String
  year : Cell
  avg : Binary64
  pass : UInt32
  fail : UInt32
  audit : UInt32
  label : Option String
deriving DecidableEq, Repr

namespace CourseRow

def scalar (v : Json) : Except Mismatch Cell :=
  match v.number?, v.text? with
  | some x, _ => .ok (.number x)
  | none, some s => .ok (.text s)
  | none, none => .error (.noVariant "RawScalar")

def shape : Shape CourseRow :=
  mk <$> .required "id" scalar
    <*> .required "Course" Json.text
    <*> .required "Title" Json.text
    <*> .required "Professor" Json.text
    <*> .required "Subject" Json.text
    <*> .required "Year" scalar
    <*> .required "Avg" Json.real
    <*> .required "Pass" Json.word32
    <*> .required "Fail" Json.word32
    <*> .required "Audit" Json.word32
    <*> .optional "Section" Json.text

def ofJson : Json → Except Mismatch CourseRow := shape.read "RawCourseSection"

/-- The year of rows that sum up a course. -/
def overallYear : Int32 := 1900

/-- A whole number short of the largest one of 32 bits, or the text of one. -/
def yearOf : Cell → Except RowError Int32
  | .number x =>
    match x.toInt?.filter (·.natAbs < 2147483647) with
    | some n => .ok (Int32.ofInt n)
    | none => .error (.invalidYear (Layout.display.render x))
  | .text s =>
    match Integer.int32 (trimBlanks s.toList) with
    | .ok n => .ok n
    | .error _ => .error (.invalidYear s)

def toSection (row : CourseRow) : Except RowError Section := do
  let year ← if row.label = some "overall" then .ok overallYear else yearOf row.year
  let s : Section :=
    { uuid := row.id.keyText
      id := row.course
      title := row.title
      instructor := row.professor
      dept := row.subject
      year
      avg := row.avg
      pass := row.pass
      fail := row.fail
      audit := row.audit }
  accepted s s.violations

end CourseRow

def Section.ofRow (row : Json) : Except RowError Section := do
  let read ← (CourseRow.ofJson row).mapError .malformed
  read.toSection

end CampusQuery
