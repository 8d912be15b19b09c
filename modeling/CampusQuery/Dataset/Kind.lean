import CampusQuery.Dataset.Room
import CampusQuery.Dataset.Section

namespace CampusQuery

inductive Kind where
  | sections
  | rooms
deriving DecidableEq, Repr

namespace Kind

def name : Kind → String
  | sections => "sections"
  | rooms => "rooms"

def ofName? : String → Option Kind
  | "sections" => some sections
  | "rooms" => some rooms
  | _ => none

theorem ofName?_name (k : Kind) : ofName? k.name = some k := by cases k <;> rfl

def unknownMessage (name : String) : String :=
  s!"Unknown dataset kind: '{name}'. Expected 'sections' or 'rooms'"

def attributes : Kind → List (String × CellType)
  | sections => Section.attributes.map fun a => (a.name, a.type)
  | rooms => Room.attributes.map fun a => (a.name, a.type)

def hasAttribute (k : Kind) (name : String) : Bool := k.attributes.any (·.1 == name)

/-- A kind is its name, alone or as the only member of an object. -/
def ofJson : Json → Except Mismatch Kind
  | .string s => named s
  | .object [(s, payload)] => do
    let k ← named s
    match payload with
    | .null => return k
    | v => v.wrongType "unit"
  | .object _ => .error (.value "map" "map with a single key")
  | v => v.wrongType "string or map"
where
  named (s : String) : Except Mismatch Kind :=
    match ofName? s with
    | some k => .ok k
    | none => .error (.variant s "`sections` or `rooms`")

def toJson (k : Kind) : Json := .string k.name

end Kind

end CampusQuery
