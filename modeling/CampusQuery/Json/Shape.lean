import CampusQuery.Json.Value
import CampusQuery.Text

namespace CampusQuery

inductive Mismatch where
  | type (found : String) (expected : String)
  | value (found : String) (expected : String)
  | length (n : Nat) (expected : String)
  | missing (member : String)
  | variant (found : String) (expected : String)
  | noVariant (wanted : String)
  | rejected (reason : String)
deriving DecidableEq, Repr

namespace Mismatch

def message : Mismatch → String
  | type found expected => s!"invalid type: {found}, expected {expected}"
  | value found expected => s!"invalid value: {found}, expected {expected}"
  | length n expected => s!"invalid length {n}, expected {expected}"
  | missing member => s!"missing field `{member}`"
  | variant found expected => s!"unknown variant `{found}`, expected {expected}"
  | noVariant wanted => s!"data did not match any variant of untagged enum {wanted}"
  | rejected reason => reason

end Mismatch

namespace Json

variable {α : Type}

def found : Json → String
  | null => "null"
  | bool b => s!"boolean `{b}`"
  | int n => s!"integer `{n}`"
  | double x => s!"floating point `{Layout.json.render x}`"
  | string s => s!"string {Quoted.render s}"
  | array _ => "sequence"
  | object _ => "map"

def wrongType (v : Json) (expected : String) : Except Mismatch α := .error (.type v.found expected)

def text : Json → Except Mismatch String
  | string s => .ok s
  | v => v.wrongType "a string"

def real (v : Json) : Except Mismatch Binary64 :=
  match v.number? with
  | some x => .ok x
  | none => v.wrongType "f64"

def integer (name : String) (low high : Int) : Json → Except Mismatch Int
  | int n => if low ≤ n ∧ n ≤ high then .ok n else .error (.value s!"integer `{n}`" name)
  | v => v.wrongType name

def word32 (v : Json) : Except Mismatch UInt32 :=
  (v.integer "u32" 0 0xffff_ffff).map fun n => UInt32.ofNat n.toNat

def int32 (v : Json) : Except Mismatch Int32 :=
  (v.integer "i32" (-0x8000_0000) 0x7fff_ffff).map Int32.ofInt

def count (v : Json) : Except Mismatch Nat :=
  (v.integer "usize" 0 0xffff_ffff_ffff_ffff).map Int.toNat

def nullable (read : Json → Except Mismatch α) : Json → Except Mismatch (Option α)
  | null => .ok none
  | v => (read v).map some

end Json

structure Member where
  name : String
  required : Bool
  check : Json → Except Mismatch Unit

/-- A record of type `α` by its members, in their listed order. -/
structure Shape (α : Type) where
  members : List Member
  build : Keyed Json → Except Mismatch α

namespace Shape

variable {α : Type}

instance : Applicative Shape where
  pure a := ⟨[], fun _ => .ok a⟩
  seq f x :=
    { members := f.members ++ (x ()).members
      build := fun given => do
        let g ← f.build given
        let a ← (x ()).build given
        return g a }

def required (name : String) (read : Json → Except Mismatch α) : Shape α :=
  { members := [⟨name, true, fun v => (read v).map fun _ => ()⟩]
    build := fun given =>
      match given.get? name with
      | some v => read v
      | none => .error (.missing name) }

/-- A member that may be absent or null. -/
def optional (name : String) (read : Json → Except Mismatch α) : Shape (Option α) :=
  { members := [⟨name, false, fun v => (v.nullable read).map fun _ => ()⟩]
    build := fun given =>
      match given.get? name with
      | some v => v.nullable read
      | none => .ok none }

/-- Members of other names are let pass. -/
def check (s : Shape α) (name : String) (v : Json) : Except Mismatch Unit :=
  match s.members.find? (·.name == name) with
  | some m => m.check v
  | none => .ok ()

def lengthText (s : Shape α) (title : String) : String :=
  let n := s.members.length
  s!"struct {title} with {n} " ++ if n = 1 then "element" else "elements"

/-- The members of an object are checked in the order they stand, and only then is the first missing
one reported. An array is read by position. -/
def align (s : Shape α) (title : String) : Json → Except Mismatch (Keyed Json)
  | .object given => do
    given.forM fun (name, v) => s.check name v
    return given
  | .array items => do
    (s.members.zip items).forM fun (m, v) => m.check v
    if items.length < (s.members.filter (·.required)).length then
      throw (.length items.length (s.lengthText title))
    if s.members.length < items.length then
      throw (.length items.length "fewer elements in array")
    return (s.members.map (·.name)).zip items
  | v => v.wrongType s!"struct {title}"

/-- Reads a record that messages call `title`. -/
def read (s : Shape α) (title : String) (v : Json) : Except Mismatch α := do
  s.build (← s.align title v)

end Shape

end CampusQuery
