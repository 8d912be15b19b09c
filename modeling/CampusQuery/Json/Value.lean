import CampusQuery.Keyed
import CampusQuery.Number.Layout
import CampusQuery.Number.Numeral

namespace CampusQuery

/-- Whole numbers of at most 64 bits are kept apart from doubles, and the members of an object stand
in the order of their keys. -/
inductive Json where
  | null
  | bool (b : Bool)
  | int (n : Int)
  | double (x : Binary64)
  | string (s : String)
  | array (items : List Json)
  | object (members : List (String × Json))

namespace Json

instance : Inhabited Json := ⟨.null⟩

/-- Of members with one key the last counts. -/
def ofMembers (members : List (String × Json)) : Json := .object (Keyed.ofPairs members)

def ofNumeral? (n : Numeral) : Option Json :=
  match n.integer? with
  | some i => some (.int i)
  | none => if n.toBinary64.isFinite then some (.double n.toBinary64) else none

def number? : Json → Option Binary64
  | .int n => some (Binary64.ofInt n)
  | .double x => some x
  | _ => none

def text? : Json → Option String
  | .string s => some s
  | _ => none

def texts? : Json → Option (List String)
  | .array items => items.mapM text?
  | _ => none

end Json

end CampusQuery
