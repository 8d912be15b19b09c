import CampusQuery.Json.Token
import CampusQuery.Json.Value

namespace CampusQuery.Json

/-- An array or object around the value that is due, its parts newest first. -/
inductive Frame where
  | array (items : List Json)
  | object (members : List (String × Json)) (key : String)

/-- What is due: in each state the parts read so far, newest first, and the frames around. -/
inductive Reading where
  | document
  | item (items : List Json) (outer : List Frame)
  | afterItem (items : List Json) (outer : List Frame)
  | key (members : List (String × Json)) (outer : List Frame)
  | colon (members : List (String × Json)) (key : String) (outer : List Frame)
  | value (members : List (String × Json)) (key : String) (outer : List Frame)
  | afterMember (members : List (String × Json)) (outer : List Frame)
  | finished (v : Json)

namespace Reading

def complete (v : Json) : List Frame → Reading
  | [] => finished v
  | .array items :: outer => afterItem (v :: items) outer
  | .object members k :: outer => afterMember ((k, v) :: members) outer

/-- A value starts within the given frames, at most `limit` deep. -/
def start (limit : Nat) (frames : List Frame) : Token → Option Reading
  | .null => some (complete .null frames)
  | .bool b => some (complete (.bool b) frames)
  | .number n => (ofNumeral? n).map (complete · frames)
  | .text s => some (complete (.string s) frames)
  | .openArray => if frames.length < limit then some (item [] frames) else none
  | .openObject => if frames.length < limit then some (key [] frames) else none
  | _ => none

def step (limit : Nat) : Reading → Token → Option Reading
  | document, t => start limit [] t
  | item [] outer, .closeArray => some (complete (.array []) outer)
  | item items outer, t => start limit (.array items :: outer) t
  | afterItem items outer, .comma => some (item items outer)
  | afterItem items outer, .closeArray => some (complete (.array items.reverse) outer)
  | key [] outer, .closeObject => some (complete (.object []) outer)
  | key members outer, .text k => some (colon members k outer)
  | colon members k outer, .colon => some (value members k outer)
  | value members k outer, t => start limit (.object members k :: outer) t
  | afterMember members outer, .comma => some (key members outer)
  | afterMember members outer, .closeObject => some (complete (ofMembers members.reverse) outer)
  | _, _ => none

end Reading

def read? (limit : Nat) (cs : List Char) : Option Json := do
  let tokens ← Token.scan [] cs
  match ← tokens.foldlM (Reading.step limit) .document with
  | .finished v => some v
  | _ => none

end CampusQuery.Json
