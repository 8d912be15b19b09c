import CampusQuery.Json.Literal
import CampusQuery.Json.Value

namespace CampusQuery.Json

/-- Numbers that JSON has no text for are written `null`. -/
def doubleText (x : Binary64) : List Char :=
  if x.isFinite then (Layout.json.render x).toList else ['n', 'u', 'l', 'l']

def keyText (k : String) : List Char := Literal.render k ++ [':']

mutual

def compact : Json → List Char
  | .null => ['n', 'u', 'l', 'l']
  | .bool b => if b then ['t', 'r', 'u', 'e'] else ['f', 'a', 'l', 's', 'e']
  | .int n => Layout.intText n
  | .double x => doubleText x
  | .string s => Literal.render s
  | .array items => '[' :: [','].intercalate (compactItems items) ++ [']']
  | .object members => '\x7b' :: [','].intercalate (compactMembers members) ++ ['\x7d']

def compactItems : List Json → List (List Char)
  | [] => []
  | v :: vs => compact v :: compactItems vs

def compactMembers : List (String × Json) → List (List Char)
  | [] => []
  | (k, v) :: ms => (keyText k ++ compact v) :: compactMembers ms

end

def newLine (depth : Nat) : List Char := '\n' :: List.replicate (2 * depth) ' '

/-- Parts between brackets, each on a line of its own. -/
def block (depth : Nat) (left right : Char) (parts : List (List Char)) : List Char :=
  if parts.isEmpty then [left, right]
  else
    left :: newLine (depth + 1) ++ (',' :: newLine (depth + 1)).intercalate parts ++
      newLine depth ++ [right]

mutual

def indented (depth : Nat) : Json → List Char
  | .array items => block depth '[' ']' (indentedItems (depth + 1) items)
  | .object members => block depth '\x7b' '\x7d' (indentedMembers (depth + 1) members)
  | v => compact v

def indentedItems (depth : Nat) : List Json → List (List Char)
  | [] => []
  | v :: vs => indented depth v :: indentedItems depth vs

def indentedMembers (depth : Nat) : List (String × Json) → List (List Char)
  | [] => []
  | (k, v) :: ms => (keyText k ++ ' ' :: indented depth v) :: indentedMembers depth ms

end

def toText (v : Json) : String := String.ofList (compact v)

def toIndentedText (v : Json) : String := String.ofList (indented 0 v)

end CampusQuery.Json
