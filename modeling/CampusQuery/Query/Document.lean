import CampusQuery.Json.Reader
import CampusQuery.Json.Writer
import CampusQuery.Query.Basic

namespace CampusQuery

inductive DocumentError where
  | invalidJson (detail : String)
  | notAnObject (clause : String)
  | missingKey (key : String)
  | unknownFilter (key : String)
  | invalidFilter (detail : String)
  | invalidOptions (detail : String)
  | invalidTransformations (detail : String)
deriving DecidableEq, Repr

def DocumentError.message : DocumentError → String
  | invalidJson detail => s!"Invalid JSON: {detail}"
  | notAnObject clause => s!"{clause} must be an object"
  | missingKey key => s!"Missing required key: {key}"
  | unknownFilter key => s!"Invalid filter type: '{key}'"
  | invalidFilter detail => s!"Invalid filter: {detail}"
  | invalidOptions detail => s!"Invalid OPTIONS: {detail}"
  | invalidTransformations detail => s!"Invalid TRANSFORMATIONS: {detail}"

namespace Document

inductive FilterKey where
  | connect (op : Connective)
  | compare (op : Comparison)
  | like
  | not
deriving DecidableEq, Repr

def FilterKey.ofName? : String → Option FilterKey
  | "AND" => some (connect .and)
  | "OR" => some (connect .or)
  | "LT" => some (compare .less)
  | "GT" => some (compare .greater)
  | "EQ" => some (compare .equal)
  | "IS" => some like
  | "NOT" => some not
  | _ => none

def fieldAndValue (name : String) : Json → Except DocumentError (String × Json)
  | .object [(field, value)] => .ok (field, value)
  | _ => .error (.invalidFilter s!"{name} must have exactly one field/value pair")

def comparison (op : Comparison) (body : Json) : Except DocumentError Filter := do
  let (field, value) ← fieldAndValue op.name body
  match value.number? with
  | some x => return .compare op field x
  | none => throw (.invalidFilter s!"value for {field} in {op.name} must be a number")

def likeness (body : Json) : Except DocumentError Filter := do
  let (field, value) ← fieldAndValue "IS" body
  match value.text? with
  | some s => return .like field ⟨s⟩
  | none => throw (.invalidFilter s!"value for {field} in IS must be a string")

/-- An empty filter is only allowed as the whole condition. -/
def nested (context : String) (f : Filter) : Except DocumentError Filter :=
  if f.isAll then .error (.invalidFilter s!"{context} cannot contain an empty filter") else .ok f

mutual

def filter : Json → Except DocumentError Filter
  | .object [] => .ok .all
  | .object [(key, body)] =>
    match FilterKey.ofName? key, body with
    | some (.connect op), .array (item :: items) => do
      return .connect op (← operands op.name (item :: items))
    | some (.connect op), _ => .error (.invalidFilter s!"{op.name} must be a non-empty array")
    | some (.compare op), body => comparison op body
    | some .like, body => likeness body
    | some .not, .object members => do
      return .not (← nested "NOT" (← filter (.object members)))
    | some .not, _ => .error (.invalidFilter "NOT value must be a filter object")
    | none, _ => .error (.unknownFilter key)
  | .object members =>
    let keys := ", ".intercalate (members.map (·.1))
    .error (.invalidFilter s!"a filter must have exactly one key, found [{keys}]")
  | v => .error (.invalidFilter s!"expected an object, found {v.toText}")

def operands (context : String) : List Json → Except DocumentError (List Filter)
  | [] => .ok []
  | v :: vs => do
    let f ← nested context (← filter v)
    return f :: (← operands context vs)

end

def names? (v : Option Json) : Option (List String) :=
  (v.bind Json.texts?).filter (!·.isEmpty)

def direction? : Option Json → Option Direction
  | some (.string "UP") => some .up
  | some (.string "DOWN") => some .down
  | _ => none

def order : Json → Except DocumentError Order
  | .string name => .ok (.column name)
  | .object members =>
    match direction? (members.lookup "dir"), names? (members.lookup "keys") with
    | some d, some names => .ok (.keys d names)
    | none, _ => .error (.invalidOptions "ORDER dir must be UP or DOWN")
    | _, none => .error (.invalidOptions "ORDER keys must be a non-empty array of strings")
  | _ => .error (.invalidOptions "ORDER must be a string or an object with dir and keys")

def options : Json → Except DocumentError (List String × Option Order)
  | .object members => do
    let some given := members.lookup "COLUMNS"
      | throw (.invalidOptions "COLUMNS is missing")
    let some columns := names? (some given)
      | throw (.invalidOptions "COLUMNS must be a non-empty array of strings")
    return (columns, ← (members.lookup "ORDER").mapM order)
  | _ => .error (.notAnObject "OPTIONS")

def rule (v : Json) : Except DocumentError Rule :=
  match v with
  | .object [(key, .object [(token, .string field)])] => .ok ⟨key, .ofName token, field⟩
  | _ => .error (.invalidTransformations
      ("APPLY rule must have the shape \x7bapplyKey: \x7bTOKEN: field\x7d\x7d, found " ++ v.toText))

def transform : Json → Except DocumentError Transform
  | .object members => do
    let some group := names? (members.lookup "GROUP")
      | throw (.invalidTransformations "GROUP must be a non-empty array of strings")
    let some (.array rules) := members.lookup "APPLY"
      | throw (.invalidTransformations "APPLY must be an array")
    return ⟨group, ← rules.mapM rule⟩
  | _ => .error (.notAnObject "TRANSFORMATIONS")

def condition : Json → Except DocumentError Filter
  | .object members => filter (.object members)
  | _ => .error (.notAnObject "WHERE")

end Document

/-- Nesting of a document beyond this is malformed. -/
def Json.maxDepth : Nat := 127

namespace Query

def ofJson : Json → Except DocumentError Query
  | .object members => do
    let some given := members.lookup "WHERE" | throw (.missingKey "WHERE")
    let filter ← Document.condition given
    let some given := members.lookup "OPTIONS" | throw (.missingKey "OPTIONS")
    let (columns, order) ← Document.options given
    let transform ← (members.lookup "TRANSFORMATIONS").mapM Document.transform
    return { filter, columns, order, transform }
  | _ => .error (.notAnObject "Query")

/-- Of a malformed text it is not said where it goes wrong, here and in the files of commands. -/
def ofText (s : String) : Except DocumentError Query :=
  match Json.read? Json.maxDepth s.toList with
  | some v => ofJson v
  | none => .error (.invalidJson "malformed text")

end Query

end CampusQuery
