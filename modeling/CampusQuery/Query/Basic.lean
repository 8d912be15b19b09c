import CampusQuery.Query.Filter

namespace CampusQuery

inductive Direction where
  | up
  | down
deriving DecidableEq, Repr

def Direction.name : Direction → String
  | up => "UP"
  | down => "DOWN"

inductive Order where
  | column (name : String)
  | keys (direction : Direction) (names : List String)
deriving DecidableEq, Repr

namespace Order

/-- A single column is read as `UP`. -/
def direction : Order → Direction
  | column _ => .up
  | keys d _ => d

def names : Order → List String
  | column name => [name]
  | keys _ names => names

def text (o : Order) : String := ", ".intercalate o.names ++ " " ++ o.direction.name

end Order

inductive Token where
  | max
  | min
  | avg
  | sum
  | count
  | unknown (name : String)
deriving DecidableEq, Repr

namespace Token

def ofName : String → Token
  | "MAX" => max
  | "MIN" => min
  | "AVG" => avg
  | "SUM" => sum
  | "COUNT" => count
  | name => unknown name

def name : Token → String
  | max => "MAX"
  | min => "MIN"
  | avg => "AVG"
  | sum => "SUM"
  | count => "COUNT"
  | unknown name => name

theorem name_ofName (s : String) : (ofName s).name = s := by
  unfold ofName; split <;> rfl

def isUnknown : Token → Bool
  | unknown _ => true
  | _ => false

end Token

structure Rule where
  key : String
  token : Token
  field : String
deriving DecidableEq, Repr

def Rule.text (r : Rule) : String := s!"{r.key} = {r.token.name}({r.field})"

structure Transform where
  group : List String
  apply : List Rule
deriving DecidableEq, Repr

namespace Transform

def keys (t : Transform) : List String := t.apply.map Rule.key

def fields (t : Transform) : List String := t.group ++ t.apply.map Rule.field

def text (t : Transform) : String :=
  " GROUP BY " ++ ", ".intercalate t.group ++ String.join (t.apply.map fun r => s!" APPLY {r.text}")

end Transform

structure Query where
  filter : Filter
  columns : List String
  order : Option Order
  transform : Option Transform
deriving Repr

namespace Query

def text (q : Query) : String :=
  "SELECT " ++ ", ".intercalate q.columns ++ " WHERE " ++ q.filter.text ++
    q.transform.elim "" Transform.text ++ q.order.elim "" fun o => s!" ORDER BY {o.text}"

/-- Equality with literals compared as numbers. -/
def same (p q : Query) : Bool :=
  p.filter.same q.filter && p.columns == q.columns && p.order == q.order &&
    p.transform == q.transform

end Query

namespace FieldName

/-- Splits at the first underscore. -/
def split? (name : String) : Option (String × String) :=
  match name.toList.dropWhile (· ≠ '_') with
  | [] => none
  | _ :: rest => some (String.ofList (name.toList.takeWhile (· ≠ '_')), String.ofList rest)

def dataset? (name : String) : Option String := (split? name).map (·.1)

/-- What stands behind the dataset id, the whole name if there is none. -/
def attributeName (name : String) : String := (split? name).elim name (·.2)

def qualify (id attributeName : String) : String := id ++ "_" ++ attributeName

end FieldName

end CampusQuery
