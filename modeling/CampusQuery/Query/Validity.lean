import CampusQuery.Query.Basic

namespace CampusQuery

inductive Flaw where
  | emptyConnective (op : Connective)
  | emptyField
  | nonFiniteLiteral (field : String)
  | emptyColumns
  | orderNotInColumns (key : String)
  | emptyOrderKeys
  | emptyGroup
  | duplicateApplyKey (key : String)
  | invalidApplyKey (key : String)
  | invalidApplyToken (name : String)
  | columnNotGrouped (column : String)
deriving DecidableEq, Repr

def Flaw.message : Flaw → String
  | emptyConnective op => s!"{op.name} must have at least one filter"
  | emptyField => "Comparison field must not be empty"
  | nonFiniteLiteral field => s!"The value for {field} must be a finite number"
  | emptyColumns => "COLUMNS must be a non-empty array"
  | orderNotInColumns key => s!"ORDER key '{key}' must be one of the COLUMNS"
  | emptyOrderKeys => "ORDER keys must be a non-empty array"
  | emptyGroup => "GROUP must be a non-empty array"
  | duplicateApplyKey key => s!"Each APPLY key must be unique. Duplicate found: {key}"
  | invalidApplyKey key =>
    s!"APPLY key '{key}' must be non-empty and must not contain an underscore"
  | invalidApplyToken name => s!"Invalid APPLY token: {name}"
  | columnNotGrouped column =>
    s!"Column '{column}' must be a GROUP key or an APPLY key when TRANSFORMATIONS is present"

namespace Filter

mutual

def check : Filter → Except Flaw Unit
  | all => .ok ()
  | connect op [] => .error (.emptyConnective op)
  | connect _ operands => checkAll operands
  | compare _ field literal =>
    if field = "" then .error .emptyField
    else if literal.isFinite then .ok () else .error (.nonFiniteLiteral field)
  | like field _ => if field = "" then .error .emptyField else .ok ()
  | not operand => check operand

def checkAll : List Filter → Except Flaw Unit
  | [] => .ok ()
  | f :: fs => do check f; checkAll fs

end

end Filter

def Order.check (o : Order) (columns : List String) : Except Flaw Unit := do
  if o.names.isEmpty then throw .emptyOrderKeys
  match o.names.find? (!columns.contains ·) with
  | some key => throw (.orderNotInColumns key)
  | none => return ()

namespace Transform

def isApplyKey (key : String) : Bool := key ≠ "" && !key.toList.contains '_'

/-- Checks rules behind others that use the keys `used`. -/
def checkRules (used : List String) : List Rule → Except Flaw Unit
  | [] => .ok ()
  | r :: rs => do
    if used.contains r.key then throw (.duplicateApplyKey r.key)
    if !isApplyKey r.key then throw (.invalidApplyKey r.key)
    if r.token.isUnknown then throw (.invalidApplyToken r.token.name)
    checkRules (r.key :: used) rs

def check (t : Transform) (columns : List String) : Except Flaw Unit := do
  if t.group.isEmpty then throw .emptyGroup
  checkRules [] t.apply
  match columns.find? fun c => !t.group.contains c && !t.keys.contains c with
  | some column => throw (.columnNotGrouped column)
  | none => return ()

end Transform

/-- The first rule broken in document order counts. -/
def Query.check (q : Query) : Except Flaw Unit := do
  q.filter.check
  if q.columns.isEmpty then throw .emptyColumns
  q.order.forM (·.check q.columns)
  q.transform.forM (·.check q.columns)

end CampusQuery
