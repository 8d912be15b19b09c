import CampusQuery.Query.Failure

namespace CampusQuery

namespace Record

def cell (r : Record) (field : String) : Except Failure Cell :=
  match r (FieldName.attributeName field) with
  | some c => .ok c
  | none => .error (.missingAttribute field)

def number (r : Record) (field : String) : Except Failure Binary64 := do
  match ← r.cell field with
  | .number x => return x
  | .text _ => throw (.typeMismatch field .text .number)

def text (r : Record) (field : String) : Except Failure String := do
  match ← r.cell field with
  | .text s => return s
  | .number _ => throw (.typeMismatch field .number .text)

end Record

/-- The outcome of an operand that decides for the whole: false for `and`, true for `or`. -/
def Connective.decisive : Connective → Bool
  | and => false
  | or => true

namespace Filter

mutual

def eval (r : Record) : Filter → Except Failure Bool
  | all => .ok true
  | connect op operands => evalOperands r op operands
  | compare op field literal => return op.holds (← r.number field) literal
  | like field pattern => return pattern.accepts (← r.text field)
  | not operand => return !(← eval r operand)

/-- Operands behind a decisive one are not looked at. -/
def evalOperands (r : Record) (op : Connective) : List Filter → Except Failure Bool
  | [] => .ok !op.decisive
  | f :: fs => do
    if (← eval r f) = op.decisive then return op.decisive
    evalOperands r op fs

end

/-- The records that meet the condition, in order; the first error counts. -/
def select (f : Filter) : List Record → Except Failure (List Record)
  | [] => .ok []
  | r :: rs => do
    if ← f.eval r then return r :: (← select f rs)
    select f rs

end Filter

end CampusQuery
