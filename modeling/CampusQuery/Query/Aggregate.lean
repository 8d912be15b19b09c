import CampusQuery.Number.FixedPoint
import CampusQuery.Query.Evaluate
import CampusQuery.Query.Row

namespace CampusQuery.Aggregate

/-- The places that sums and averages keep. -/
def places : Nat := 2

/-- The exact sum, if every term and every partial sum fits. -/
def exactSum? (xs : List Binary64) : Option FixedPoint :=
  xs.foldlM (fun total x => do total.add? (← FixedPoint.ofBinary64? x)) .zero

def roundedSum? (xs : List Binary64) : Option FixedPoint :=
  (exactSum? xs).map (FixedPoint.roundPlaces places)

def roundedMean? (xs : List Binary64) : Option FixedPoint :=
  (exactSum? xs).map fun total => (total.divNat xs.length).roundPlaces places

def doubleSum (xs : List Binary64) : Binary64 := xs.foldl Binary64.add Binary64.zero.neg

/-- From here on doubles have no hundredths. -/
def wholeFrom : Binary64 := Binary64.ofNat (Nat.pow 10 15)

def roundHundredths (x : Binary64) : Binary64 :=
  let hundred := Binary64.ofNat 100
  if x.abs.lt wholeFrom then (x.mul hundred).round.div hundred else x

def sum (xs : List Binary64) : Binary64 :=
  match roundedSum? xs with
  | some total => total.toBinary64
  | none => roundHundredths (doubleSum xs)

def mean (xs : List Binary64) : Binary64 :=
  match roundedMean? xs with
  | some m => m.toBinary64
  | none => roundHundredths ((doubleSum xs).div (Binary64.ofNat xs.length))

/-- Cells that count as one value: the two zeros do. -/
def distinctKey : Cell → Cell
  | .text s => .text s
  | .number x => .number (x.add .zero)

def countDistinct (cells : List Cell) : Nat := (cells.map distinctKey).eraseDups.length

end Aggregate

namespace Rule

def numbers (field : String) (group : List Record) : Except Failure (List Binary64) :=
  group.mapM (·.number field)

def reduce (r : Rule) (combine : Binary64 → List Binary64 → Binary64) (group : List Record) :
    Except Failure Cell := do
  match ← numbers r.field group with
  | [] => throw (.emptyGroup r.text)
  | x :: xs => return .number (combine x xs)

def eval (r : Rule) (group : List Record) : Except Failure Cell :=
  match r.token with
  | .count => do
    let cells ← group.mapM (·.cell r.field)
    return .number (Binary64.ofNat (Aggregate.countDistinct cells))
  | .max => r.reduce (fun x xs => xs.foldl Binary64.max x) group
  | .min => r.reduce (fun x xs => xs.foldl Binary64.min x) group
  | .avg => r.reduce (fun x xs => Aggregate.mean (x :: xs)) group
  | .sum => return .number (Aggregate.sum (← numbers r.field group))
  | .unknown name => .error (.unsupportedToken name)

end Rule

/-- Values under equal keys brought together, in the order of each key's first occurrence. -/
def groupByKey {κ α : Type} [BEq κ] : List (κ × α) → List (κ × List α)
  | [] => []
  | (k, a) :: rest =>
    (k, a :: (rest.filter (·.1 == k)).map (·.2)) :: groupByKey (rest.filter (·.1 != k))
termination_by pairs => pairs.length
decreasing_by
  simp only [List.unattach_filter, List.unattach_attach, List.length_cons]
  exact Nat.lt_succ_of_le (List.length_filter_le _ _)

namespace Transform

def keyOf (t : Transform) (r : Record) : Except Failure (List String) :=
  t.group.mapM fun field => return (← r.cell field).keyText

def groups (t : Transform) (records : List Record) :
    Except Failure (List (List String × List Record)) := do
  let keyed ← records.mapM fun r => return (← t.keyOf r, r)
  return groupByKey keyed

def rowOf (t : Transform) (key : List String) (group : List Record) : Except Failure Row := do
  let values ← t.apply.mapM fun rule => return (rule.key, ← rule.eval group)
  return ⟨t.group.zip (key.map .text) ++ values⟩

def rows (t : Transform) (records : List Record) : Except Failure (List Row) := do
  (← t.groups records).mapM fun (key, group) => t.rowOf key group

end Transform

end CampusQuery
