import CampusQuery.Query.Aggregate

namespace CampusQuery

namespace Dataset

def attributeOf (d : Dataset) (name : String) : Except Failure String :=
  match FieldName.split? name with
  | some (id, a) =>
    if id = d.id ∧ d.kind.hasAttribute a then .ok a
    else .error (.unknownColumn name)
  | none => .error (.unknownColumn name)

end Dataset

def Record.project (columns : List (String × String)) (r : Record) : Except Failure Row := do
  let cells ← columns.mapM fun (column, a) =>
    match r a with
    | some c => .ok (column, c)
    | none => .error (.missingAttribute column)
  return ⟨cells⟩

def Row.project (columns : List String) (r : Row) : Except Failure Row := do
  let cells ← columns.mapM fun column =>
    match r.get? column with
    | some c => .ok (column, c)
    | none => .error (.unknownColumn column)
  return ⟨cells⟩

namespace Query

def names (q : Query) : List String :=
  q.filter.fields ++ q.columns ++ q.transform.elim [] Transform.fields

/-- The dataset ids that the names carry, each once and in increasing order. -/
def datasetIds (q : Query) : List String :=
  (q.names.filterMap FieldName.dataset?).eraseDups.mergeSort fun a b => decide (a ≤ b)

def datasetId (q : Query) : Except Failure String :=
  match q.datasetIds with
  | [] => .error .noDataset
  | [id] => .ok id
  | ids => .error (.multipleDatasets ids)

def resolve (q : Query) (store : Store) : Except Failure Dataset := do
  (store.get (← q.datasetId)).mapError fun
    | .notFound id => .datasetNotFound id
    | e => .storage e

def project (q : Query) (d : Dataset) (records : List Record) : Except Failure (List Row) := do
  match q.transform with
  | some t =>
    t.fields.forM fun field => discard (d.attributeOf field)
    (← t.rows records).mapM (Row.project q.columns)
  | none =>
    let columns ← q.columns.mapM fun column => return (column, ← d.attributeOf column)
    records.mapM (Record.project columns)

def answer (q : Query) (d : Dataset) : Except Failure (List Row) := do
  let rows ← q.project d (← q.filter.select d.records)
  return q.order.elim rows (·.sort rows)

/-- Answers of more than `limit` rows are refused. -/
def execute (q : Query) (store : Store) (limit : Nat) : Except Failure (List Row) := do
  let rows ← q.answer (← q.resolve store)
  if limit < rows.length then throw (.tooManyRows rows.length limit)
  return rows

def perform (document : Json) (store : Store) (limit : Nat) : Except QueryError (List Row) := do
  let q ← (ofJson document).mapError .document
  q.check.mapError .flaw
  (q.execute store limit).mapError .failure

end Query

end CampusQuery
