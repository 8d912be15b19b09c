import CampusQuery.Dataset.Basic

namespace CampusQuery

inductive StoreError where
  | unavailable
  | invalidId (id : String)
  | alreadyExists (id : String)
  | notFound (id : String)
  | emptyDataset (id : String)
deriving DecidableEq, Repr

def StoreError.message : StoreError → String
  | unavailable => "Failed to acquire lock on dataset store"
  | invalidId id => s!"Invalid dataset id: '{id}'"
  | alreadyExists id => s!"Dataset '{id}' already exists"
  | notFound id => s!"Dataset '{id}' not found"
  | emptyDataset id => s!"Dataset '{id}' contains no valid records"

/-- Ids stand before an underscore in field names: they are not blank and hold no underscore. -/
def isDatasetId (id : String) : Bool := id.toList.any (!isBlank ·) && !id.toList.contains '_'

def checkDatasetId (id : String) : Except StoreError Unit :=
  if isDatasetId id then .ok () else .error (.invalidId id)

/-- What an addition needs, whatever is loaded. -/
def checkAddition (d : Dataset) : Except StoreError Unit := do
  checkDatasetId d.id
  if d.records.isEmpty then throw (.emptyDataset d.id)

structure Registry where
  datasets : Keyed Dataset
deriving DecidableEq, Repr

namespace Registry

def empty : Registry := ⟨[]⟩

def get? (r : Registry) (id : String) : Option Dataset := r.datasets.get? id

def ids (r : Registry) : List String := r.datasets.keys

def list (r : Registry) : List DatasetInfo := r.datasets.map (·.2.info)

def size (r : Registry) : Nat := r.datasets.length

def get (r : Registry) (id : String) : Except StoreError Dataset :=
  match r.get? id with
  | some d => .ok d
  | none => .error (.notFound id)

def add (r : Registry) (d : Dataset) : Except StoreError Registry := do
  if r.datasets.contains d.id then throw (.alreadyExists d.id)
  return ⟨r.datasets.insert d.id d⟩

def remove (r : Registry) (id : String) : Except StoreError Registry := do
  if r.datasets.contains id then return ⟨r.datasets.erase id⟩
  throw (.notFound id)

end Registry

/-- A registry that may be out of reach. -/
inductive Store where
  | ready (registry : Registry)
  /-- The lock of the registry cannot be had any more. -/
  | locked
  /-- None of the operations works. -/
  | unavailable
deriving DecidableEq, Repr

namespace Store

def empty : Store := ready .empty

def reach : Store → Except StoreError Registry
  | ready r => .ok r
  | locked | unavailable => .error .unavailable

def checkWorks : Store → Except StoreError Unit
  | ready _ | locked => .ok ()
  | unavailable => .error .unavailable

def get (s : Store) (id : String) : Except StoreError Dataset := do (← s.reach).get id

def list (s : Store) : Except StoreError (List DatasetInfo) := return (← s.reach).list

/-- The store with the dataset, and the ids then loaded. The dataset is checked before the lock is
asked for. -/
def add (s : Store) (d : Dataset) : Except StoreError (Store × List String) := do
  s.checkWorks
  checkAddition d
  let r ← (← s.reach).add d
  return (ready r, r.ids)

def remove (s : Store) (id : String) : Except StoreError Store := do
  s.checkWorks
  checkDatasetId id
  return ready (← (← s.reach).remove id)

end Store

end CampusQuery
