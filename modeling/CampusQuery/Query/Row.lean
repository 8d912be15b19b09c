import CampusQuery.Dataset.Cell
import CampusQuery.Query.Basic

namespace CampusQuery

/-- Cells under column names, in the order of the columns. -/
structure Row where
  cells : List (String × Cell)
deriving DecidableEq, Repr

namespace Row

def empty : Row := ⟨[]⟩

def push (r : Row) (column : String) (c : Cell) : Row := ⟨r.cells ++ [(column, c)]⟩

/-- Of cells under one name the first counts. -/
def get? (r : Row) (column : String) : Option Cell := r.cells.lookup column

def columns (r : Row) : List String := r.cells.map (·.1)

def toJson (r : Row) : Json := .object (r.cells.map fun (column, c) => (column, c.toJson))

end Row

/-- A missing cell comes before any other. -/
def compareCells : Option Cell → Option Cell → Ordering
  | some x, some y => x.compare y
  | none, some _ => .lt
  | some _, none => .gt
  | none, none => .eq

def Direction.apply : Direction → Ordering → Ordering
  | up, o => o
  | down, o => o.swap

def compareRows (d : Direction) : List String → Row → Row → Ordering
  | [], _, _ => .eq
  | key :: keys, a, b =>
    (d.apply (compareCells (a.get? key) (b.get? key))).then (compareRows d keys a b)

namespace Order

def compare (o : Order) (a b : Row) : Ordering := compareRows o.direction o.names a b

/-- Rows that compare equal keep their order. -/
def sort (o : Order) (rows : List Row) : List Row :=
  rows.mergeSort fun a b => (o.compare a b).isLE

end Order

end CampusQuery
