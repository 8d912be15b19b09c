import CampusQuery.Dataset.Kind
import CampusQuery.Dataset.Row
import CampusQuery.Timestamp

namespace CampusQuery

inductive Contents where
  | sections (all : List Section)
  | rooms (all : List Room)
deriving DecidableEq, Repr

structure Dataset where
  id : String
  contents : Contents
  loadedAt : Timestamp
deriving DecidableEq, Repr

structure InvalidRow where
  index : Nat
  cause : RowError
deriving DecidableEq, Repr

def InvalidRow.message (r : InvalidRow) : String :=
  s!"Record {r.index} is invalid: {r.cause.message}"

/-- Converts rows from place `index` on; the first that fails stops. -/
def convertRows {α : Type} (convert : Json → Except RowError α) (index : Nat) :
    List Json → Except InvalidRow (List α)
  | [] => .ok []
  | row :: rows => do
    let a ← (convert row).mapError (⟨index, ·⟩)
    return a :: (← convertRows convert (index + 1) rows)

namespace Contents

def kind : Contents → Kind
  | sections _ => .sections
  | rooms _ => .rooms

def records : Contents → List Record
  | sections all => all.map Section.record
  | rooms all => all.map Room.record

def ofRows (rows : List Json) : Kind → Except InvalidRow Contents
  | .sections => (convertRows Section.ofRow 0 rows).map .sections
  | .rooms => (convertRows Room.ofRow 0 rows).map .rooms

end Contents

structure DatasetInfo where
  id : String
  kind : Kind
  numRows : Nat
  loadedAt : Timestamp
deriving DecidableEq, Repr

namespace Dataset

def kind (d : Dataset) : Kind := d.contents.kind

def records (d : Dataset) : List Record := d.contents.records

def size (d : Dataset) : Nat := d.records.length

def ofRows (id : String) (kind : Kind) (rows : List Json) (loadedAt : Timestamp) :
    Except InvalidRow Dataset :=
  (Contents.ofRows rows kind).map fun contents => ⟨id, contents, loadedAt⟩

def info (d : Dataset) : DatasetInfo := ⟨d.id, d.kind, d.size, d.loadedAt⟩

end Dataset

namespace DatasetInfo

def time (v : Json) : Except Mismatch Timestamp :=
  match v with
  | .string s => (Timestamp.read s).mapError fun e => .rejected e.message
  | v => v.wrongType "an RFC 3339 formatted date and time string"

def shape : Shape DatasetInfo :=
  mk <$> .required "id" Json.text
    <*> .required "kind" Kind.ofJson
    <*> .required "numRows" Json.count
    <*> .required "loadedAt" time

def ofJson : Json → Except Mismatch DatasetInfo := shape.read "DatasetInfo"

def toJson (i : DatasetInfo) : Json :=
  .object
    [("id", .string i.id), ("kind", i.kind.toJson), ("numRows", .int i.numRows),
     ("loadedAt", .string i.loadedAt.render)]

end DatasetInfo

end CampusQuery
