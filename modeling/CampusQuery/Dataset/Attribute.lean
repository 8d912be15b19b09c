import CampusQuery.Dataset.Cell

namespace CampusQuery

/-- A record as queries see it: its attribute values by name. -/
abbrev Record := String → Option Cell

inductive Source (α : Type) where
  | text (read : α → String)
  | number (read : α → Binary64)

structure Attribute (α : Type) where
  name : String
  source : Source α

namespace Attribute

variable {α : Type}

def type (a : Attribute α) : CellType :=
  match a.source with
  | .text _ => .text
  | .number _ => .number

def cell (a : Attribute α) (x : α) : Cell :=
  match a.source with
  | .text read => .text (read x)
  | .number read => .number (read x)

theorem type_cell (a : Attribute α) (x : α) : (a.cell x).type = a.type := by
  unfold cell type; split <;> rfl

def record (table : List (Attribute α)) (x : α) : Record := fun name =>
  (table.find? (·.name == name)).map (·.cell x)

end Attribute

end CampusQuery
