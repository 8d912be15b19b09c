import CampusQuery.Json.Value

namespace CampusQuery

inductive CellType where
  | text
  | number
deriving DecidableEq, Repr

def CellType.name : CellType → String
  | text => "string"
  | number => "number"

inductive Cell where
  | text (s : String)
  | number (x : Binary64)
deriving DecidableEq, Repr

namespace Cell

def type : Cell → CellType
  | text _ => .text
  | number _ => .number

def text? : Cell → Option String
  | text s => some s
  | number _ => none

def number? : Cell → Option Binary64
  | text _ => none
  | number x => some x

/-- Plain digits for whole numbers that are exact, display text for the others. -/
def numberText (x : Binary64) : String :=
  match x.exactInteger? with
  | some n => String.ofList (Layout.intText n)
  | none => Layout.display.render x

/-- The text under which records are grouped. -/
def keyText : Cell → String
  | text s => s
  | number x => numberText x

def toJson : Cell → Json
  | text s => .string s
  | number x =>
    match x.exactInteger? with
    | some n => .int n
    | none => .double x

/-- Numbers by the total order of doubles, then texts by code point. -/
def compare : Cell → Cell → Ordering
  | number x, number y => x.totalCompare y
  | text s, text t => Ord.compare s t
  | number _, text _ => .lt
  | text _, number _ => .gt

end Cell

end CampusQuery
