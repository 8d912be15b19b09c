import CampusQuery.Text

namespace CampusQuery

/-- An asterisk at the start lets any text go before, one at the end lets any text follow;
everywhere else an asterisk stands for itself. -/
structure Pattern where
  raw : String
deriving DecidableEq, Repr

/-- What a pattern asks for: a text, and which ends are open. -/
structure Anchored where
  openStart : Bool
  needle : List Char
  openEnd : Bool
deriving DecidableEq, Repr

namespace Anchored

def occurs (needle : List Char) : List Char → Bool
  | [] => needle.isEmpty
  | c :: cs => needle.isPrefixOf (c :: cs) || occurs needle cs

def accepts (a : Anchored) (cs : List Char) : Bool :=
  match a.openStart, a.openEnd with
  | true, true => occurs a.needle cs
  | true, false => a.needle.isSuffixOf cs
  | false, true => a.needle.isPrefixOf cs
  | false, false => a.needle == cs

def ofRest (openStart : Bool) (rest : List Char) : Anchored :=
  if rest.getLast? = some '*' then ⟨openStart, rest.dropLast, true⟩ else ⟨openStart, rest, false⟩

def ofChars : List Char → Anchored
  | '*' :: rest => ofRest true rest
  | cs => ofRest false cs

end Anchored

namespace Pattern

def accepts (p : Pattern) (s : String) : Bool := (Anchored.ofChars p.raw.toList).accepts s.toList

def text (p : Pattern) : String := Quoted.render p.raw

end Pattern

end CampusQuery
