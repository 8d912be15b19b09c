namespace CampusQuery

/-- A type and a subtype, which may carry a suffix behind its last plus. -/
structure MediaType where
  type : List Char
  subtype : List Char
  suffix : Option (List Char)
deriving DecidableEq, Repr

namespace MediaType

def isTokenChar (c : Char) : Bool := c.isAlphanum || c ∈ "!#$%&'*+-.^_`|~".toList

def isToken (cs : List Char) : Bool := !cs.isEmpty && cs.all isTokenChar

def isVisible (c : Char) : Bool := ' ' ≤ c && c ≤ '~'

inductive ParameterState where
  | gap
  | name
  | valueStart
  | value
  | quotedStart
  | quoted
  | quoteEnd
deriving DecidableEq, Repr

namespace ParameterState

/-- Spaces may stand before a name and behind a quoted value. A quoted value has at least one
character, so a quote that comes first is part of it. -/
def step : ParameterState → Char → Option ParameterState
  | gap, c => if c = ' ' then some gap else if isTokenChar c then some name else none
  | name, c => if c = '=' then some valueStart else if isTokenChar c then some name else none
  | valueStart, c =>
    if c = '"' then some quotedStart else if isTokenChar c then some value else none
  | value, c => if c = ';' then some gap else if isTokenChar c then some value else none
  | quotedStart, c => if isVisible c then some quoted else none
  | quoted, c => if c = '"' then some quoteEnd else if isVisible c then some quoted else none
  | quoteEnd, c => if c = ' ' then some quoteEnd else if c = ';' then some gap else none

/-- Only the last parameter may be missing or lack a value. -/
def mayEnd : ParameterState → Bool
  | gap | valueStart | value | quoteEnd => true
  | name | quotedStart | quoted => false

end ParameterState

def areParameters (cs : List Char) : Bool :=
  (cs.foldlM ParameterState.step .gap).elim false ParameterState.mayEnd

/-- Splits a subtype at its last plus; one at the start belongs to the name. -/
def splitSuffix (cs : List Char) : List Char × Option (List Char) :=
  match cs.drop 1 |>.splitOn '+' |>.reverse with
  | [] | [_] => (cs, none)
  | suffix :: _ => (cs.take (cs.length - suffix.length - 1), some suffix)

def read? (s : String) : Option MediaType :=
  let essence := s.toList.takeWhile (· ≠ ';')
  let parameters := (s.toList.dropWhile (· ≠ ';')).drop 1
  let type := essence.takeWhile (· ≠ '/')
  let subtype := (essence.dropWhile (· ≠ '/')).drop 1
  if isToken type && isToken subtype && areParameters parameters then
    let (name, suffix) := splitSuffix subtype
    some ⟨type, name, suffix⟩
  else none

def named (cs : List Char) (name : String) : Bool := cs.map Char.toLower == name.toList

/-- `application/json`, or an application's type with the suffix `json`. -/
def isJson (m : MediaType) : Bool :=
  named m.type "application" &&
    (named m.subtype "json" || m.suffix.elim false (named · "json"))

end MediaType

end CampusQuery
