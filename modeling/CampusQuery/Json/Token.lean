import CampusQuery.Json.Literal
import CampusQuery.Number.Numeral

namespace CampusQuery.Json

inductive Token where
  | openArray
  | closeArray
  | openObject
  | closeObject
  | colon
  | comma
  | null
  | bool (b : Bool)
  | number (n : Numeral)
  | text (s : String)
deriving DecidableEq, Repr

namespace Token

def isSpace (c : Char) : Bool := c = ' ' || c = '\t' || c = '\n' || c = '\r'

def head? (cs : List Char) : Option (Token × List Char) :=
  match cs with
  | '[' :: rest => some (openArray, rest)
  | ']' :: rest => some (closeArray, rest)
  | '\x7b' :: rest => some (openObject, rest)
  | '\x7d' :: rest => some (closeObject, rest)
  | ':' :: rest => some (colon, rest)
  | ',' :: rest => some (comma, rest)
  | 'n' :: 'u' :: 'l' :: 'l' :: rest => some (null, rest)
  | 't' :: 'r' :: 'u' :: 'e' :: rest => some (bool true, rest)
  | 'f' :: 'a' :: 'l' :: 's' :: 'e' :: rest => some (bool false, rest)
  | '"' :: rest => (Literal.read? [] rest).map fun (s, rest) => (text s, rest)
  | cs => (Numeral.read? cs).map fun (n, rest) => (number n, rest)

theorem length_of_head? {cs rest : List Char} {t : Token} (h : head? cs = some (t, rest)) :
    rest.length < cs.length := by
  unfold head? at h
  split at h
  all_goals simp only [Option.map_eq_some_iff, Option.some.injEq, Prod.mk.injEq, Prod.exists] at h
  case h_10 =>
    obtain ⟨_, _, hr, _, rfl⟩ := h
    have := Literal.length_of_read? hr
    simp only [List.length_cons]; omega
  case h_11 =>
    obtain ⟨_, _, hr, _, rfl⟩ := h
    exact Numeral.length_of_read? hr
  all_goals
    obtain ⟨_, rfl⟩ := h
    simp only [List.length_cons]; omega

theorem length_dropWhile_le (p : Char → Bool) (cs : List Char) :
    (cs.dropWhile p).length ≤ cs.length := (List.dropWhile_sublist p).length_le

/-- The tokens of a text; `read` holds those so far, newest first. -/
def scan (read : List Token) (cs : List Char) : Option (List Token) :=
  match _h : cs.dropWhile isSpace with
  | [] => some read.reverse
  | c :: tail =>
    match _ht : head? (c :: tail) with
    | some (t, rest) => scan (t :: read) rest
    | none => none
termination_by cs.length
decreasing_by
  have := length_of_head? _ht
  have := length_dropWhile_le isSpace cs
  rw [_h] at this
  omega

end Token

end CampusQuery.Json
