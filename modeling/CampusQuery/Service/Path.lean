import CampusQuery.Number.Numeral

namespace CampusQuery.Path

/-- Bytes written as a percent sign and two hexadecimal digits; all else stands for itself. -/
def decodedBytes : List Char → ByteArray → ByteArray
  | '%' :: a :: b :: rest, bytes =>
    match hexValue? [a, b] with
    | some n => decodedBytes rest (bytes.push (UInt8.ofNat n))
    | none => decodedBytes (a :: b :: rest) (bytes.push 37)
  | c :: rest, bytes => decodedBytes rest (bytes ++ (String.singleton c).toUTF8)
  | [], bytes => bytes

def decode? (segment : String) : Option String :=
  String.fromUTF8? (decodedBytes segment.toList .empty)

/-- Letters, digits and some marks, in any place of a scheme; a tilde is let pass. -/
def isSchemeChar (c : Char) : Bool := c.isAlphanum || c ∈ ['+', '-', '.', '~']

def withoutOrigin (target : List Char) : List Char :=
  match target.dropWhile isSchemeChar with
  | ':' :: '/' :: '/' :: rest => rest.dropWhile (· ∉ ['/', '?', '#'])
  | _ => target

def bare (path : List Char) : List Char := path.takeWhile (· ∉ ['?', '#'])

def segments (target : String) : List String :=
  (List.splitOn '/' (bare (withoutOrigin target.toList))).map String.ofList

end CampusQuery.Path

namespace CampusQuery

/-- Where a request goes, with segments as written. -/
inductive Route where
  | health
  | datasets
  | upload (id kind : String)
  | dataset (id : String)
  | query
deriving DecidableEq, Repr

namespace Route

/-- Only the id in front of a kind may be empty. -/
def ofPath? (path : String) : Option Route :=
  match Path.segments path with
  | ["", "health"] => some health
  | ["", "api", "v1", "datasets"] => some datasets
  | ["", "api", "v1", "query"] => some query
  | ["", "api", "v1", "dataset", id] => if id = "" then none else some (dataset id)
  | ["", "api", "v1", "dataset", id, kind] => if kind = "" then none else some (upload id kind)
  | _ => none

def method : Route → String
  | health | datasets => "GET"
  | upload .. => "PUT"
  | dataset _ => "DELETE"
  | query => "POST"

end Route

end CampusQuery
