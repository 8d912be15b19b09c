import CampusQuery.Json.Reader
import CampusQuery.Query.Document
import CampusQuery.Service.MediaType
import CampusQuery.Service.Message

namespace CampusQuery

inductive PayloadError where
  | contentType
  | tooLong
  | malformed
  | wrongType
deriving DecidableEq, Repr

/-- Which kind of error it is. What exactly is wrong in a text, and where, is not said. -/
def PayloadError.message : PayloadError → String
  | contentType => "Expected request with `Content-Type: application/json`"
  | tooLong => "Failed to buffer the request body: length limit exceeded"
  | malformed => "Failed to parse the request body as JSON"
  | wrongType => "Failed to deserialize the JSON body into the target type"

namespace Payload

def text (limit : Nat) (r : Request) : Except PayloadError String :=
  if !((r.contentType.bind MediaType.read?).elim false MediaType.isJson) then .error .contentType
  else if limit < r.body.utf8ByteSize then .error .tooLong
  else .ok r.body

def json (limit : Nat) (r : Request) : Except PayloadError Json := do
  match Json.read? Json.maxDepth (← text limit r).toList with
  | some v => return v
  | none => throw .malformed

/-- Why a text is no array: another value that starts well is of the wrong type, whatever comes
next. -/
def notAnArray (cs : List Char) : PayloadError :=
  match Json.Token.head? (cs.dropWhile Json.Token.isSpace) with
  | some (.openObject, _) | some (.null, _) | some (.bool _, _) | some (.text _, _) => .wrongType
  | some (.number n, _) => if (Json.ofNumeral? n).isSome then .wrongType else .malformed
  | _ => .malformed

def rows (limit : Nat) (r : Request) : Except PayloadError (List Json) := do
  let cs := (← text limit r).toList
  match Json.read? Json.maxDepth cs with
  | some (.array rows) => return rows
  | _ => throw (notAnArray cs)

end Payload

end CampusQuery
