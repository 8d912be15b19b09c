import CampusQuery.Json.Writer

namespace CampusQuery

structure Request where
  method : String
  path : String
  contentType : Option String
  /-- The body's length as announced, if it is. -/
  contentLength : Option Nat
  body : String
deriving DecidableEq, Repr

inductive Body where
  | empty
  | text (s : String)
  | json (v : Json)

structure Response where
  status : Nat
  body : Body
  /-- Only the headers are sent. -/
  headOnly : Bool := false

namespace Response

def isJson (r : Response) : Bool :=
  match r.body with
  | .json _ => true
  | _ => false

def text (r : Response) : String :=
  if r.headOnly then ""
  else match r.body with
    | .empty => ""
    | .text s => s
    | .json v => v.toText

def json (status : Nat) (members : List (String × Json)) : Response :=
  { status, body := .json (.object members) }

def ok (result : Json) : Response := json 200 [("result", result)]

def reject (status : Nat) (code message : String) : Response :=
  json status [("error", .string code), ("message", .string message)]

def plain (status : Nat) (s : String) : Response := { status, body := .text s }

def bare (status : Nat) : Response := { status, body := .empty }

end Response

end CampusQuery
