import CampusQuery.Dataset.Attribute
import CampusQuery.Json.Shape

namespace CampusQuery

structure Section where
  uuid : String
  id : String
  title : String
  instructor : String
  dept : String
  year : Int32
  avg : Binary64
  pass : UInt32
  fail : UInt32
  audit : UInt32
deriving DecidableEq, Repr

namespace Section

def attributes : List (Attribute Section) :=
  [⟨"uuid", .text uuid⟩,
   ⟨"id", .text id⟩,
   ⟨"title", .text title⟩,
   ⟨"instructor", .text instructor⟩,
   ⟨"dept", .text dept⟩,
   ⟨"year", .number fun s => Binary64.ofInt s.year.toInt⟩,
   ⟨"avg", .number avg⟩,
   ⟨"pass", .number fun s => Binary64.ofNat s.pass.toNat⟩,
   ⟨"fail", .number fun s => Binary64.ofNat s.fail.toNat⟩,
   ⟨"audit", .number fun s => Binary64.ofNat s.audit.toNat⟩]

def record : Section → Record := Attribute.record attributes

def shape : Shape Section :=
  mk <$> .required "uuid" Json.text
    <*> .required "id" Json.text
    <*> .required "title" Json.text
    <*> .required "instructor" Json.text
    <*> .required "dept" Json.text
    <*> .required "year" Json.int32
    <*> .required "avg" Json.real
    <*> .required "pass" Json.word32
    <*> .required "fail" Json.word32
    <*> .required "audit" Json.word32

def ofJson : Json → Except Mismatch Section := shape.read "Section"

def toJson (s : Section) : Json :=
  .object
    [("uuid", .string s.uuid), ("id", .string s.id), ("title", .string s.title),
     ("instructor", .string s.instructor), ("dept", .string s.dept), ("year", .int s.year.toInt),
     ("avg", .double s.avg), ("pass", .int s.pass.toNat), ("fail", .int s.fail.toNat),
     ("audit", .int s.audit.toNat)]

end Section

end CampusQuery
