import CampusQuery.Dataset.Attribute
import CampusQuery.Json.Shape

namespace CampusQuery

structure Room where
  fullname : String
  shortname : String
  number : String
  name : String
  address : String
  lat : Binary64
  lon : Binary64
  seats : UInt32
  type : String
  furniture : String
  href : String
deriving DecidableEq, Repr

namespace Room

def attributes : List (Attribute Room) :=
  [⟨"fullname", .text fullname⟩,
   ⟨"shortname", .text shortname⟩,
   ⟨"number", .text number⟩,
   ⟨"name", .text name⟩,
   ⟨"address", .text address⟩,
   ⟨"lat", .number lat⟩,
   ⟨"lon", .number lon⟩,
   ⟨"seats", .number fun r => Binary64.ofNat r.seats.toNat⟩,
   ⟨"type", .text type⟩,
   ⟨"furniture", .text furniture⟩,
   ⟨"href", .text href⟩]

def record : Room → Record := Attribute.record attributes

def shape : Shape Room :=
  mk <$> .required "fullname" Json.text
    <*> .required "shortname" Json.text
    <*> .required "number" Json.text
    <*> .required "name" Json.text
    <*> .required "address" Json.text
    <*> .required "lat" Json.real
    <*> .required "lon" Json.real
    <*> .required "seats" Json.word32
    <*> .required "type" Json.text
    <*> .required "furniture" Json.text
    <*> .required "href" Json.text

def ofJson : Json → Except Mismatch Room := shape.read "Room"

def toJson (r : Room) : Json :=
  .object
    [("fullname", .string r.fullname), ("shortname", .string r.shortname),
     ("number", .string r.number), ("name", .string r.name), ("address", .string r.address),
     ("lat", .double r.lat), ("lon", .double r.lon), ("seats", .int r.seats.toNat),
     ("type", .string r.type), ("furniture", .string r.furniture), ("href", .string r.href)]

end Room

end CampusQuery
