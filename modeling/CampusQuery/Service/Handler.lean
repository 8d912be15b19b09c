import CampusQuery.Query.Run
import CampusQuery.Service.Path
import CampusQuery.Service.Payload
import CampusQuery.Settings

namespace CampusQuery

structure ServiceLimits where
  query : QueryLimits
  bodyLimit : Nat
deriving DecidableEq, Repr

namespace StoreError

def status : StoreError → Nat
  | unavailable => 500
  | notFound _ => 404
  | invalidId _ | alreadyExists _ | emptyDataset _ => 400

def code : StoreError → String
  | unavailable => "internal_error"
  | invalidId _ => "invalid_id"
  | alreadyExists _ => "already_exists"
  | notFound _ => "not_found"
  | emptyDataset _ => "empty_dataset"

def response (e : StoreError) : Response := .reject e.status e.code e.message

end StoreError

namespace QueryError

def status (e : QueryError) : Nat := if e.category = .notFound then 404 else 400

def response (e : QueryError) : Response := .reject e.status e.category.code e.message

end QueryError

namespace Service

def health (store : Store) : Response :=
  let about (status : String) : List (String × Json) :=
    [("status", .string status), ("service", .string "insight-api"), ("version", .string "0.1.0")]
  match store.list with
  | .ok loaded => .json 200 (about "healthy" ++ [("datasets", .int loaded.length)])
  | .error _ => .json 503 (about "degraded")

def datasets (store : Store) : Response :=
  match store.list with
  | .ok loaded => .ok (.array (loaded.map DatasetInfo.toJson))
  | .error e => e.response

def uploaded (limit : Nat) (now : Timestamp) (id kind : String) (r : Request) :
    Except Response Dataset := do
  (checkDatasetId id).mapError StoreError.response
  let some k := Kind.ofName? kind | throw (.reject 400 "invalid_kind" (Kind.unknownMessage kind))
  let rows ← (Payload.rows limit r).mapError (.reject 400 "invalid_json" ·.message)
  (Dataset.ofRows id k rows now).mapError (.reject 400 "invalid_record" ·.message)

def upload (limit : Nat) (now : Timestamp) (id kind : String) (r : Request) (store : Store) :
    Response × Store :=
  match uploaded limit now id kind r with
  | .error response => (response, store)
  | .ok d =>
    match store.add d with
    | .ok (store, ids) => (.ok (.array (ids.map .string)), store)
    | .error e => (e.response, store)

def delete (id : String) (store : Store) : Response × Store :=
  match store.remove id with
  | .ok store => (.ok (.string id), store)
  | .error e => (e.response, store)

def query (limits : ServiceLimits) (r : Request) (store : Store) : Response :=
  match Payload.json limits.bodyLimit r with
  | .error e => .reject 400 Category.structural.code e.message
  | .ok document =>
    match Query.perform document store limits.query.maxRows with
    | .ok rows => .ok (.array (rows.map Row.toJson))
    | .error e => e.response

def badSegment (name : String) : Response :=
  .plain 400 s!"Invalid URL: Invalid UTF-8 in `{name}`"

def answer (limits : ServiceLimits) (now : Timestamp) (r : Request) (store : Store) :
    Route → Response × Store
  | .health => (health store, store)
  | .datasets => (datasets store, store)
  | .query => (query limits r store, store)
  | .dataset segment =>
    match Path.decode? segment with
    | some id => delete id store
    | none => (badSegment "id", store)
  | .upload idSegment kindSegment =>
    match Path.decode? idSegment, Path.decode? kindSegment with
    | some id, some kind => upload limits.bodyLimit now id kind r store
    | none, _ => (badSegment "id", store)
    | _, none => (badSegment "kind", store)

/-- Where `GET` is answered, `HEAD` is too. -/
def fits (method : String) (place : Route) : Bool :=
  method = place.method || method = "HEAD" && place.method = "GET"

def route (limits : ServiceLimits) (now : Timestamp) (r : Request) (store : Store) :
    Response × Store :=
  match Route.ofPath? r.path with
  | none => (.bare 404, store)
  | some place =>
    if fits r.method place then answer limits now r store place else (.bare 405, store)

def announcedTooLong (limits : ServiceLimits) (r : Request) : Bool :=
  r.contentLength.elim false (limits.bodyLimit < ·)

/-- A question about options is answered anywhere; next comes the announced length. -/
def respond (limits : ServiceLimits) (now : Timestamp) (r : Request) (store : Store) :
    Response × Store :=
  if r.method = "OPTIONS" then (.bare 200, store)
  else if announcedTooLong limits r then (.plain 413 "length limit exceeded", store)
  else route limits now r store

/-- Answers to `HEAD` are sent without their body. -/
def handle (limits : ServiceLimits) (now : Timestamp) (r : Request) (store : Store) :
    Response × Store :=
  let (response, store) := respond limits now r store
  ({ response with headOnly := r.method = "HEAD" }, store)

end Service

end CampusQuery
