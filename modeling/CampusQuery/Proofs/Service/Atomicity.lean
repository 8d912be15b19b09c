import CampusQuery.Proofs.Dataset.Lookup
import CampusQuery.Proofs.Json.Scan
import CampusQuery.Proofs.Service.Demand
import Mathlib

namespace CampusQuery.Service

open Outcome

/-- The states of the registry that requests lead to. -/
inductive Reachable (limits : ServiceLimits) : Store → Prop
  | empty : Reachable limits .empty
  | step {s : Store} (h : Reachable limits s) (now : Timestamp) (r : Request) :
      Reachable limits (handle limits now r s).2

/-- The dataset of an upload is loaded: under the id and of the kind in its path, with one record for
each row of its body. -/
structure Uploads (limits : ServiceLimits) (r : Request) (s : Store) (d : Dataset) (s' : Store)
    (ids : List String) : Prop where
  place : ∃ idSegment kindSegment, Route.ofPath? r.path = some (.upload idSegment kindSegment) ∧
    Path.decode? idSegment = some d.id ∧ Path.decode? kindSegment = some d.kind.name
  rows : ∃ rows, Payload.rows limits.bodyLimit r = .ok rows ∧ d.contents.ReadFrom rows
  adds : s.Adds d s' ids

structure Deletes (r : Request) (s : Store) (id : String) (s' : Store) : Prop where
  place : ∃ segment, Route.ofPath? r.path = some (.dataset segment) ∧
    Path.decode? segment = some id
  removes : s.Removes id s'

/-- What is wrong with an upload. -/
inductive IsSpoiled (limits : ServiceLimits) (r : Request) (s : Store)
    (idSegment kindSegment : String) : Prop
  | id (h : ∀ id, Path.decode? idSegment = some id → isDatasetId id = false)
  | taken {id : String} {d : Dataset} (hid : Path.decode? idSegment = some id)
      (h : s.get id = .ok d)
  | kind (h : ∀ name, Path.decode? kindSegment = some name → Kind.ofName? name = none)
  | body {e : PayloadError} (h : Payload.rows limits.bodyLimit r = .error e)
  | empty (h : Payload.rows limits.bodyLimit r = .ok [])
  | row {kind : Kind} {rows : List Json} {row : Json}
      (hkind : Path.decode? kindSegment = some kind.name)
      (hrows : Payload.rows limits.bodyLimit r = .ok rows) (hrow : row ∈ rows)
      (h : Contents.IsBadRow row kind)

variable {limits : ServiceLimits} {now : Timestamp} {r : Request} {s s' : Store}

theorem read_of_uploaded {limit : ℕ} {id kind : String} {d : Dataset}
    (h : uploaded limit now id kind r = .ok d) : d.id = id ∧ kind = d.kind.name ∧
      ∃ rows, Payload.rows limit r = .ok rows ∧ d.contents.ReadFrom rows := by
  obtain ⟨-, k, rows, hk, hrows, hd⟩ := uploaded_eq_ok.mp h
  obtain ⟨hid, rfl, -, hread⟩ := Dataset.ofRows_eq_ok.mp hd
  exact ⟨hid, Kind.ofName?_eq_some.mp hk, rows, hrows, hread⟩

theorem IsSpoiled.not_uploads {idSegment kindSegment : String} {d : Dataset} {ids : List String}
    (h : IsSpoiled limits r s idSegment kindSegment)
    (hplace : Route.ofPath? r.path = some (.upload idSegment kindSegment)) :
    ¬Uploads limits r s d s' ids := by
  rintro ⟨⟨_, _, hplace', hid, hkind⟩, ⟨rows, hrows, hread⟩, adds⟩
  cases hplace.symm.trans hplace'
  cases h with
  | id h => cases adds.isDatasetId.symm.trans (h d.id hid)
  | taken hid' h =>
    cases hid.symm.trans hid'
    cases adds.fresh.symm.trans h
  | kind h => cases (h d.kind.name hkind).symm.trans (Kind.ofName?_name d.kind)
  | body h => cases hrows.symm.trans h
  | empty h =>
    cases hrows.symm.trans h
    exact adds.records_ne (List.eq_nil_of_length_eq_zero hread.length_eq.symm)
  | @row kind _ row hkind' hrows' hrow h =>
    cases hrows.symm.trans hrows'
    have hname := Option.some.inj (hkind.symm.trans hkind')
    have hkinds := Kind.ofName?_eq_some.mpr hname
    rw [Kind.ofName?_name] at hkinds
    cases hkinds
    exact hread.not_isBadRow hrow h

/-- Only an upload or a deletion that is carried out gives another registry. -/
theorem handle_cases (limits : ServiceLimits) (now : Timestamp) (r : Request) (s : Store) :
    ((handle limits now r s).2 = s ∧
      (r.method = "PUT" ∨ r.method = "DELETE" → (handle limits now r s).1.status ≠ 200)) ∨
    (∃ idSegment kindSegment d ids, r.method = "PUT" ∧
      Route.ofPath? r.path = some (.upload idSegment kindSegment) ∧
      Path.decode? idSegment = some d.id ∧ Path.decode? kindSegment = some d.kind.name ∧
      (∃ rows, Payload.rows limits.bodyLimit r = .ok rows ∧ d.contents.ReadFrom rows) ∧
      s.add d = .ok ((handle limits now r s).2, ids) ∧
      (handle limits now r s).1 = .ok (.array (ids.map .string))) ∨
    ∃ segment id, r.method = "DELETE" ∧ Route.ofPath? r.path = some (.dataset segment) ∧
      Path.decode? segment = some id ∧ s.remove id = .ok (handle limits now r s).2 ∧
      (handle limits now r s).1 = .ok (.string id) := by
  cases hwish : demand limits r with
  | none => exact .inl (handle_of_demand_eq_none hwish)
  | some wish =>
    obtain ⟨-, place, hplace, hmethod, hat⟩ := demand_eq_some.mp hwish
    rw [handle_eq_carryOut hwish]
    cases wish with
    | upload id kind =>
      obtain ⟨idSegment, kindSegment, rfl, hid, hkind⟩ := place_of_upload hat
      rw [carryOut]
      rcases upload_cases limits.bodyLimit now id kind r s with
        ⟨response, h, hstatus, -⟩ | ⟨d, s', ids, hd, hadd, h⟩
      · rw [h]
        exact .inl ⟨rfl, fun _ => hstatus⟩
      · obtain ⟨rfl, rfl, hrows⟩ := read_of_uploaded hd
        rw [h]
        exact .inr (.inl ⟨idSegment, kindSegment, d, ids, hmethod, hplace, hid, hkind, hrows, hadd,
          rfl⟩)
    | delete id =>
      obtain ⟨segment, rfl, hid⟩ := place_of_delete hat
      rw [carryOut]
      rcases delete_cases id s with ⟨e, -, h⟩ | ⟨s', hremove, h⟩
      · rw [h]
        exact .inl ⟨rfl, fun _ => e.status_response_ne⟩
      · rw [h]
        exact .inr (.inr ⟨segment, id, hmethod, hplace, hid, hremove, rfl⟩)
    -- A query changes nothing, and its method is neither of the two.
    | query =>
      obtain rfl := place_of_query hat
      refine .inl ⟨rfl, fun hwrite => ?_⟩
      rw [hmethod] at hwrite
      exact absurd hwrite (by simp [Route.method])

theorem Reachable.reachable (h : Reachable limits s) : s.Reachable := by
  induction h with
  | empty => exact .empty
  | @step s _ now r ih =>
    rcases handle_cases limits now r s with
      ⟨hsame, -⟩ | ⟨_, _, _, _, -, -, -, -, -, hadd, -⟩ | ⟨_, _, -, -, -, hremove, -⟩
    · exact hsame.symm ▸ ih
    · exact .add ih hadd
    · exact .remove ih hremove

/-- A request that is not answered with success leaves the registry alone, as does one that is
neither an upload nor a deletion. A successful upload loads the one dataset that it holds and is
answered with the ids then loaded; a successful deletion takes the one dataset of its id away. An
upload that anything is wrong with loads nothing. -/
theorem Reachable.handle_atomic (reach : Reachable limits s) (now : Timestamp) (r : Request) :
    ((handle limits now r s).1.status ≠ 200 → (handle limits now r s).2 = s) ∧
    (r.method ≠ "PUT" → r.method ≠ "DELETE" → (handle limits now r s).2 = s) ∧
    (r.method = "PUT" → (handle limits now r s).1.status = 200 → ∃ d ids,
      Uploads limits r s d (handle limits now r s).2 ids ∧
      (handle limits now r s).1 = .ok (.array (ids.map .string))) ∧
    (r.method = "DELETE" → (handle limits now r s).1.status = 200 → ∃ id,
      Deletes r s id (handle limits now r s).2 ∧ (handle limits now r s).1 = .ok (.string id)) ∧
    ∀ idSegment kindSegment, Route.ofPath? r.path = some (.upload idSegment kindSegment) →
      IsSpoiled limits r s idSegment kindSegment → (handle limits now r s).2 = s ∧
        (r.method = "PUT" → (handle limits now r s).1.status ≠ 200) := by
  rcases handle_cases limits now r s with
    ⟨hsame, hstatus⟩ |
    ⟨idSegment, kindSegment, d, ids, hmethod, hplace, hid, hkind, hrows, hadd, hresponse⟩ |
    ⟨segment, id, hmethod, hplace, hid, hremove, hresponse⟩
  · refine ⟨fun _ => hsame, fun _ _ => hsame, fun hput hok => ?_, fun hdelete hok => ?_,
      fun _ _ _ _ => ⟨hsame, fun hput => hstatus (.inl hput)⟩⟩
    · exact absurd hok (hstatus (.inl hput))
    · exact absurd hok (hstatus (.inr hdelete))
  · have huploads : Uploads limits r s d (handle limits now r s).2 ids :=
      ⟨⟨idSegment, kindSegment, hplace, hid, hkind⟩, hrows, reach.reachable.adds hadd⟩
    have hok : (handle limits now r s).1.status = 200 := by
      rw [hresponse]
      rfl
    refine ⟨absurd hok, fun hput _ => absurd hmethod hput, fun _ _ => ⟨d, ids, huploads, hresponse⟩,
      fun hdelete => ?_, fun _ _ hplace hspoiled => absurd huploads (hspoiled.not_uploads hplace)⟩
    rw [hmethod] at hdelete
    exact absurd hdelete (by decide)
  · have hok : (handle limits now r s).1.status = 200 := by
      rw [hresponse]
      rfl
    refine ⟨absurd hok, fun _ hdelete => absurd hmethod hdelete, fun hput => ?_,
      fun _ _ => ⟨id, ⟨⟨segment, hplace, hid⟩, reach.reachable.removes hremove⟩, hresponse⟩,
      fun _ _ hplace' => ?_⟩
    · rw [hmethod] at hput
      exact absurd hput (by decide)
    · cases hplace.symm.trans hplace'

def numberedRoom (number : String) : Room :=
  ⟨"", "A", number, "", "", .zero, .zero, 0, "", "", ""⟩

def numberedRow (number : String) : Json :=
  .object
    [("address", .string ""), ("fullname", .string ""), ("furniture", .string ""),
     ("href", .string ""), ("lat", .int 0), ("lon", .int 0), ("name", .string ""),
     ("number", .string number), ("seats", .int 0), ("shortname", .string "A"),
     ("type", .string "")]

def numberedUpload (number : String) : Request where
  method := "PUT"
  path := "/api/v1/dataset/a/rooms"
  contentType := some "application/json"
  contentLength := none
  body :=
    "[\x7b\"fullname\":\"\",\"shortname\":\"A\",\"number\":\"" ++ number ++
    "\",\"name\":\"\",\"address\":\"\",\"lat\":0,\"lon\":0,\"seats\":0,\"type\":\"\"," ++
    "\"furniture\":\"\",\"href\":\"\"\x7d]"

def plainRoom : Room := numberedRoom "1"

def plainRow : Json := numberedRow "1"

def roomUpload : Request := numberedUpload "1"

def roomLimits : ServiceLimits := ⟨⟨1⟩, 200⟩

theorem demand_roomUpload : demand roomLimits roomUpload = some (.upload "a" "rooms") := by cbv

theorem read?_roomUpload : Json.read? Json.maxDepth roomUpload.body.toList = some (.array [plainRow]) :=
  Json.read?_of_scanWithin 60 (by cbv) (by cbv)

theorem rows_roomUpload : Payload.rows 200 roomUpload = .ok [plainRow] :=
  Payload.rows_eq_ok.mpr
    ⟨_, Payload.text_eq_ok.mpr ⟨by cbv, by decide +kernel, rfl⟩, read?_roomUpload⟩

theorem ofRows_plainRow (now : Timestamp) :
    Dataset.ofRows "a" .rooms [plainRow] now = .ok ⟨"a", .rooms [plainRoom], now⟩ := by
  have hrow : Room.ofRow plainRow = .ok plainRoom := by cbv
  exact Dataset.ofRows_eq_ok.mpr ⟨rfl, rfl, rfl, .cons hrow .nil⟩

theorem uploaded_roomUpload (now : Timestamp) :
    uploaded 200 now "a" "rooms" roomUpload = .ok ⟨"a", .rooms [plainRoom], now⟩ :=
  uploaded_eq_ok.mpr
    ⟨by decide, .rooms, [plainRow], rfl, rows_roomUpload, ofRows_plainRow now⟩

/-- The room is loaded, and not once more while it is. -/
theorem handle_atomic_roomUpload :
    let s := (handle roomLimits .epoch roomUpload .empty).2
    (handle roomLimits .epoch roomUpload .empty).1.status = 200 ∧
    (∃ d ids, Uploads roomLimits roomUpload .empty d s ids ∧
      (handle roomLimits .epoch roomUpload .empty).1 = .ok (.array (ids.map .string))) ∧
    (handle roomLimits .epoch roomUpload s).2 = s ∧
    (handle roomLimits .epoch roomUpload s).1.status ≠ 200 := by
  intro s
  have hhandle : handle roomLimits .epoch roomUpload .empty =
      (.ok (.array [.string "a"]), .ready ⟨[("a", ⟨"a", .rooms [plainRoom], .epoch⟩)]⟩) := by
    rw [handle_eq_carryOut demand_roomUpload, carryOut, upload]
    simp only [roomLimits, uploaded_roomUpload]
    rfl
  have hok : (handle roomLimits .epoch roomUpload .empty).1.status = 200 := by
    rw [hhandle]
    rfl
  have reach : Reachable roomLimits s := .step .empty .epoch roomUpload
  obtain ⟨d, ids, huploads, hresponse⟩ :=
    (Reachable.handle_atomic .empty .epoch roomUpload).2.2.1 rfl hok
  obtain ⟨idSegment, kindSegment, hplace, hid, -⟩ := huploads.place
  have hd : s.get d.id = .ok d := (huploads.adds.get d.id).trans (if_pos rfl)
  have hagain := (reach.handle_atomic .epoch roomUpload).2.2.2.2 idSegment kindSegment hplace
    (.taken hid hd)
  exact ⟨hok, ⟨d, ids, huploads, hresponse⟩, hagain.1, hagain.2 rfl⟩

end CampusQuery.Service
