import CampusQuery.Proofs.Dataset.Registry
import CampusQuery.Proofs.Dataset.Rows
import CampusQuery.Service.Handler

namespace CampusQuery

open Outcome

theorem Kind.ofName?_eq_some {name : String} {k : Kind} : ofName? name = some k ↔ name = k.name := by
  constructor
  · intro h
    unfold ofName? at h
    split at h
    · cases h
      rfl
    · cases h
      rfl
    · cases h
  · rintro rfl
    exact ofName?_name k

theorem StoreError.status_response_ne (e : StoreError) : e.response.status ≠ 200 := by
  cases e <;> exact Nat.ne_of_beq_eq_false rfl

namespace Payload

variable {limit : ℕ} {r : Request}

theorem text_eq_ok {text : String} : Payload.text limit r = .ok text ↔
    (r.contentType.bind MediaType.read?).elim false MediaType.isJson = true ∧
      r.body.utf8ByteSize ≤ limit ∧ r.body = text := by
  unfold Payload.text
  split
  · simp_all
  · split
    · rename_i hlong
      exact iff_of_false nofun fun h => Nat.not_le.mpr hlong h.2.1
    · rename_i hshort
      simp_all

theorem json_eq_ok {v : Json} : Payload.json limit r = .ok v ↔
    ∃ text, Payload.text limit r = .ok text ∧ Json.read? Json.maxDepth text.toList = some v := by
  rw [Payload.json, bind_eq_ok]
  refine exists_congr fun text => and_congr_right fun _ => ?_
  cases Json.read? Json.maxDepth text.toList with
  | none => exact iff_of_false throw_ne_ok nofun
  | some w => rw [pure_eq_ok, Option.some.injEq]

theorem rows_eq_ok {rows : List Json} : Payload.rows limit r = .ok rows ↔
    ∃ text, Payload.text limit r = .ok text ∧
      Json.read? Json.maxDepth text.toList = some (.array rows) := by
  rw [Payload.rows, bind_eq_ok]
  refine exists_congr fun text => and_congr_right fun _ => ?_
  simp only
  split
  · rename_i hread
    rw [hread, pure_eq_ok, Option.some.injEq, Json.array.injEq]
  · rename_i hother
    exact iff_of_false throw_ne_ok fun hread => hother rows hread

end Payload

namespace Service

/-- What a request asks for that is fit to be carried out. -/
inductive Demand where
  | upload (id kind : String)
  | delete (id : String)
  | query
deriving DecidableEq, Repr

/-- What the place stands for. Health and listing ask for nothing that matters. -/
def demandAt : Route → Option Demand
  | .health | .datasets => none
  | .query => some .query
  | .dataset segment => (Path.decode? segment).map .delete
  | .upload idSegment kindSegment =>
    (Path.decode? idSegment).bind fun id => (Path.decode? kindSegment).map (.upload id)

def demand (limits : ServiceLimits) (r : Request) : Option Demand :=
  if announcedTooLong limits r then none
  else (Route.ofPath? r.path).bind fun place =>
    if r.method = place.method then demandAt place else none

variable {limits : ServiceLimits} {now : Timestamp} {r : Request} {s : Store}

theorem demand_eq_some {wish : Demand} : demand limits r = some wish ↔
    announcedTooLong limits r = false ∧
      ∃ place, Route.ofPath? r.path = some place ∧ r.method = place.method ∧
        demandAt place = some wish := by
  unfold demand
  split
  · simp_all
  · simp_all [Option.bind_eq_some_iff]

theorem place_of_upload {place : Route} {id kind : String}
    (h : demandAt place = some (.upload id kind)) : ∃ idSegment kindSegment,
      place = .upload idSegment kindSegment ∧ Path.decode? idSegment = some id ∧
        Path.decode? kindSegment = some kind := by
  cases place with
  | upload idSegment kindSegment =>
    obtain ⟨id, hid, h⟩ := Option.bind_eq_some_iff.mp h
    obtain ⟨kind, hkind, h⟩ := Option.map_eq_some_iff.mp h
    cases h
    exact ⟨idSegment, kindSegment, rfl, hid, hkind⟩
  | dataset segment =>
    obtain ⟨_, -, h⟩ := Option.map_eq_some_iff.mp h
    cases h
  | _ => cases h

theorem place_of_delete {place : Route} {id : String} (h : demandAt place = some (.delete id)) :
    ∃ segment, place = .dataset segment ∧ Path.decode? segment = some id := by
  cases place with
  | upload idSegment kindSegment =>
    obtain ⟨_, -, h⟩ := Option.bind_eq_some_iff.mp h
    obtain ⟨_, -, h⟩ := Option.map_eq_some_iff.mp h
    cases h
  | dataset segment =>
    obtain ⟨id, hid, h⟩ := Option.map_eq_some_iff.mp h
    cases h
    exact ⟨segment, rfl, hid⟩
  | _ => cases h

theorem place_of_query {place : Route} (h : demandAt place = some .query) : place = .query := by
  cases place with
  | query => rfl
  | upload idSegment kindSegment =>
    obtain ⟨_, -, h⟩ := Option.bind_eq_some_iff.mp h
    obtain ⟨_, -, h⟩ := Option.map_eq_some_iff.mp h
    cases h
  | dataset segment =>
    obtain ⟨_, -, h⟩ := Option.map_eq_some_iff.mp h
    cases h
  | _ => cases h

theorem eq_of_headOnly {response : Response} (h : response.headOnly = false) :
    { response with headOnly := false } = response := by
  rw [← h]

/-- Uploads fail before the registry with a refusal of the request. -/
theorem failsOnly_uploaded (limit : ℕ) (now : Timestamp) (id kind : String) (r : Request) :
    FailsOnly (fun e => e.status ≠ 200 ∧ e.headOnly = false) (uploaded limit now id kind r) := by
  have hreject (code message : String) : (Response.reject 400 code message).status ≠ 200 ∧
      (Response.reject 400 code message).headOnly = false := ⟨Nat.ne_of_beq_eq_false rfl, rfl⟩
  refine FailsOnly.bind (.mapError fun e _ => ⟨e.status_response_ne, rfl⟩) fun _ _ => ?_
  split
  · refine FailsOnly.bind (.mapError fun e _ => hreject _ _) fun rows _ => ?_
    exact .mapError fun e _ => hreject _ _
  · exact .error (hreject _ _)

theorem uploaded_eq_ok {limit : ℕ} {id kind : String} {d : Dataset} :
    uploaded limit now id kind r = .ok d ↔ isDatasetId id = true ∧ ∃ k rows,
      Kind.ofName? kind = some k ∧ Payload.rows limit r = .ok rows ∧
        Dataset.ofRows id k rows now = .ok d := by
  unfold uploaded
  rw [check_bind_eq_ok, mapError_eq_ok, checkDatasetId_eq_ok]
  cases Kind.ofName? kind with
  | none => simp
  | some k => simp [bind_eq_ok, mapError_eq_ok]

/-- An upload is refused and changes nothing, or its dataset is added. -/
theorem upload_cases (limit : ℕ) (now : Timestamp) (id kind : String) (r : Request) (s : Store) :
    (∃ response, upload limit now id kind r s = (response, s) ∧ response.status ≠ 200 ∧
      response.headOnly = false) ∨
    ∃ d s' ids, uploaded limit now id kind r = .ok d ∧ s.add d = .ok (s', ids) ∧
      upload limit now id kind r s = (.ok (.array (ids.map .string)), s') := by
  unfold upload
  cases hd : uploaded limit now id kind r with
  | error response =>
    obtain ⟨hstatus, hhead⟩ := failsOnly_uploaded limit now id kind r response hd
    exact .inl ⟨response, rfl, hstatus, hhead⟩
  | ok d =>
    cases hadd : s.add d with
    | error e => exact .inl ⟨e.response, by simp [hadd], e.status_response_ne, rfl⟩
    | ok p => exact .inr ⟨d, p.1, p.2, rfl, hadd, by simp [hadd]⟩

theorem delete_cases (id : String) (s : Store) :
    (∃ e, s.remove id = .error e ∧ delete id s = (e.response, s)) ∨
      ∃ s', s.remove id = .ok s' ∧ delete id s = (.ok (.string id), s') := by
  unfold delete
  cases h : s.remove id with
  | error e => exact .inl ⟨e, rfl, rfl⟩
  | ok s' => exact .inr ⟨s', rfl, rfl⟩

def carryOut (limits : ServiceLimits) (now : Timestamp) (r : Request) (s : Store) :
    Demand → Response × Store
  | .upload id kind => upload limits.bodyLimit now id kind r s
  | .delete id => delete id s
  | .query => (query limits r s, s)

theorem headOnly_carryOut (wish : Demand) : (carryOut limits now r s wish).1.headOnly = false := by
  cases wish with
  | upload id kind =>
    rw [carryOut]
    rcases upload_cases limits.bodyLimit now id kind r s with
      ⟨response, h, -, hhead⟩ | ⟨d, s', ids, -, -, h⟩
    · rw [h]
      exact hhead
    · rw [h]
      rfl
  | delete id =>
    rw [carryOut]
    rcases delete_cases id s with ⟨e, -, h⟩ | ⟨s', -, h⟩ <;> rw [h] <;> rfl
  | query =>
    rw [carryOut, query]
    split
    · rfl
    · split <;> rfl

theorem answer_eq_carryOut {place : Route} {wish : Demand} (h : demandAt place = some wish) :
    answer limits now r s place = carryOut limits now r s wish := by
  cases wish with
  | upload id kind =>
    obtain ⟨idSegment, kindSegment, rfl, hid, hkind⟩ := place_of_upload h
    rw [answer, hid, hkind, carryOut]
  | delete id =>
    obtain ⟨segment, rfl, hid⟩ := place_of_delete h
    rw [answer, hid, carryOut]
  | query =>
    obtain rfl := place_of_query h
    rfl

/-- A request with the place's own method, and not for too much, is answered there. -/
theorem handle_eq_answer {place : Route} (hshort : announcedTooLong limits r = false)
    (hplace : Route.ofPath? r.path = some place) (hmethod : r.method = place.method) :
    handle limits now r s = ({ (answer limits now r s place).1 with headOnly := false },
      (answer limits now r s place).2) := by
  have hoptions : r.method ≠ "OPTIONS" := by
    rw [hmethod]
    cases place <;> simp [Route.method]
  have hhead : r.method ≠ "HEAD" := by
    rw [hmethod]
    cases place <;> simp [Route.method]
  have hfits : fits r.method place = true := by simp [fits, hmethod]
  rw [handle, respond, if_neg hoptions, hshort, if_neg Bool.false_ne_true, route, hplace]
  simp only [if_pos hfits, decide_eq_false hhead]

theorem handle_eq_carryOut {wish : Demand} (h : demand limits r = some wish) :
    handle limits now r s = carryOut limits now r s wish := by
  obtain ⟨hshort, place, hplace, hmethod, hwish⟩ := demand_eq_some.mp h
  rw [handle_eq_answer hshort hplace hmethod, answer_eq_carryOut hwish,
    eq_of_headOnly (headOnly_carryOut wish)]

theorem handle_of_uploaded {id kind : String} {d : Dataset} {s' : Store} {ids : List String}
    (h : demand limits r = some (.upload id kind))
    (hd : uploaded limits.bodyLimit now id kind r = .ok d) (hadd : s.add d = .ok (s', ids)) :
    handle limits now r s = (.ok (.array (ids.map .string)), s') := by
  rw [handle_eq_carryOut h, carryOut, upload, hd]
  simp only [hadd]

theorem handle_of_perform {document : Json} {rows : List Row} (h : demand limits r = some .query)
    (hdocument : Payload.json limits.bodyLimit r = .ok document)
    (hrows : Query.perform document s limits.query.maxRows = .ok rows) :
    handle limits now r s = (.ok (.array (rows.map Row.toJson)), s) := by
  rw [handle_eq_carryOut h, carryOut, query, hdocument]
  simp only [hrows]

theorem demandAt_of_get {place : Route} (h : place.method = "GET") : demandAt place = none := by
  cases place with
  | health | datasets => rfl
  | _ => simp [Route.method] at h

/-- At a place that asks for nothing a segment cannot be decoded, or it is only read. -/
theorem answer_of_demandAt {place : Route} (h : demandAt place = none) :
    (answer limits now r s place).2 = s ∧
      ((answer limits now r s place).1.status ≠ 200 ∨ place.method = "GET") := by
  have hbad (name : String) : (badSegment name).status ≠ 200 := Nat.ne_of_beq_eq_false rfl
  cases place with
  | upload idSegment kindSegment =>
    rw [answer]
    rw [demandAt] at h
    cases hid : Path.decode? idSegment with
    | none => exact ⟨rfl, .inl (hbad "id")⟩
    | some id =>
      rw [hid, Option.bind_some, Option.map_eq_none_iff] at h
      rw [h]
      exact ⟨rfl, .inl (hbad "kind")⟩
  | dataset segment =>
    rw [answer, Option.map_eq_none_iff.mp h]
    exact ⟨rfl, .inl (hbad "id")⟩
  | query => cases h
  | health | datasets => exact ⟨rfl, .inr rfl⟩

theorem route_of_demand_eq_none (h : demand limits r = none)
    (hshort : announcedTooLong limits r = false) : (route limits now r s).2 = s ∧
      (r.method = "PUT" ∨ r.method = "DELETE" → (route limits now r s).1.status ≠ 200) := by
  have hbare (status : ℕ) (hne : status ≠ 200) : (Response.bare status).status ≠ 200 := hne
  rw [demand, hshort, if_neg Bool.false_ne_true] at h
  rw [route]
  cases hplace : Route.ofPath? r.path with
  | none => exact ⟨rfl, fun _ => hbare 404 (by decide)⟩
  | some place =>
    rw [hplace, Option.bind_some] at h
    dsimp only
    split
    · rename_i hfits
      simp only [fits, Bool.or_eq_true, Bool.and_eq_true, decide_eq_true_eq] at hfits
      rcases hfits with hmethod | ⟨hhead, hget⟩
      · rw [if_pos hmethod] at h
        have hanswer : (answer limits now r s place).2 = s ∧ _ := answer_of_demandAt h
        refine ⟨hanswer.1, fun hwrite => hanswer.2.resolve_right fun hget => ?_⟩
        rw [hmethod, hget] at hwrite
        exact absurd hwrite (by decide)
      · refine ⟨(answer_of_demandAt (demandAt_of_get hget)).1, fun hwrite => ?_⟩
        rw [hhead] at hwrite
        exact absurd hwrite (by decide)
    · exact ⟨rfl, fun _ => hbare 405 (by decide)⟩

/-- Without a demand the registry is left alone, and uploads and deletions are refused. -/
theorem handle_of_demand_eq_none (h : demand limits r = none) :
    (handle limits now r s).2 = s ∧
      (r.method = "PUT" ∨ r.method = "DELETE" → (handle limits now r s).1.status ≠ 200) := by
  change (respond limits now r s).2 = s ∧
    (r.method = "PUT" ∨ r.method = "DELETE" → (respond limits now r s).1.status ≠ 200)
  rw [respond]
  split
  · rename_i hoptions
    refine ⟨rfl, fun hwrite => ?_⟩
    rw [hoptions] at hwrite
    exact absurd hwrite (by decide)
  · split
    · exact ⟨rfl, fun _ => Nat.ne_of_beq_eq_false rfl⟩
    · rename_i hshort
      exact route_of_demand_eq_none h (Bool.not_eq_true _ ▸ hshort)

end Service

end CampusQuery
