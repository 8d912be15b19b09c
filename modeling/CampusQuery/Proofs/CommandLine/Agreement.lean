import CampusQuery.Proofs.CommandLine.Arguments
import CampusQuery.Proofs.CommandLine.Loading
import CampusQuery.Proofs.Json.Finite
import CampusQuery.Proofs.Json.RoundTrip
import CampusQuery.Proofs.Service.Atomicity

namespace CampusQuery

open Outcome Service

theorem Cell.fits_toJson (c : Cell) (depth : ℕ) : c.toJson.Fits depth := by
  cases c with
  | text s => exact .string
  | number x =>
    rw [Cell.toJson]
    split
    · rename_i n hn
      have hsize : n.natAbs ≤ Binary64.maxExactInteger :=
        of_decide_eq_true (Option.filter_eq_some_iff.mp hn).2
      rw [Binary64.maxExactInteger] at hsize
      exact .int (by omega) (by omega)
    · exact .double

theorem Row.fits_toJson (r : Row) : r.toJson.Fits 1 := by
  refine .object fun m hm => ?_
  obtain ⟨cell, -, rfl⟩ := List.mem_map.mp hm
  exact cell.2.fits_toJson 0

theorem QueryError.status_eq (e : QueryError) : e.status = 400 ∨ e.status = 404 := by
  rw [status]
  split
  · exact .inr rfl
  · exact .inl rfl

namespace QueryCommand

theorem fits_sortedRow (r : Row) : (sortedRow r).Fits 1 := by
  refine .object fun m hm => ?_
  obtain ⟨cell, -, rfl⟩ := List.mem_map.mp (Json.mem_of_mem_ofPairs hm)
  exact cell.2.fits_toJson 0

/-- The order of its columns and how often each occurs do not matter once a row is read. -/
theorem settled_sortedRow (r : Row) : (sortedRow r).settled = r.toJson.settled :=
  Json.settled_ofMembers _

def document (rows : List Json) : Json := .object [("result", .array rows)]

theorem fits_document {f : Row → Json} (h : ∀ r, (f r).Fits 1) (rows : List Row) :
    (document (rows.map f)).Fits 3 :=
  .object fun _ hm => List.mem_singleton.mp hm ▸ .array (List.forall_mem_map.mpr fun r _ => h r)

theorem settled_document (rows : List Row) :
    (document (rows.map sortedRow)).settled = (document (rows.map Row.toJson)).settled := by
  simp only [document, Json.settled, Json.settledMembers, Json.settledItems_eq_map, List.map_map]
  rw [List.map_congr_left (f := Json.settled ∘ sortedRow) fun r _ => settled_sortedRow r]
  rfl

theorem read?_answer (rows : List Row) : ∃ v,
    Json.read? Json.maxDepth ((document (rows.map sortedRow)).toIndentedText ++ "\n").toList = some v ∧
      Json.read? Json.maxDepth (Response.ok (.array (rows.map Row.toJson))).text.toList = some v := by
  have hsorted := fits_document fits_sortedRow rows
  have hsent := fits_document Row.fits_toJson rows
  refine ⟨_, (hsorted.read?_toIndentedText (by decide)).trans ?_, hsent.read?_toText (by decide)⟩
  rw [settled_document]

/-- The command line succeeds exactly if the service does. What it then prints is read as the same
value as the body of the response; else the response is a refusal, and the report names the same
code and message. -/
structure Agrees (outcome : Except Report String) (response : Response) : Prop where
  success : (∃ text, outcome = .ok text) ↔ response.status = 200
  same : ∀ text, outcome = .ok text → ∃ v, Json.read? Json.maxDepth text.toList = some v ∧
    Json.read? Json.maxDepth response.text.toList = some v
  refusal : response.status ≠ 200 → ∃ status code message, (status = 400 ∨ status = 404) ∧
    response = .reject status code message ∧ outcome = .error ⟨code ++ ": " ++ message, []⟩

variable {limits : ServiceLimits} {files : Files}

def loaded (c : QueryCommand) (files : Files) (now : Timestamp) : Except Report Store :=
  c.sections.foldlM (load files now .sections) .empty >>=
    fun store => c.rooms.foldlM (load files now .rooms) store

def queried (c : QueryCommand) (files : Files) (store : Store) : Except Report (List Row) := do
  let document ← readJson files c.queryFile
  (Query.perform document store c.limits.maxRows).mapError fun e =>
    ⟨s!"{e.category.code}: {e.message}", []⟩

theorem answer_eq {c : QueryCommand} (hmaxRows : c.limits.maxRows ≠ 0) (now : Timestamp) :
    c.answer files now = c.loaded files now >>= c.queried files := by
  rw [answer, QueryLimits.check, if_neg hmaxRows, loaded, bind_assoc]
  rfl

theorem agrees_of_twins {c : QueryCommand} {now : Timestamp} {store store' : Store}
    (hlimits : c.limits = limits.query) (hmaxRows : c.limits.maxRows ≠ 0)
    (hloaded : c.loaded files now = .ok store') (twins : store.Twins store')
    {post : Request} {doc : Json} (hpost : demand limits post = some .query)
    (hbody : Payload.json limits.bodyLimit post = .ok doc)
    (hfile : readJson files c.queryFile = .ok doc) (time : Timestamp) :
    Agrees (c.run files now) (handle limits time post store).1 := by
  rw [handle_eq_carryOut hpost, carryOut, query, run, answer_eq hmaxRows, hloaded, hbody, ok_bind,
    queried, hfile, ok_bind, hlimits]
  -- From here on both have one outcome.
  simp only [twins.perform_eq]
  cases Query.perform doc store' limits.query.maxRows with
  | error e =>
    have hne : e.response.status ≠ 200 := by
      have hstatus := e.status_eq
      change e.status ≠ 200
      omega
    constructor
    · constructor
      · rintro ⟨text, ⟨⟩⟩
      · exact fun h => absurd h hne
    · rintro text ⟨⟩
    · exact fun _ => ⟨e.status, e.category.code, e.message, e.status_eq, rfl, rfl⟩
  | ok rows =>
    constructor
    · exact ⟨fun _ => rfl, fun _ => ⟨_, rfl⟩⟩
    · rintro text ⟨⟩
      exact read?_answer rows
    · exact fun h => absurd rfl h

/-- Rows are uploaded to a fresh service and the same rows are loaded by the command line, in the
same order. If all uploads succeed, both answer the same query under the same limit alike; if one is
refused, the command line fails. -/
theorem run_agrees {sections rooms : List Supply} {queryFile : String} {post : Request} {doc : Json}
    (hmaxRows : 1 ≤ limits.query.maxRows)
    (hsections : ∀ s ∈ sections, s.Offers limits files .sections)
    (hrooms : ∀ s ∈ rooms, s.Offers limits files .rooms)
    (hgivable : IsGivable ⟨queryFile, sections.map Supply.file, rooms.map Supply.file, limits.query⟩)
    (hpost : demand limits post = some .query) (hbody : Payload.json limits.bodyLimit post = .ok doc)
    (hfile : readJson files queryFile = .ok doc) (env : String → Option String)
    (now time : Timestamp) :
    let c : QueryCommand := ⟨queryFile, sections.map Supply.file, rooms.map Supply.file, limits.query⟩
    let uploads := handleAll limits .empty ((sections ++ rooms).map Supply.arrival)
    Command.ofArgs? c.arguments env = some (.query c) ∧
      ((∀ response ∈ uploads.1, response.status = 200) →
        Agrees ((Command.query c).run files now) (handle limits time post uploads.2).1) ∧
      ∀ response ∈ uploads.1, response.status ≠ 200 →
        ∃ report, (Command.query c).run files now = .error report := by
  intro c uploads
  -- The sections are loaded first, and the rooms beside them.
  have hmatches : Matches uploads (c.loaded files now) := by
    have hfirst := foldlM_load_matches hsections .empty now
    change Matches (handleAll limits .empty ((sections ++ rooms).map Supply.arrival)) _
    rw [List.map_append]
    exact hfirst.append fun _ twins => foldlM_load_matches hrooms twins now
  have hlimit : c.limits.maxRows ≠ 0 := Nat.one_le_iff_ne_zero.mp hmaxRows
  refine ⟨hgivable.ofArgs?_arguments env, fun hok => ?_, fun response hresponse hstatus => ?_⟩
  · obtain ⟨store', hloaded, twins⟩ := hmatches.success hok
    exact agrees_of_twins rfl hlimit hloaded twins hpost hbody hfile time
  · obtain ⟨report, hreport⟩ := hmatches.failure response hresponse hstatus
    refine ⟨report, ?_⟩
    change c.run files now = _
    rw [run, answer_eq hlimit, hreport]
    rfl

def nameQuery : Request where
  method := "POST"
  path := "/api/v1/query"
  contentType := some "application/json"
  contentLength := none
  body := "\x7b\"WHERE\":\x7b\x7d,\"OPTIONS\":\x7b\"COLUMNS\":[\"a_name\"]\x7d\x7d"

def nameDocument : Json :=
  .object [("OPTIONS", .object [("COLUMNS", .array [.string "a_name"])]), ("WHERE", .object [])]

def nameFiles : Files := fun path =>
  if path = "r.json" then .ok roomUpload.body else .ok nameQuery.body

theorem read?_nameQuery : Json.read? Json.maxDepth nameQuery.body.toList = some nameDocument :=
  Json.read?_of_scanWithin 20 (by cbv) (by cbv)

theorem json_nameQuery : Payload.json 200 nameQuery = .ok nameDocument :=
  Payload.json_eq_ok.mpr
    ⟨_, Payload.text_eq_ok.mpr ⟨by cbv, by decide +kernel, rfl⟩, read?_nameQuery⟩

theorem demand_nameQuery : demand roomLimits nameQuery = some .query := by cbv

theorem readJson_nameFiles : readJson nameFiles "r.json" = .ok (.array [plainRow]) ∧
    readJson nameFiles "q.json" = .ok nameDocument := by
  have hrows : nameFiles "r.json" = .ok roomUpload.body := if_pos rfl
  have hquery : nameFiles "q.json" = .ok nameQuery.body := if_neg (by decide)
  constructor
  · rw [readJson, hrows, ok_mapError, ok_bind]
    simp only [read?_roomUpload]
    rfl
  · rw [readJson, hquery, ok_mapError, ok_bind]
    simp only [read?_nameQuery]
    rfl

def roomSupply : Supply := ⟨"a", [plainRow], roomUpload, .epoch, "r.json"⟩

def roomStore : Store := .ready ⟨[("a", ⟨"a", .rooms [plainRoom], .epoch⟩)]⟩

theorem offers_roomSupply : roomSupply.Offers roomLimits nameFiles .rooms :=
  ⟨demand_roomUpload, rows_roomUpload, _, readJson_nameFiles.1, rfl⟩

theorem add_roomSupply :
    Store.empty.add ⟨"a", .rooms [plainRoom], .epoch⟩ = .ok (roomStore, ["a"]) := rfl

theorem handleAll_roomSupply : ∃ response : Response, response.status = 200 ∧
    handleAll roomLimits .empty [roomSupply.arrival] = ([response], roomStore) := by
  have hd : Dataset.ofRows roomSupply.id .rooms roomSupply.rows roomSupply.time =
      .ok ⟨"a", .rooms [plainRoom], .epoch⟩ := ofRows_plainRow .epoch
  have hstatus := status_of_add offers_roomSupply .empty hd add_roomSupply
  obtain ⟨d, ids, hd', hadd⟩ := exists_add_of_status offers_roomSupply hstatus
  obtain rfl := Except.ok.inj (hd.symm.trans hd')
  refine ⟨_, hstatus, ?_⟩
  rw [Supply.arrival, handleAll_single,
    (Prod.mk.inj (Except.ok.inj (add_roomSupply.symm.trans hadd))).1]

def roomCommand : QueryCommand := ⟨"q.json", [], [roomSupply.file], ⟨1⟩⟩

theorem isGivable_roomCommand : roomCommand.IsGivable := by
  refine ⟨fun s hs => (nomatch hs), fun s hs => ?_, by decide, by decide⟩
  rw [List.mem_singleton.mp hs]
  exact ⟨by decide, by decide, by decide⟩

theorem status_nameQuery (time : Timestamp) :
    (handle roomLimits time nameQuery roomStore).1.status = 200 := by
  have hrows : Query.perform nameDocument roomStore 1 = .ok [⟨[("a_name", .text "")]⟩] := by cbv
  rw [handle_of_perform demand_nameQuery json_nameQuery hrows]
  rfl

/-- The name of the room is in both answers. -/
theorem run_agrees_rooms :
    Command.ofArgs? roomCommand.arguments (fun _ => none) = some (.query roomCommand) ∧
      ∃ response : Response, handleAll roomLimits .empty [roomSupply.arrival] = ([response], roomStore) ∧
        response.status = 200 ∧ (handle roomLimits .epoch nameQuery roomStore).1.status = 200 ∧
        Agrees ((Command.query roomCommand).run nameFiles .epoch)
          (handle roomLimits .epoch nameQuery roomStore).1 := by
  have hrooms : ∀ s ∈ [roomSupply], s.Offers roomLimits nameFiles .rooms :=
    List.forall_mem_singleton.mpr offers_roomSupply
  have hsections : ∀ s ∈ ([] : List Supply), s.Offers roomLimits nameFiles .sections :=
    List.forall_mem_nil _
  obtain ⟨hargs, hagrees, -⟩ := run_agrees le_rfl hsections hrooms isGivable_roomCommand
    demand_nameQuery json_nameQuery readJson_nameFiles.2 (fun _ => none) .epoch .epoch
  obtain ⟨response, hstatus, huploads⟩ := handleAll_roomSupply
  rw [List.nil_append, List.map_singleton, huploads, List.forall_mem_singleton] at hagrees
  exact ⟨hargs, response, huploads, hstatus, status_nameQuery .epoch, hagrees hstatus⟩

end QueryCommand

end CampusQuery
