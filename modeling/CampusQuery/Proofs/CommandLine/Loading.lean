import CampusQuery.CommandLine
import CampusQuery.Proofs.Query.Locality
import CampusQuery.Proofs.Service.Demand

namespace CampusQuery

open Outcome

/-- Under every id queries find the same in both stores. -/
structure Store.Twins (s s' : Store) : Prop where
  left : s.Reachable
  right : s'.Reachable
  get : ∀ id, Lookalike (s.get id) (s'.get id)

theorem Lookalike.symm {x y : Except StoreError Dataset} (h : Lookalike x y) : Lookalike y x := by
  cases h with
  | absent => exact .absent
  | found hkind hrecords => exact .found hkind.symm hrecords.symm

namespace Store.Twins

variable {s s' : Store} {d d' : Dataset}

theorem symm (h : s.Twins s') : s'.Twins s := ⟨h.right, h.left, fun id => (h.get id).symm⟩

theorem empty : Store.empty.Twins .empty := ⟨.empty, .empty, fun _ => .refl _⟩

/-- What can be added to one can be added to the other. -/
theorem add (h : s.Twins s') (hid : d.id = d'.id) (hcontents : d.contents = d'.contents)
    {t : Store} {ids : List String} (hadd : s.add d = .ok (t, ids)) :
    ∃ t' ids', s'.add d' = .ok (t', ids') ∧ t.Twins t' := by
  have hkind : d.kind = d'.kind := congrArg Contents.kind hcontents
  have hrecords : d.records = d'.records := congrArg Contents.records hcontents
  have adds := h.left.adds hadd
  obtain ⟨r', rfl, -, -⟩ := h.right.exists_registry
  have hfresh : (ready r').get d'.id = .error (.notFound d'.id) := by
    have hlook := h.get d.id
    rw [adds.fresh, hid] at hlook
    cases hget : (ready r').get d'.id with
    | ok e => rw [hget] at hlook; cases hlook
    | error e => rw [h.right.get_eq_error hget]
  have hadd' := ready_add_eq_ok_of_get.mpr ⟨hid ▸ adds.isDatasetId, hrecords ▸ adds.records_ne, hfresh, rfl,
    rfl⟩
  refine ⟨_, _, hadd', .add h.left hadd, .add h.right hadd', fun id => ?_⟩
  rw [adds.get, (h.right.adds hadd').get, hid]
  split
  · exact .found hkind hrecords
  · exact h.get id

theorem execute_eq (h : s.Twins s') (q : Query) (limit : ℕ) :
    q.execute s limit = q.execute s' limit :=
  Query.execute_congr h.left h.right (fun id _ => h.get id) limit

theorem perform_eq (h : s.Twins s') (document : Json) (limit : ℕ) :
    Query.perform document s limit = Query.perform document s' limit := by
  simp only [Query.perform, h.execute_eq]

end Store.Twins

/-- Rows under an id: the request that uploads them, when it arrives, and the file that holds them. -/
structure Supply where
  id : String
  rows : List Json
  request : Request
  time : Timestamp
  path : String

namespace Supply

def file (s : Supply) : FileSource := ⟨s.id, s.path⟩

def arrival (s : Supply) : Timestamp × Request := (s.time, s.request)

/-- The request asks for the upload of just these rows, within the limits, and the file holds them
as an array or under `result`. -/
structure Offers (limits : ServiceLimits) (files : Files) (kind : Kind) (s : Supply) : Prop where
  demand : Service.demand limits s.request = some (.upload s.id kind.name)
  body : Payload.rows limits.bodyLimit s.request = .ok s.rows
  held : ∃ v, QueryCommand.readJson files s.path = .ok v ∧ QueryCommand.rows? v = some s.rows

end Supply

namespace Service

def handleAll (limits : ServiceLimits) (store : Store) :
    List (Timestamp × Request) → List Response × Store
  | [] => ([], store)
  | (now, r) :: rest =>
    let (response, next) := handle limits now r store
    let (responses, final) := handleAll limits next rest
    (response :: responses, final)

theorem handleAll_single (limits : ServiceLimits) (store : Store) (now : Timestamp) (r : Request) :
    handleAll limits store [(now, r)] =
      ([(handle limits now r store).1], (handle limits now r store).2) := rfl

theorem handleAll_append (limits : ServiceLimits) (store : Store)
    (before behind : List (Timestamp × Request)) :
    handleAll limits store (before ++ behind) =
      ((handleAll limits store before).1 ++
        (handleAll limits (handleAll limits store before).2 behind).1,
        (handleAll limits (handleAll limits store before).2 behind).2) := by
  induction before generalizing store with
  | nil => rfl
  | cons p before ih => simp only [List.cons_append, handleAll, ih]

end Service

namespace QueryCommand

open Service

variable {limits : ServiceLimits} {files : Files} {kind : Kind} {s : Supply} {store store' : Store}

theorem ofRows_eq_ok_of_time {id : String} {rows : List Json} {now : Timestamp} {d : Dataset}
    (h : Dataset.ofRows id kind rows now = .ok d) (later : Timestamp) :
    ∃ d', Dataset.ofRows id kind rows later = .ok d' ∧ d.id = d'.id ∧ d.contents = d'.contents := by
  obtain ⟨contents, hcontents, rfl⟩ := map_eq_ok.mp h
  exact ⟨⟨id, contents, later⟩, by rw [Dataset.ofRows, hcontents]; rfl, rfl, rfl⟩

theorem load_eq_ok (h : s.Offers limits files kind) {now : Timestamp} {t : Store} :
    load files now kind store s.file = .ok t ↔
      ∃ d ids, Dataset.ofRows s.id kind s.rows now = .ok d ∧ store.add d = .ok (t, ids) := by
  obtain ⟨v, hread, hrows⟩ := h.held
  simp only [load, Supply.file, hread, ok_bind, hrows, bind_eq_ok, mapError_eq_ok, pure_eq_ok]
  constructor
  · rintro ⟨d, hd, ⟨t', ids⟩, hadd, rfl⟩
    exact ⟨d, ids, hd, hadd⟩
  · rintro ⟨d, ids, hd, hadd⟩
    exact ⟨d, hd, (t, ids), hadd, rfl⟩

theorem uploaded_of_ofRows (h : s.Offers limits files kind) {d : Dataset}
    (hid : isDatasetId s.id = true) :
    uploaded limits.bodyLimit s.time s.id kind.name s.request = .ok d ↔
      Dataset.ofRows s.id kind s.rows s.time = .ok d := by
  rw [uploaded_eq_ok]
  constructor
  · rintro ⟨-, k, rows, hk, hrows, hd⟩
    cases (Kind.ofName?_name kind).symm.trans hk
    cases h.body.symm.trans hrows
    exact hd
  · exact fun hd => ⟨hid, kind, s.rows, Kind.ofName?_name kind, h.body, hd⟩

theorem exists_add_of_status (h : s.Offers limits files kind)
    (hok : (handle limits s.time s.request store).1.status = 200) :
    ∃ d ids, Dataset.ofRows s.id kind s.rows s.time = .ok d ∧
      store.add d = .ok ((handle limits s.time s.request store).2, ids) := by
  rw [handle_eq_carryOut h.demand, carryOut] at hok ⊢
  rcases upload_cases limits.bodyLimit s.time s.id kind.name s.request store with
    ⟨response, hup, hstatus, -⟩ | ⟨d, t, ids, hd, hadd, hup⟩
  · rw [hup] at hok
    exact absurd hok hstatus
  · rw [hup]
    exact ⟨d, ids, (uploaded_of_ofRows h (uploaded_eq_ok.mp hd).1).mp hd, hadd⟩

theorem status_of_add (h : s.Offers limits files kind) (hreach : store.Reachable) {d : Dataset}
    (hd : Dataset.ofRows s.id kind s.rows s.time = .ok d) {t : Store} {ids : List String}
    (hadd : store.add d = .ok (t, ids)) :
    (handle limits s.time s.request store).1.status = 200 := by
  obtain ⟨contents, -, rfl⟩ := map_eq_ok.mp hd
  have hid : isDatasetId s.id = true := (hreach.adds hadd).isDatasetId
  rw [handle_of_uploaded h.demand ((uploaded_of_ofRows h hid).mpr hd) hadd]
  rfl

/-- The uploads all succeed and the files are loaded into a store like theirs, or neither. -/
structure Matches (uploads : List Response × Store) (loaded : Except Report Store) : Prop where
  success : (∀ response ∈ uploads.1, response.status = 200) →
    ∃ store, loaded = .ok store ∧ uploads.2.Twins store
  failure : ∀ response ∈ uploads.1, response.status ≠ 200 → ∃ report, loaded = .error report

theorem load_matches (h : s.Offers limits files kind) (twins : store.Twins store')
    (now : Timestamp) :
    Matches (handleAll limits store [(s.time, s.request)]) (load files now kind store' s.file) := by
  constructor
  · intro hok
    obtain ⟨d, ids, hd, hadd⟩ := exists_add_of_status h (hok _ (List.mem_singleton_self _))
    obtain ⟨d', hd', hid, hcontents⟩ := ofRows_eq_ok_of_time hd now
    obtain ⟨t', ids', hadd', ht⟩ := twins.add hid hcontents hadd
    exact ⟨t', (load_eq_ok h).mpr ⟨d', ids', hd', hadd'⟩, ht⟩
  · intro response hresponse hstatus
    obtain rfl := List.mem_singleton.mp hresponse
    cases hload : load files now kind store' s.file with
    | error report => exact ⟨report, rfl⟩
    | ok t' =>
      obtain ⟨d', ids', hd', hadd'⟩ := (load_eq_ok h).mp hload
      obtain ⟨d, hd, hid, hcontents⟩ := ofRows_eq_ok_of_time hd' s.time
      obtain ⟨t, ids, hadd, -⟩ := twins.symm.add hid hcontents hadd'
      exact absurd (status_of_add h twins.left hd hadd) hstatus

/-- Where more is uploaded and loaded behind, both still go the same way. -/
theorem Matches.append {before behind : List (Timestamp × Request)}
    {loaded : Except Report Store} {next : Store → Except Report Store}
    (h : Matches (handleAll limits store before) loaded)
    (hnext : ∀ store', (handleAll limits store before).2.Twins store' →
      Matches (handleAll limits (handleAll limits store before).2 behind) (next store')) :
    Matches (handleAll limits store (before ++ behind)) (loaded >>= next) := by
  rw [handleAll_append]
  constructor
  · intro hok
    rw [List.forall_mem_append] at hok
    obtain ⟨store', hloaded, twins⟩ := h.success hok.1
    rw [hloaded]
    exact (hnext store' twins).success hok.2
  · intro response hresponse hstatus
    -- If the files in front are loaded, a refusal is behind.
    cases hloaded : loaded with
    | error report => exact ⟨report, rfl⟩
    | ok store' =>
      by_cases hok : ∀ response ∈ (handleAll limits store before).1, response.status = 200
      · obtain ⟨_, hloaded', twins⟩ := h.success hok
        cases hloaded.symm.trans hloaded'
        rcases List.mem_append.mp hresponse with hbefore | hbehind
        · exact absurd (hok response hbefore) hstatus
        · exact (hnext store' twins).failure response hbehind hstatus
      · push Not at hok
        obtain ⟨refused, hrefused, hne⟩ := hok
        obtain ⟨report, herror⟩ := h.failure refused hrefused hne
        cases hloaded.symm.trans herror

theorem foldlM_load_matches {supplies : List Supply}
    (h : ∀ s ∈ supplies, s.Offers limits files kind) (twins : store.Twins store')
    (now : Timestamp) :
    Matches (handleAll limits store (supplies.map Supply.arrival))
      ((supplies.map Supply.file).foldlM (load files now kind) store') := by
  induction supplies generalizing store store' with
  | nil => exact ⟨fun _ => ⟨store', rfl, twins⟩, fun _ hresponse => nomatch hresponse⟩
  | cons s supplies ih =>
    rw [List.forall_mem_cons] at h
    have hfirst : Matches (handleAll limits store [s.arrival]) _ := load_matches h.1 twins now
    exact hfirst.append fun _ next => ih h.2 next

end QueryCommand

end CampusQuery
