import CampusQuery.Proofs.Dataset.Exclusion
import CampusQuery.Proofs.Service.Atomicity
import CampusQuery.Proofs.Service.Stages
import Mathlib

namespace CampusQuery.Service

structure Entry (ι : Type) where
  client : ι
  event : Event

/-- The registry and the stages of all requests, with all that the registry has been asked. -/
structure System (ι : Type) where
  store : Store
  stage : ι → Stage
  log : List (Entry ι)

namespace System

variable {ι : Type} [DecidableEq ι]

def start (s : Store) : System ι := ⟨s, fun _ => .received, []⟩

def step (limits : ServiceLimits) (requests : ι → Request) (sys : System ι) (i : ι)
    (now : Timestamp) : System ι :=
  match (sys.stage i).operation? with
  | some op =>
    let (reply, store) := sys.store.serve op
    { store
      stage := Function.update sys.stage i ((sys.stage i).resume reply)
      log := sys.log ++ [⟨i, op, reply⟩] }
  | none =>
    { sys with
      stage := Function.update sys.stage i
        ((sys.stage i).next limits now (requests i) sys.store) }

variable {limits : ServiceLimits} {requests : ι → Request} {sys : System ι} {i : ι}

-- The state is taken apart, so that `simp` takes a turn only once it knows the state before.
theorem step_mk (store : Store) (stage : ι → Stage) (log : List (Entry ι)) (now : Timestamp) :
    step limits requests ⟨store, stage, log⟩ i now =
      match (stage i).operation? with
      | some op =>
        ⟨(store.serve op).2, Function.update stage i ((stage i).resume (store.serve op).1),
          log ++ [⟨i, op, (store.serve op).1⟩]⟩
      | none => ⟨store, Function.update stage i ((stage i).next limits now (requests i) store), log⟩ :=
  rfl

theorem step_of_none (hop : (sys.stage i).operation? = none) (now : Timestamp) :
    sys.step limits requests i now = { sys with
      stage := Function.update sys.stage i
        ((sys.stage i).next limits now (requests i) sys.store) } := by
  rw [step, hop]

theorem step_of_some {op : Operation} (hop : (sys.stage i).operation? = some op)
    (now : Timestamp) : sys.step limits requests i now =
      { store := (sys.store.serve op).2
        stage := Function.update sys.stage i ((sys.stage i).resume (sys.store.serve op).1)
        log := sys.log ++ [⟨i, op, (sys.store.serve op).1⟩] } := by
  rw [step, hop]

def run (limits : ServiceLimits) (requests : ι → Request) (sys : System ι)
    (schedule : List (ι × Timestamp)) : System ι :=
  schedule.foldl (fun sys turn => sys.step limits requests turn.1 turn.2) sys

/-- A step leaves the stages of all other requests alone. -/
theorem exists_stage_step (limits : ServiceLimits) (requests : ι → Request) (sys : System ι)
    (i : ι) (now : Timestamp) : ∃ next,
    (sys.step limits requests i now).stage = Function.update sys.stage i next ∧
      next.remaining ≤ (sys.stage i).remaining - 1 := by
  cases hop : (sys.stage i).operation? with
  | none =>
    rw [step_of_none hop]
    exact ⟨_, rfl, Stage.remaining_next hop⟩
  | some op =>
    rw [step_of_some hop]
    exact ⟨_, rfl, Stage.remaining_resume hop sys.store⟩

theorem remaining_run (sys : System ι) (schedule : List (ι × Timestamp)) (i : ι) :
    ((sys.run limits requests schedule).stage i).remaining ≤
      (sys.stage i).remaining - (schedule.map (·.1)).count i := by
  induction schedule generalizing sys with
  | nil => exact Nat.le_refl _
  | cons turn schedule ih =>
    obtain ⟨j, now⟩ := turn
    obtain ⟨next, hstage, hnext⟩ := exists_stage_step limits requests sys j now
    have hrest : ((sys.run limits requests ((j, now) :: schedule)).stage i).remaining ≤ _ :=
      ih (sys.step limits requests j now)
    rw [hstage] at hrest
    rw [List.map_cons, List.count_cons]
    by_cases hj : i = j
    · subst hj
      rw [Function.update_self] at hrest
      rw [beq_self_eq_true, if_pos rfl]
      omega
    · rw [Function.update_of_ne hj] at hrest
      rw [if_neg (by simpa using Ne.symm hj), Nat.add_zero]
      exact hrest

theorem exists_answered (s : Store) {schedule : List (ι × Timestamp)}
    (h : 3 ≤ (schedule.map (·.1)).count i) : ∃ response,
      ((start s).run limits requests schedule).stage i = .answered response := by
  have hrun : (((start s).run limits requests schedule).stage i).remaining ≤
      3 - (schedule.map (·.1)).count i := remaining_run (start s) schedule i
  exact Stage.exists_answered (by omega)

end System

/-- The registry once it has served the operations of the log. -/
def after {ι : Type} (s : Store) (log : List (Entry ι)) : Store :=
  (s.run (log.map (·.event.operation))).2

/-- What holds after any steps: the log is a run of the registry that no client is in twice, who is in
it was served there, and all others wait. -/
structure IsLinear {ι : Type} (limits : ServiceLimits) (requests : ι → Request) (s : Store)
    (sys : System ι) : Prop where
  tells : s.Tells (sys.log.map (·.event)) sys.store
  nodup : (sys.log.map (·.client)).Nodup
  served : ∀ before e behind, sys.log = before ++ e :: behind →
    Served limits (requests e.client) (after s before) e.event (after s (before ++ [e]))
      (sys.stage e.client)
  waits : ∀ i, (∀ e ∈ sys.log, e.client ≠ i) →
    Waits limits (requests i) (fun σ => ∃ before, before <+: sys.log ∧ σ = after s before)
      (sys.stage i)

section

variable {ι : Type} {limits : ServiceLimits} {requests : ι → Request} {s : Store}

theorem after_of_tells {log : List (Entry ι)} {s' : Store}
    (h : s.Tells (log.map (·.event)) s') : after s log = s' := by
  unfold Store.Tells at h
  rw [List.map_map] at h
  exact congrArg Prod.snd h

theorem after_concat (s : Store) (log : List (Entry ι)) (e : Entry ι) :
    after s (log ++ [e]) = ((after s log).serve e.event.operation).2 := by
  rw [after, List.map_append, Store.run_append]
  rfl

theorem isLinear_start (s : Store) : IsLinear limits requests s (System.start s) where
  tells := Store.tells_nil.mpr rfl
  nodup := List.nodup_nil
  served before e behind h := by simp [System.start] at h
  waits i _ := .received

end

namespace IsLinear

variable {ι : Type} {limits : ServiceLimits} {requests : ι → Request} {s : Store}
  {sys : System ι} (h : IsLinear limits requests s sys) {i : ι}

include h

theorem absent_of_operation? {op : Operation} (hop : (sys.stage i).operation? = some op) :
    ∀ e ∈ sys.log, e.client ≠ i := by
  rintro e he rfl
  obtain ⟨before, behind, hlog⟩ := List.append_of_mem he
  obtain ⟨response, -, hresponse, -⟩ := (h.served before e behind hlog).response
  cases (Stage.response?_of_operation? hop).symm.trans hresponse

variable [DecidableEq ι]

theorem step_of_none (hop : (sys.stage i).operation? = none) (now : Timestamp) :
    IsLinear limits requests s (sys.step limits requests i now) := by
  rw [System.step_of_none hop]
  refine ⟨h.tells, h.nodup, fun before e behind hlog => ?_, fun j habsent => ?_⟩
  · have hserved := h.served before e behind hlog
    dsimp only
    by_cases hi : e.client = i
    · rw [hi, Function.update_self]
      rw [hi] at hserved
      exact hserved.next
    · rw [Function.update_of_ne hi]
      exact hserved
  · have hwaits := h.waits j habsent
    dsimp only
    by_cases hi : j = i
    · subst hi
      rw [Function.update_self]
      exact hwaits.next ⟨sys.log, List.prefix_rfl, (after_of_tells h.tells).symm⟩ hop
    · rw [Function.update_of_ne hi]
      exact hwaits

theorem step_of_some {op : Operation} (hop : (sys.stage i).operation? = some op) (now : Timestamp) :
    IsLinear limits requests s (sys.step limits requests i now) := by
  have habsent := h.absent_of_operation? hop
  have hstore := after_of_tells h.tells
  let new : Entry ι := ⟨i, op, (sys.store.serve op).1⟩
  have htells : s.Tells ((sys.log ++ [new]).map (·.event)) (sys.store.serve op).2 := by
    rw [List.map_append]
    exact Store.tells_append.mpr
      ⟨sys.store, h.tells, Store.tells_cons.mpr ⟨rfl, Store.tells_nil.mpr rfl⟩⟩
  rw [System.step_of_some hop]
  refine ⟨htells, ?_, fun before e behind hlog => ?_, fun j habsent' => ?_⟩
  · rw [List.map_append]
    refine h.nodup.append (List.nodup_singleton i) (List.disjoint_singleton.mpr ?_)
    rintro hmem
    obtain ⟨e, he, hi⟩ := List.mem_map.mp hmem
    exact habsent e he hi
  · rcases List.eq_nil_or_concat' behind with rfl | ⟨middle, last, rfl⟩
    · obtain ⟨rfl, he⟩ := List.append_inj' hlog rfl
      obtain rfl := List.singleton_inj.mp he
      have hserved := (h.waits i habsent).serve hop sys.store
      rw [hstore, after_of_tells htells]
      dsimp only [new]
      rw [Function.update_self]
      exact hserved
    · -- The entry was there before, so it is another client's.
      have hlog' : sys.log = before ++ e :: middle := by
        rw [← List.cons_append, ← List.append_assoc] at hlog
        exact (List.append_inj' hlog rfl).1
      have hi : e.client ≠ i := habsent e (hlog' ▸ List.mem_append_right _ List.mem_cons_self)
      dsimp only
      rw [Function.update_of_ne hi]
      exact h.served before e middle hlog'
  · have hi : j ≠ i := (habsent' new (List.mem_append_right _ List.mem_cons_self)).symm
    have hwaits := h.waits j fun e he => habsent' e (List.mem_append_left _ he)
    dsimp only
    rw [Function.update_of_ne hi]
    refine hwaits.imp ?_
    rintro σ ⟨before, hbefore, hσ⟩
    exact ⟨before, hbefore.trans (List.prefix_append _ _), hσ⟩

theorem step (i : ι) (now : Timestamp) :
    IsLinear limits requests s (sys.step limits requests i now) := by
  cases hop : (sys.stage i).operation? with
  | none => exact h.step_of_none hop now
  | some op => exact h.step_of_some hop now

theorem run (schedule : List (ι × Timestamp)) :
    IsLinear limits requests s (sys.run limits requests schedule) := by
  induction schedule generalizing sys with
  | nil => exact h
  | cons turn schedule ih => exact ih (h.step turn.1 turn.2)

end IsLinear

/-- The requests have the effects and the answers that they have one after the other, each at one
moment. -/
structure IsSequential {ι : Type} [DecidableEq ι] (limits : ServiceLimits) (requests : ι → Request)
    (s : Store) (schedule : List (ι × Timestamp)) (sys : System ι) : Prop where
  /-- Whoever has had three turns is answered, whatever the others do. -/
  progress : ∀ i, 3 ≤ (schedule.map (·.1)).count i → ∃ response, sys.stage i = .answered response
  /-- Served in the order of the log, the operations have the same replies and lead to the same
  registry. -/
  replay : s.run (sys.log.map (·.event.operation)) = (sys.log.map (·.event), sys.store)
  /-- A request asks the registry once at most, for what it comes to. -/
  nodup : (sys.log.map (·.client)).Nodup
  asks : ∀ e ∈ sys.log, Asks limits (requests e.client) e.event.operation
  /-- Uploads and deletions are answered with the reply of the registry. -/
  change : ∀ e ∈ sys.log, (∀ id, e.event.operation ≠ .get id) →
    ∃ response, e.event.reply.response? = some response ∧ sys.stage e.client = .answered response
  /-- The answer is that of the whole request at the moment of its one operation. -/
  served : ∀ before e behind response, sys.log = before ++ e :: behind →
    sys.stage e.client = .answered response → ∃ now,
      handle limits now (requests e.client) (after s before) =
        (response, after s (before ++ [e]))
  /-- Without an operation it is that of some moment, and without effect. -/
  unserved : ∀ i response, (∀ e ∈ sys.log, e.client ≠ i) → sys.stage i = .answered response →
    ∃ before now, before <+: sys.log ∧
      handle limits now (requests i) (after s before) = (response, after s before)
  /-- What is refused has no effect. -/
  refused : ∀ before e behind cause, sys.log = before ++ e :: behind →
    e.event.reply = .refused cause → after s (before ++ [e]) = after s before
  /-- From one removal under an id to the next, one upload succeeds under it. All others are refused,
  those with records because the id is taken. -/
  exclusive : ∀ (id : String) (before middle behind : List (Entry ι)) (first second : Entry ι),
    sys.log = before ++ first :: middle ++ second :: behind →
    first.event = ⟨.remove id, .removed id⟩ → second.event = ⟨.remove id, .removed id⟩ →
    (∀ e ∈ middle, e.event ≠ ⟨.remove id, .removed id⟩) →
    ∃ (earlier : List (Entry ι)) (winner : Entry ι) (later : List (Entry ι)),
      middle = earlier ++ winner :: later ∧
      (∃ d ids, winner.event = ⟨.add d, .loaded ids⟩ ∧ d.id = id) ∧
      ∀ e ∈ earlier ++ later, ∀ d, e.event.operation = .add d → d.id = id → ∃ cause,
        e.event.reply = .refused cause ∧ sys.stage e.client = .answered cause.response ∧
          (d.records ≠ [] → cause = .alreadyExists id)

namespace IsLinear

variable {ι : Type} {limits : ServiceLimits} {requests : ι → Request} {s : Store}
  {sys : System ι} (h : IsLinear limits requests s sys)

include h

theorem exists_served {e : Entry ι} (he : e ∈ sys.log) : ∃ before behind,
    sys.log = before ++ e :: behind ∧ Served limits (requests e.client) (after s before) e.event
      (after s (before ++ [e])) (sys.stage e.client) := by
  obtain ⟨before, behind, hlog⟩ := List.append_of_mem he
  exact ⟨before, behind, hlog, h.served before e behind hlog⟩

theorem change {e : Entry ι} (he : e ∈ sys.log) (hchange : ∀ id, e.event.operation ≠ .get id) :
    ∃ response, e.event.reply.response? = some response ∧
      sys.stage e.client = .answered response := by
  obtain ⟨_, _, -, hserved⟩ := h.exists_served he
  exact hserved.change hchange

theorem refused {before behind : List (Entry ι)} {e : Entry ι} {cause : StoreError}
    (hlog : sys.log = before ++ e :: behind) (hreply : e.event.reply = .refused cause) :
    after s (before ++ [e]) = after s before := by
  have htells := h.tells
  rw [hlog, List.map_append, List.map_cons] at htells
  obtain ⟨σ, hbefore, hbehind⟩ := Store.tells_append.mp htells
  rw [(Store.tells_cons.mp hbehind).1] at hreply
  rw [after_concat, after_of_tells hbefore, Store.serve_of_refused hreply]

theorem exclusive (reach : s.Reachable) {id : String} {before middle behind : List (Entry ι)}
    {first second : Entry ι} (hlog : sys.log = before ++ first :: middle ++ second :: behind)
    (hfirst : first.event = ⟨.remove id, .removed id⟩)
    (hsecond : second.event = ⟨.remove id, .removed id⟩)
    (hkept : ∀ e ∈ middle, e.event ≠ ⟨.remove id, .removed id⟩) :
    ∃ earlier winner later, middle = earlier ++ winner :: later ∧
      (∃ d ids, winner.event = ⟨.add d, .loaded ids⟩ ∧ d.id = id) ∧
      ∀ e ∈ earlier ++ later, ∀ d, e.event.operation = .add d → d.id = id → ∃ cause,
        e.event.reply = .refused cause ∧ sys.stage e.client = .answered cause.response ∧
          (d.records ≠ [] → cause = .alreadyExists id) := by
  have htells := h.tells
  rw [hlog] at htells
  simp only [List.map_append, List.map_cons, hfirst, hsecond] at htells
  have hkept' : ∀ e ∈ middle.map (·.event), e ≠ ⟨.remove id, .removed id⟩ := by
    simpa using hkept
  obtain ⟨earlier, d, ids, later, hmiddle, hd, hnone⟩ := htells.exists_addition reach hkept'
  obtain ⟨earlier, rest, rfl, rfl, hrest⟩ := List.map_eq_append_iff.mp hmiddle
  obtain ⟨winner, later, rfl, hwinner, rfl⟩ := List.map_eq_cons_iff.mp hrest
  refine ⟨earlier, winner, later, rfl, ⟨d, ids, hwinner, hd⟩, fun e he d' hadd hd' => ?_⟩
  have hevent : e.event ∈ earlier.map (·.event) ++ later.map (·.event) := by
    rw [← List.map_append]
    exact List.mem_map_of_mem he
  -- What the registry replies to an upload is what its client is told.
  obtain ⟨cause, hreply, hcause⟩ := hnone e.event hevent d' hadd hd'
  have hlogged : e ∈ sys.log := by
    rw [hlog]
    simp only [List.mem_append, List.mem_cons] at he ⊢
    tauto
  obtain ⟨response, hresponse, hstage⟩ := h.change hlogged fun id hget => by
    cases hadd.symm.trans hget
  rw [hreply] at hresponse
  cases hresponse
  exact ⟨cause, hreply, hstage, hcause⟩

theorem isSequential [DecidableEq ι] (reach : s.Reachable) {schedule : List (ι × Timestamp)}
    (hprogress : ∀ i, 3 ≤ (schedule.map (·.1)).count i → ∃ response,
      sys.stage i = .answered response) : IsSequential limits requests s schedule sys where
  progress := hprogress
  replay := by
    have htells := h.tells
    rw [Store.Tells, List.map_map] at htells
    exact htells
  nodup := h.nodup
  asks e he := by
    obtain ⟨_, _, -, hserved⟩ := h.exists_served he
    exact hserved.asks
  change e he := h.change he
  served before e behind response hlog hstage := by
    obtain ⟨response', now, hresponse, hhandle⟩ := (h.served before e behind hlog).response
    rw [hstage] at hresponse
    cases hresponse
    exact ⟨now, hhandle⟩
  unserved i response habsent hstage := by
    have hwaits := h.waits i habsent
    rw [hstage] at hwaits
    cases hwaits with
    | answered hs hhandle =>
      obtain ⟨before, hbefore, rfl⟩ := hs
      exact ⟨before, _, hbefore, hhandle⟩
  refused before e behind cause := h.refused
  exclusive id before middle behind first second := h.exclusive reach

end IsLinear

/-- Whatever the requests of any number of clients and the order of their steps. -/
theorem run_isSequential {ι : Type} [DecidableEq ι] {s : Store} (reach : s.Reachable)
    (limits : ServiceLimits) (requests : ι → Request) (schedule : List (ι × Timestamp)) :
    IsSequential limits requests s schedule ((System.start s).run limits requests schedule) :=
  ((isLinear_start s).run schedule).isSequential reach fun _ => System.exists_answered s

def laterRoom : Room := numberedRoom "2"

def laterRow : Json := numberedRow "2"

def laterUpload : Request := numberedUpload "2"

def roomDeletion : Request := ⟨"DELETE", "/api/v1/dataset/a", none, none, ""⟩

def numberQuery : Request where
  method := "POST"
  path := "/api/v1/query"
  contentType := some "application/json"
  contentLength := none
  body := "\x7b\"WHERE\":\x7b\x7d,\"OPTIONS\":\x7b\"COLUMNS\":[\"a_number\"]\x7d\x7d"

def numberDocument : Json :=
  .object
    [("OPTIONS", .object [("COLUMNS", .array [.string "a_number"])]), ("WHERE", .object [])]

theorem read?_laterUpload :
    Json.read? Json.maxDepth laterUpload.body.toList = some (.array [laterRow]) :=
  Json.read?_of_scanWithin 60 (by cbv) (by cbv)

theorem rows_laterUpload : Payload.rows 200 laterUpload = .ok [laterRow] :=
  Payload.rows_eq_ok.mpr
    ⟨_, Payload.text_eq_ok.mpr ⟨by cbv, by decide +kernel, rfl⟩, read?_laterUpload⟩

theorem read?_numberQuery :
    Json.read? Json.maxDepth numberQuery.body.toList = some numberDocument :=
  Json.read?_of_scanWithin 60 (by cbv) (by cbv)

theorem json_numberQuery : Payload.json 200 numberQuery = .ok numberDocument :=
  Payload.json_eq_ok.mpr
    ⟨_, Payload.text_eq_ok.mpr ⟨by cbv, by decide +kernel, rfl⟩, read?_numberQuery⟩

theorem next_roomUpload (now : Timestamp) (s : Store) :
    Stage.next roomLimits now roomUpload s .received = .building "a" .rooms [plainRow] := by
  have hchecked : checked 200 "a" "rooms" roomUpload = .ok (.rooms, [plainRow]) := by
    rw [checked, rows_roomUpload]
    rfl
  rw [Stage.next, start_of_upload demand_roomUpload hchecked]

theorem next_laterUpload (now : Timestamp) (s : Store) :
    Stage.next roomLimits now laterUpload s .received = .building "a" .rooms [laterRow] := by
  have hwish : demand roomLimits laterUpload = some (.upload "a" "rooms") := by cbv
  have hchecked : checked 200 "a" "rooms" laterUpload = .ok (.rooms, [laterRow]) := by
    rw [checked, rows_laterUpload]
    rfl
  rw [Stage.next, start_of_upload hwish hchecked]

theorem next_roomDeletion (now : Timestamp) (s : Store) :
    Stage.next roomLimits now roomDeletion s .received = .removing "a" := by
  have hwish : demand roomLimits roomDeletion = some (.delete "a") := by cbv
  rw [Stage.next, start_of_delete hwish]

def allNumbers : Query := ⟨.all, ["a_number"], none, none⟩

theorem next_numberQuery (now : Timestamp) (s : Store) :
    Stage.next roomLimits now numberQuery s .received = .looking allNumbers "a" := by
  have hwish : demand roomLimits numberQuery = some .query := by cbv
  have hasked : asked roomLimits numberQuery = .ok (allNumbers, "a") := by
    have hlimit : roomLimits.bodyLimit = 200 := rfl
    rw [asked, hlimit, json_numberQuery]
    cbv
  rw [Stage.next, start_of_query hwish hasked]

theorem next_building {row : Json} {room : Room} (hrow : Room.ofRow row = .ok room)
    (now : Timestamp) (r : Request) (s : Store) :
    Stage.next roomLimits now r s (.building "a" .rooms [row]) =
      .adding ⟨"a", .rooms [room], now⟩ := by
  have hd : Dataset.ofRows "a" .rooms [row] now = .ok ⟨"a", .rooms [room], now⟩ :=
    Dataset.ofRows_eq_ok.mpr ⟨rfl, rfl, rfl, .cons hrow .nil⟩
  rw [Stage.next, built, hd]
  rfl

/-- Three clients upload under one id, two take its dataset away and one queries it. -/
def roomRequests : Fin 6 → Request :=
  ![roomUpload, numberQuery, roomDeletion, laterUpload, roomUpload, roomDeletion]

/-- The query looks its dataset up, which is then removed and followed by another one, before the
query is evaluated. -/
def roomTurns : List (Fin 6 × Timestamp) :=
  [0, 0, 0, 1, 1, 2, 2, 4, 3, 3, 3, 4, 4, 1, 5, 5].map (·, .epoch)

def firstRooms : Dataset := ⟨"a", .rooms [plainRoom], .epoch⟩

def laterRooms : Dataset := ⟨"a", .rooms [laterRoom], .epoch⟩

def roomLog : List (Entry (Fin 6)) :=
  [⟨0, .add firstRooms, .loaded ["a"]⟩, ⟨1, .get "a", .found firstRooms⟩,
   ⟨2, .remove "a", .removed "a"⟩, ⟨3, .add laterRooms, .loaded ["a"]⟩,
   ⟨4, .add firstRooms, .refused (.alreadyExists "a")⟩, ⟨5, .remove "a", .removed "a"⟩]

theorem log_roomTurns :
    ((System.start .empty).run roomLimits roomRequests roomTurns).log = roomLog := by
  have hfirst : Store.empty.serve (.add firstRooms) =
      (.loaded ["a"], .ready ⟨[("a", firstRooms)]⟩) := by cbv
  have hget : (Store.ready ⟨[("a", firstRooms)]⟩).serve (.get "a") =
      (.found firstRooms, .ready ⟨[("a", firstRooms)]⟩) := by cbv
  have hremove (d : Dataset) : (Store.ready ⟨[("a", d)]⟩).serve (.remove "a") =
      (.removed "a", .empty) := by rfl
  have hlater : Store.empty.serve (.add laterRooms) =
      (.loaded ["a"], .ready ⟨[("a", laterRooms)]⟩) := by cbv
  have htaken : (Store.ready ⟨[("a", laterRooms)]⟩).serve (.add firstRooms) =
      (.refused (.alreadyExists "a"), .ready ⟨[("a", laterRooms)]⟩) := by cbv
  have hplain : Room.ofRow plainRow = .ok plainRoom := by cbv
  have hnext : Room.ofRow laterRow = .ok laterRoom := by cbv
  rw [firstRooms] at hfirst hget htaken
  rw [laterRooms] at hlater htaken
  simp [roomTurns, System.run, System.step_mk, System.start, roomRequests, next_roomUpload,
    next_laterUpload, next_roomDeletion, next_numberQuery, next_building hplain,
    next_building hnext, Stage.operation?, hfirst, hget, hremove, hlater, htaken,
    Stage.resume, Reply.response?, roomLog, firstRooms, laterRooms]

def firstNumbers : Response := .ok (.array [.object [("a_number", .string "1")]])

theorem handle_numberQuery (now : Timestamp) :
    (handle roomLimits now numberQuery (.ready ⟨[("a", firstRooms)]⟩)).1 = firstNumbers := by
  have hwish : demand roomLimits numberQuery = some .query := by cbv
  have hrows : Query.perform numberDocument (.ready ⟨[("a", firstRooms)]⟩) 1 =
      .ok [⟨[("a_number", .text "1")]⟩] := by decide +kernel
  rw [handle_of_perform hwish json_numberQuery hrows]
  rfl

section

variable {sys : System (Fin 6)} (h : IsSequential roomLimits roomRequests .empty roomTurns sys)
  (hlog : sys.log = roomLog)

include h hlog

/-- The query is answered from the first room and not from the later one. -/
theorem stage_numberQuery : sys.stage 1 = .answered firstNumbers := by
  obtain ⟨response, hresponse⟩ := h.progress 1 (by decide)
  obtain ⟨now, hhandle⟩ := h.served [_] _ _ response hlog hresponse
  obtain rfl : firstNumbers = response :=
    (handle_numberQuery now).symm.trans (congrArg Prod.fst hhandle)
  exact hresponse

/-- The upload that comes after the winning one is refused. -/
theorem stage_refusedUpload :
    sys.stage 4 = .answered (StoreError.alreadyExists "a").response := by
  obtain ⟨earlier, winner, later, hmiddle, ⟨d, ids, hwinner, -⟩, hrefused⟩ :=
    h.exclusive "a" [_, _] [_, _] [] _ _ hlog rfl rfl (by decide)
  have hfourth : ⟨4, .add firstRooms, .refused (.alreadyExists "a")⟩ ∈ earlier ++ later := by
    have hmem : (⟨4, .add firstRooms, .refused (.alreadyExists "a")⟩ : Entry (Fin 6)) ∈
        earlier ++ winner :: later := hmiddle ▸ .tail _ (.head _)
    rw [List.mem_append, List.mem_cons] at hmem
    refine List.mem_append.mpr (hmem.imp_right (Or.resolve_left · ?_))
    rintro rfl
    cases hwinner
  obtain ⟨cause, hcause, hstage, -⟩ := hrefused _ hfourth firstRooms rfl rfl
  cases hcause
  exact hstage

end

theorem run_isSequential_rooms :
    let sys := (System.start .empty).run roomLimits roomRequests roomTurns
    IsSequential roomLimits roomRequests .empty roomTurns sys ∧ sys.log = roomLog ∧
      sys.stage 1 = .answered firstNumbers ∧
      sys.stage 4 = .answered (StoreError.alreadyExists "a").response := by
  intro sys
  have hsys : IsSequential roomLimits roomRequests .empty roomTurns sys :=
    run_isSequential .empty roomLimits roomRequests roomTurns
  have hlog : sys.log = roomLog := log_roomTurns
  exact ⟨hsys, hlog, stage_numberQuery hsys hlog, stage_refusedUpload hsys hlog⟩

end CampusQuery.Service
