import CampusQuery.Proofs.Dataset.History
import CampusQuery.Proofs.Service.Demand

namespace CampusQuery

open Outcome

def Reply.response? : Reply → Option Response
  | loaded ids => some (.ok (.array (ids.map .string)))
  | removed id => some (.ok (.string id))
  | refused e => some e.response
  | found _ | listing _ => none

namespace Service

def checked (limit : ℕ) (id kind : String) (r : Request) : Except Response (Kind × List Json) := do
  (checkDatasetId id).mapError StoreError.response
  let some k := Kind.ofName? kind | throw (.reject 400 "invalid_kind" (Kind.unknownMessage kind))
  let rows ← (Payload.rows limit r).mapError (.reject 400 "invalid_json" ·.message)
  return (k, rows)

def built (now : Timestamp) (id : String) (kind : Kind) (rows : List Json) :
    Except Response Dataset :=
  (Dataset.ofRows id kind rows now).mapError (.reject 400 "invalid_record" ·.message)

theorem uploaded_eq_bind (limit : ℕ) (now : Timestamp) (id kind : String) (r : Request) :
    uploaded limit now id kind r =
      checked limit id kind r >>= fun p => built now id p.1 p.2 := by
  unfold uploaded checked
  cases (checkDatasetId id).mapError StoreError.response with
  | error e => rfl
  | ok =>
    cases Kind.ofName? kind with
    | none => rfl
    | some k =>
      cases (Payload.rows limit r).mapError (Response.reject 400 "invalid_json" ·.message) <;> rfl

def asked (limits : ServiceLimits) (r : Request) : Except Response (Query × String) := do
  let document ← (Payload.json limits.bodyLimit r).mapError
    (.reject 400 Category.structural.code ·.message)
  let q ← (Query.ofJson document).mapError fun e => (QueryError.document e).response
  q.check.mapError fun e => (QueryError.flaw e).response
  let id ← q.datasetId.mapError fun e => (QueryError.failure e).response
  return (q, id)

def unfound : StoreError → Failure
  | .notFound id => .datasetNotFound id
  | e => .storage e

def evaluated (limits : ServiceLimits) (q : Query) (d : Dataset) : Response :=
  match q.answer d with
  | .ok rows =>
    if limits.query.maxRows < rows.length then
      (QueryError.failure (.tooManyRows rows.length limits.query.maxRows)).response
    else .ok (.array (rows.map Row.toJson))
  | .error e => (QueryError.failure e).response

theorem query_eq (limits : ServiceLimits) (r : Request) (s : Store) :
    query limits r s =
      match asked limits r with
      | .error response => response
      | .ok (q, id) =>
        match s.get id with
        | .ok d => evaluated limits q d
        | .error e => (QueryError.failure (unfound e)).response := by
  -- All that comes before the look-up is `asked`, and all behind it is `evaluated`.
  unfold query asked
  cases hdocument : Payload.json limits.bodyLimit r with
  | error e => rfl
  | ok document =>
    simp only [ok_mapError, ok_bind, Query.perform]
    cases hq : Query.ofJson document with
    | error e => rfl
    | ok q =>
      simp only [ok_mapError, ok_bind]
      cases hcheck : q.check with
      | error e => rfl
      | ok =>
        simp only [ok_mapError, ok_bind, Query.execute, Query.resolve]
        cases hid : q.datasetId with
        | error e => rfl
        | ok id =>
          simp only [ok_mapError, ok_bind, pure, Except.pure]
          cases hd : s.get id with
          | error e => cases e <;> rfl
          | ok d =>
            simp only [ok_mapError, ok_bind, evaluated]
            cases hrows : q.answer d with
            | error e => rfl
            | ok rows =>
              simp only [ok_bind]
              by_cases hlimit : limits.query.maxRows < rows.length
              · rw [if_pos hlimit, if_pos hlimit]
                rfl
              · rw [if_neg hlimit, if_neg hlimit]
                rfl

/-- How far the answer to a request has come. The registry is asked at most once, between checks
that need nothing but the request and an evaluation that needs nothing but the dataset found. -/
inductive Stage where
  | received
  | building (id : String) (kind : Kind) (rows : List Json)
  | adding (d : Dataset)
  | removing (id : String)
  | looking (q : Query) (id : String)
  | evaluating (q : Query) (d : Dataset)
  | answered (response : Response)

namespace Stage

def operation? : Stage → Option Operation
  | adding d => some (.add d)
  | removing id => some (.remove id)
  | looking _ id => some (.get id)
  | _ => none

def resume : Stage → Reply → Stage
  | looking q _, .found d => evaluating q d
  | looking _ _, .refused e => answered (QueryError.failure (unfound e)).response
  | stage, reply => reply.response?.elim stage answered

/-- The first step: a request is checked as far as it can be without the registry. What is neither an
upload nor a deletion nor a query is answered at once. -/
def start (limits : ServiceLimits) (now : Timestamp) (r : Request) (s : Store) : Stage :=
  match demand limits r with
  | some (.upload id kind) =>
    match checked limits.bodyLimit id kind r with
    | .ok (k, rows) => building id k rows
    | .error response => answered response
  | some (.delete id) => removing id
  | some .query =>
    match asked limits r with
    | .ok (q, id) => looking q id
    | .error response => answered response
  | none => answered (handle limits now r s).1

def next (limits : ServiceLimits) (now : Timestamp) (r : Request) (s : Store) : Stage → Stage
  | received => start limits now r s
  | building id kind rows =>
    match built now id kind rows with
    | .ok d => adding d
    | .error response => answered response
  | evaluating q d => answered (evaluated limits q d)
  | stage => stage

/-- The response, if nothing can change it any more. -/
def response? (limits : ServiceLimits) : Stage → Option Response
  | evaluating q d => some (evaluated limits q d)
  | answered response => some response
  | _ => none

end Stage

/-- What is known of a request that has not asked the registry: each stage is what the checks before
it make of the request. An answer was possible in one of the states in `seen`. -/
inductive Waits (limits : ServiceLimits) (r : Request) (seen : Store → Prop) : Stage → Prop
  | received : Waits limits r seen .received
  | building {id name : String} {kind : Kind} {rows : List Json}
      (hwish : demand limits r = some (.upload id name))
      (h : checked limits.bodyLimit id name r = .ok (kind, rows)) :
      Waits limits r seen (.building id kind rows)
  | adding {d : Dataset} {name : String} {now : Timestamp}
      (hwish : demand limits r = some (.upload d.id name))
      (h : uploaded limits.bodyLimit now d.id name r = .ok d) : Waits limits r seen (.adding d)
  | removing {id : String} (hwish : demand limits r = some (.delete id)) :
      Waits limits r seen (.removing id)
  | looking {q : Query} {id : String} (hwish : demand limits r = some .query)
      (h : asked limits r = .ok (q, id)) : Waits limits r seen (.looking q id)
  | answered {response : Response} {s : Store} {now : Timestamp} (hs : seen s)
      (h : handle limits now r s = (response, s)) : Waits limits r seen (.answered response)

def Asks (limits : ServiceLimits) (r : Request) : Operation → Prop
  | .add d => ∃ name now, demand limits r = some (.upload d.id name) ∧
      uploaded limits.bodyLimit now d.id name r = .ok d
  | .remove id => demand limits r = some (.delete id)
  | .get id => demand limits r = some .query ∧ ∃ q, asked limits r = .ok (q, id)
  | .list => False

/-- What is known of a request that has asked the registry, in the state `s` with `s'` behind it: the
whole request would have had the response there, and one for a change is answered. -/
structure Served (limits : ServiceLimits) (r : Request) (s : Store) (e : Event) (s' : Store)
    (stage : Stage) : Prop where
  asks : Asks limits r e.operation
  response : ∃ response now, stage.response? limits = some response ∧
    handle limits now r s = (response, s')
  change : (∀ id, e.operation ≠ .get id) →
    ∃ response, e.reply.response? = some response ∧ stage = .answered response

variable {limits : ServiceLimits} {now : Timestamp} {r : Request} {s s' : Store}
  {seen : Store → Prop} {stage : Stage} {op : Operation} {e : Event}

theorem Stage.response?_of_operation? (h : stage.operation? = some op) :
    stage.response? limits = none := by
  cases stage with
  | evaluating q d => cases h
  | answered response => cases h
  | _ => rfl

theorem Stage.response?_next {response : Response} (h : stage.response? limits = some response) :
    (stage.next limits now r s).response? limits = some response := by
  cases stage with
  | evaluating q d => exact h
  | answered response => exact h
  | _ => cases h

theorem start_of_upload {id name : String} {kind : Kind} {rows : List Json}
    (hwish : demand limits r = some (.upload id name))
    (h : checked limits.bodyLimit id name r = .ok (kind, rows)) :
    Stage.start limits now r s = .building id kind rows := by
  rw [Stage.start, hwish]
  simp only [h]

theorem start_of_delete {id : String} (hwish : demand limits r = some (.delete id)) :
    Stage.start limits now r s = .removing id := by
  rw [Stage.start, hwish]

theorem start_of_query {q : Query} {id : String} (hwish : demand limits r = some .query)
    (h : asked limits r = .ok (q, id)) : Stage.start limits now r s = .looking q id := by
  rw [Stage.start, hwish]
  simp only [h]

theorem waits_start (hs : seen s) : Waits limits r seen (Stage.start limits now r s) := by
  rw [Stage.start]
  cases hwish : demand limits r with
  | none =>
    have hsame : (handle limits now r s).2 = s := (handle_of_demand_eq_none hwish).1
    exact .answered hs (Prod.ext rfl hsame)
  | some wish =>
    have hhandle : handle limits now r s = carryOut limits now r s wish := handle_eq_carryOut hwish
    cases wish with
    | upload id name =>
      cases hchecked : checked limits.bodyLimit id name r with
      | ok p =>
        simp only [hchecked]
        exact .building hwish hchecked
      | error response =>
        have huploaded := uploaded_eq_bind limits.bodyLimit now id name r
        rw [hchecked] at huploaded
        simp only [hchecked]
        refine .answered hs (hhandle.trans ?_)
        rw [carryOut, upload, huploaded]
        rfl
    | delete id => exact .removing hwish
    | query =>
      cases hasked : asked limits r with
      | ok p =>
        exact .looking hwish hasked
      | error response =>
        refine .answered hs (hhandle.trans ?_)
        rw [carryOut, query_eq, hasked]

theorem Waits.next (h : Waits limits r seen stage) (hs : seen s) (hop : stage.operation? = none) :
    Waits limits r seen (stage.next limits now r s) := by
  cases h with
  | received => exact waits_start hs
  | @building id name kind rows hwish h =>
    have huploaded := uploaded_eq_bind limits.bodyLimit now id name r
    rw [h, ok_bind] at huploaded
    rw [Stage.next]
    cases hbuilt : built now id kind rows with
    | ok d =>
      simp only [hbuilt] at huploaded
      obtain ⟨_, _, _, _, _, hd⟩ := uploaded_eq_ok.mp huploaded
      obtain ⟨rfl, -⟩ := Dataset.ofRows_eq_ok.mp hd
      exact .adding hwish huploaded
    | error response =>
      simp only [hbuilt] at huploaded
      have hhandle : handle limits now r s = _ := handle_eq_carryOut hwish
      refine .answered hs (hhandle.trans ?_)
      rw [carryOut, upload, huploaded]
  | answered hs h => exact .answered hs h
  | _ => cases hop

theorem Waits.imp {seen' : Store → Prop} (h : Waits limits r seen stage)
    (hseen : ∀ s, seen s → seen' s) : Waits limits r seen' stage := by
  cases h with
  | received => exact .received
  | building hwish h => exact .building hwish h
  | adding hwish h => exact .adding hwish h
  | removing hwish => exact .removing hwish
  | looking hwish h => exact .looking hwish h
  | answered hs h => exact .answered (hseen _ hs) h

/-- When the registry is asked, the request is as good as answered, in its present state. -/
theorem Waits.serve (h : Waits limits r seen stage) (hop : stage.operation? = some op)
    (s : Store) : Served limits r s ⟨op, (s.serve op).1⟩ (s.serve op).2
      (stage.resume (s.serve op).1) := by
  -- One case for each stage that asks; what the checks found before is all that it needs.
  cases h with
  | @adding d name now hwish h =>
    cases hop
    have hhandle : handle limits now r s = _ := handle_eq_carryOut hwish
    rw [carryOut, upload, h] at hhandle
    rw [Store.serve]
    cases hadd : s.add d with
    | ok p =>
      simp only [hadd] at hhandle
      exact ⟨⟨name, now, hwish, h⟩, ⟨_, now, rfl, hhandle⟩, fun _ => ⟨_, rfl, rfl⟩⟩
    | error e =>
      simp only [hadd] at hhandle
      exact ⟨⟨name, now, hwish, h⟩, ⟨_, now, rfl, hhandle⟩, fun _ => ⟨_, rfl, rfl⟩⟩
  | @removing id hwish =>
    cases hop
    have hhandle : handle limits .epoch r s = _ := handle_eq_carryOut hwish
    rw [carryOut, delete] at hhandle
    rw [Store.serve]
    cases hremove : s.remove id with
    | ok s' =>
      rw [hremove] at hhandle
      exact ⟨hwish, ⟨_, _, rfl, hhandle⟩, fun _ => ⟨_, rfl, rfl⟩⟩
    | error e =>
      rw [hremove] at hhandle
      exact ⟨hwish, ⟨_, _, rfl, hhandle⟩, fun _ => ⟨_, rfl, rfl⟩⟩
  | @looking q id hwish h =>
    cases hop
    have hhandle : handle limits .epoch r s = _ := handle_eq_carryOut hwish
    rw [carryOut, query_eq, h] at hhandle
    rw [Store.serve]
    cases hget : s.get id with
    | ok d =>
      simp only [hget] at hhandle
      exact ⟨⟨hwish, q, h⟩, ⟨_, _, rfl, hhandle⟩, fun hchange => absurd rfl (hchange id)⟩
    | error e =>
      simp only [hget] at hhandle
      exact ⟨⟨hwish, q, h⟩, ⟨_, _, rfl, hhandle⟩, fun hchange => absurd rfl (hchange id)⟩
  | _ => cases hop

theorem Served.next {σ : Store} (h : Served limits r s e s' stage) :
    Served limits r s e s' (stage.next limits now r σ) where
  asks := h.asks
  response := by
    obtain ⟨response, now, hresponse, hhandle⟩ := h.response
    exact ⟨response, now, Stage.response?_next hresponse, hhandle⟩
  change hchange := by
    obtain ⟨response, hresponse, rfl⟩ := h.change hchange
    exact ⟨response, hresponse, rfl⟩

namespace Stage

def remaining : Stage → ℕ
  | received => 3
  | building .. | looking .. => 2
  | adding _ | removing _ | evaluating .. => 1
  | answered _ => 0

theorem remaining_start (limits : ServiceLimits) (now : Timestamp) (r : Request) (s : Store) :
    (start limits now r s).remaining ≤ 2 := by
  rw [start]
  split
  · split <;> simp [remaining]
  · simp [remaining]
  · split <;> simp [remaining]
  · simp [remaining]

theorem remaining_next (hop : stage.operation? = none) :
    (stage.next limits now r s).remaining ≤ stage.remaining - 1 := by
  cases stage with
  | received => exact remaining_start limits now r s
  | building id kind rows =>
    rw [next]
    split <;> simp [remaining]
  | evaluating q d => exact Nat.le_refl 0
  | answered response => exact Nat.le_refl 0
  | _ => cases hop

theorem remaining_resume (hop : stage.operation? = some op) (s : Store) :
    (stage.resume (s.serve op).1).remaining ≤ stage.remaining - 1 := by
  cases stage with
  | adding d =>
    cases hop
    rw [Store.serve]
    split <;> simp [resume, Reply.response?, remaining]
  | removing id =>
    cases hop
    rw [Store.serve]
    split <;> simp [resume, Reply.response?, remaining]
  | looking q id =>
    cases hop
    rw [Store.serve]
    split <;> simp [resume, remaining]
  | _ => cases hop

theorem exists_answered (h : stage.remaining = 0) : ∃ response, stage = .answered response := by
  cases stage with
  | answered response => exact ⟨response, rfl⟩
  | _ => cases h

end Stage

end Service

end CampusQuery
