import CampusQuery.Proofs.Dataset.Lookup
import Mathlib.Data.List.Induction

namespace CampusQuery

open Outcome

inductive Operation where
  | add (d : Dataset)
  | remove (id : String)
  | get (id : String)
  | list
deriving DecidableEq, Repr

inductive Reply where
  | loaded (ids : List String)
  | removed (id : String)
  | found (d : Dataset)
  | listing (loaded : List DatasetInfo)
  | refused (e : StoreError)
deriving DecidableEq, Repr

structure Event where
  operation : Operation
  reply : Reply
deriving DecidableEq, Repr

namespace Event

/-- The id whose dataset is another one after the event. -/
def changed? : Event → Option String
  | ⟨.add d, .loaded _⟩ => some d.id
  | ⟨.remove id, .removed _⟩ => some id
  | _ => none

end Event

/-- The last change under the id was to add the dataset. -/
def LastAdded (log : List Event) (id : String) (d : Dataset) : Prop :=
  ∃ before ids behind, log = before ++ ⟨.add d, .loaded ids⟩ :: behind ∧ d.id = id ∧
    ∀ e ∈ behind, e.changed? ≠ some id

namespace Store

def serve (s : Store) : Operation → Reply × Store
  | .add d =>
    match s.add d with
    | .ok (s', ids) => (.loaded ids, s')
    | .error e => (.refused e, s)
  | .remove id =>
    match s.remove id with
    | .ok s' => (.removed id, s')
    | .error e => (.refused e, s)
  | .get id =>
    match s.get id with
    | .ok d => (.found d, s)
    | .error e => (.refused e, s)
  | .list =>
    match s.list with
    | .ok loaded => (.listing loaded, s)
    | .error e => (.refused e, s)

def run (s : Store) : List Operation → List Event × Store
  | [] => ([], s)
  | op :: ops =>
    let (log, final) := (s.serve op).2.run ops
    (⟨op, (s.serve op).1⟩ :: log, final)

/-- The replies that an operation can have, with the store behind it, by what is found before and
after. The first hindrance is the one that is reported. -/
inductive Answers (s : Store) : Operation → Reply → Store → Prop
  | addInvalid {d : Dataset} (hid : isDatasetId d.id = false) :
      Answers s (.add d) (.refused (.invalidId d.id)) s
  | addEmpty {d : Dataset} (hid : isDatasetId d.id = true) (hd : d.records = []) :
      Answers s (.add d) (.refused (.emptyDataset d.id)) s
  | addTaken {d : Dataset} (hid : isDatasetId d.id = true) (hd : d.records ≠ [])
      (taken : ∃ e, s.get d.id = .ok e) : Answers s (.add d) (.refused (.alreadyExists d.id)) s
  | added {d : Dataset} {ids : List String} {s' : Store} (h : s.Adds d s' ids) :
      Answers s (.add d) (.loaded ids) s'
  | removeInvalid {id : String} (hid : isDatasetId id = false) :
      Answers s (.remove id) (.refused (.invalidId id)) s
  | removeAbsent {id : String} (hid : isDatasetId id = true)
      (absent : s.get id = .error (.notFound id)) : Answers s (.remove id) (.refused (.notFound id)) s
  | removed {id : String} {s' : Store} (h : s.Removes id s') :
      Answers s (.remove id) (.removed id) s'
  | found {id : String} {d : Dataset} (h : s.get id = .ok d) : Answers s (.get id) (.found d) s
  | notFound {id : String} (h : s.get id = .error (.notFound id)) :
      Answers s (.get id) (.refused (.notFound id)) s
  | listed {ids : List String} {infos : List DatasetInfo} (hids : s.HasIds ids)
      (h : List.Forall₂ (fun id info => ∃ d, s.get id = .ok d ∧
        info = ⟨id, d.kind, d.records.length, d.loadedAt⟩) ids infos) :
      Answers s .list (.listing infos) s

variable {s s' : Store} {op : Operation} {reply : Reply}

theorem Reachable.serve (h : s.Reachable) (op : Operation) : (s.serve op).2.Reachable := by
  cases op with
  | add d =>
    rw [Store.serve]
    split
    · exact .add h (by assumption)
    · exact h
  | remove id =>
    rw [Store.serve]
    split
    · exact .remove h (by assumption)
    · exact h
  | get id =>
    rw [Store.serve]
    split <;> exact h
  | list =>
    rw [Store.serve]
    split <;> exact h

theorem Reachable.answers_add (h : s.Reachable) (d : Dataset) :
    s.Answers (.add d) (s.serve (.add d)).1 (s.serve (.add d)).2 := by
  rw [Store.serve]
  cases hadd : s.add d with
  | ok p => exact .added (h.adds hadd)
  | error e =>
    obtain ⟨r, rfl, -, -⟩ := h.exists_registry
    by_cases hid : isDatasetId d.id = true
    · by_cases hd : d.records = []
      · rw [ready_add_of_empty hid hd] at hadd
        cases hadd
        exact .addEmpty hid hd
      · cases hget : r.get d.id with
        | ok e =>
          rw [ready_add_of_taken hid hd hget] at hadd
          cases hadd
          exact .addTaken hid hd ⟨e, hget⟩
        | error e =>
          obtain rfl := (Registry.get_eq_error.mp hget).2
          cases hadd.symm.trans (ready_add_eq_ok_of_get.mpr ⟨hid, hd, hget, rfl, rfl⟩)
    · have hid := Bool.not_eq_true _ ▸ hid
      rw [ready_add_of_invalid hid] at hadd
      cases hadd
      exact .addInvalid hid

theorem Reachable.answers_remove (h : s.Reachable) (id : String) :
    s.Answers (.remove id) (s.serve (.remove id)).1 (s.serve (.remove id)).2 := by
  rw [Store.serve]
  cases hremove : s.remove id with
  | ok s' => exact .removed (h.removes hremove)
  | error e =>
    obtain ⟨r, rfl, -, -⟩ := h.exists_registry
    by_cases hid : isDatasetId id = true
    · cases hget : r.get id with
      | ok d => cases hremove.symm.trans (ready_remove_eq_ok_of_get.mpr ⟨hid, ⟨d, hget⟩, rfl⟩)
      | error e' =>
        rw [ready_remove_of_absent hid hget] at hremove
        cases hremove
        obtain rfl := (Registry.get_eq_error.mp hget).2
        exact .removeAbsent hid hget
    · have hid := Bool.not_eq_true _ ▸ hid
      rw [ready_remove_of_invalid hid] at hremove
      cases hremove
      exact .removeInvalid hid

theorem Reachable.answers_list (h : s.Reachable) :
    s.Answers .list (s.serve .list).1 (s.serve .list).2 := by
  obtain ⟨r, rfl, hsound, hr⟩ := h.exists_registry
  refine .listed (hasIds_ready hr) ?_
  rw [Registry.ids, Registry.list, Keyed.keys, List.forall₂_map_left_iff,
    List.forall₂_map_right_iff, List.forall₂_same]
  rintro ⟨id, d⟩ hmem
  refine ⟨d, Registry.get_eq_ok.mpr (hr.get?_of_mem hmem), ?_⟩
  rw [← (hsound id d hmem).id_eq]
  rfl

theorem Reachable.answers (h : s.Reachable) (op : Operation) :
    s.Answers op (s.serve op).1 (s.serve op).2 := by
  cases op with
  | add d => exact h.answers_add d
  | remove id => exact h.answers_remove id
  | get id =>
    rw [Store.serve]
    cases hget : s.get id with
    | ok d => exact .found hget
    | error e =>
      obtain rfl := h.get_eq_error hget
      exact .notFound hget
  | list => exact h.answers_list

/-- After an operation an id has the dataset that was just added under it, or, if it was not
changed, the one that it had. -/
theorem Answers.get_eq_ok (h : s.Answers op reply s') {id : String} {d : Dataset} :
    s'.get id = .ok d ↔ (∃ ids, Event.mk op reply = ⟨.add d, .loaded ids⟩ ∧ d.id = id) ∨
      (Event.mk op reply).changed? ≠ some id ∧ s.get id = .ok d := by
  cases h with
  | @added e ids _ hadds =>
    rw [hadds.get]
    split
    · rename_i heq
      constructor
      · rintro ⟨⟩
        exact .inl ⟨ids, rfl, heq.symm⟩
      · rintro (⟨_, hadd, -⟩ | ⟨hchanged, -⟩)
        · cases hadd
          rfl
        · exact absurd (congrArg some heq.symm) hchanged
    · rename_i hne
      constructor
      · intro hd
        exact .inr ⟨fun hchanged => hne (Option.some.inj hchanged).symm, hd⟩
      · rintro (⟨_, hadd, heq⟩ | ⟨-, hd⟩)
        · cases hadd
          exact absurd heq.symm hne
        · exact hd
  | @removed id' _ hremoves =>
    have hchanged : (Event.mk (.remove id') (.removed id')).changed? = some id' := rfl
    rw [hremoves.get, hchanged]
    split
    · rename_i heq
      rw [heq]
      simp
    · rename_i hne
      simp [Ne.symm hne]
  -- No other event changes what is found.
  | _ => simp [Event.changed?]

theorem run_append (s : Store) (ops more : List Operation) :
    s.run (ops ++ more) =
      ((s.run ops).1 ++ ((s.run ops).2.run more).1, ((s.run ops).2.run more).2) := by
  induction ops generalizing s with
  | nil => rfl
  | cons op ops ih => rw [List.cons_append, run, ih, run, List.cons_append]

theorem Reachable.run (h : s.Reachable) (ops : List Operation) : (s.run ops).2.Reachable := by
  induction ops generalizing s with
  | nil => exact h
  | cons op ops ih => exact ih (h.serve op)

end Store

theorem lastAdded_concat {log : List Event} {e : Event} {id : String} {d : Dataset} :
    LastAdded (log ++ [e]) id d ↔ (∃ ids, e = ⟨.add d, .loaded ids⟩ ∧ d.id = id) ∨
      e.changed? ≠ some id ∧ LastAdded log id d := by
  constructor
  · rintro ⟨before, ids, behind, hlog, hid, hbehind⟩
    rcases List.eq_nil_or_concat' behind with rfl | ⟨middle, last, rfl⟩
    · obtain ⟨-, he⟩ := List.append_inj' hlog rfl
      exact .inl ⟨ids, List.singleton_inj.mp he, hid⟩
    · rw [← List.cons_append, ← List.append_assoc] at hlog
      obtain ⟨rfl, he⟩ := List.append_inj' hlog rfl
      obtain rfl := List.singleton_inj.mp he
      refine .inr ⟨hbehind e (by simp), before, ids, middle, rfl, hid, fun e' he' => ?_⟩
      exact hbehind e' (List.mem_append_left _ he')
  · rintro (⟨ids, rfl, hid⟩ | ⟨hchanged, before, ids, behind, rfl, hid, hbehind⟩)
    · exact ⟨log, ids, [], rfl, hid, by simp⟩
    · refine ⟨before, ids, behind ++ [e], by simp, hid, fun e' he' => ?_⟩
      rcases List.mem_append.mp he' with he' | he'
      · exact hbehind e' he'
      · exact List.mem_singleton.mp he' ▸ hchanged

namespace Store

theorem get_run (ops : List Operation) (id : String) (d : Dataset) :
    (empty.run ops).2.get id = .ok d ↔ LastAdded (empty.run ops).1 id d := by
  induction ops using List.reverseRecOn with
  | nil =>
    constructor
    · rintro ⟨⟩
    · rintro ⟨before, ids, behind, hlog, -, -⟩
      simp [run] at hlog
  | append_singleton ops op ih =>
    have hstep := (Reachable.empty.run ops).answers op
    rw [run_append, run, run, lastAdded_concat, ← ih]
    exact hstep.get_eq_ok

/-- The registry is the map that the events tell of. -/
structure IsMapOf (s : Store) (log : List Event) : Prop where
  sound : ∃ r, s = .ready r ∧ r.Sound
  get_eq_ok : ∀ id d, s.get id = .ok d ↔ LastAdded log id d
  get_eq_error : ∀ id e, s.get id = .error e → e = .notFound id
  get_of_invalid : ∀ id, isDatasetId id = false → s.get id = .error (.notFound id)
  answers : ∀ op, s.Answers op (s.serve op).1 (s.serve op).2

/-- From the start on a registry is, after any run, the map that its events tell of; what comes
later changes nothing of the events that there were, with the datasets they have handed out. -/
theorem run_isMapOf (ops more : List Operation) :
    (empty.run ops).2.IsMapOf (empty.run ops).1 ∧
      (empty.run ops).1 <+: (empty.run (ops ++ more)).1 := by
  have reach := Reachable.empty.run ops
  constructor
  · constructor
    · exact reach.exists_sound
    · exact get_run ops
    · exact fun id e he => reach.get_eq_error he
    · intro id hid
      cases hget : (empty.run ops).2.get id with
      | ok d =>
        obtain ⟨r, hr, hsound⟩ := reach.exists_sound
        rw [hr] at hget
        have hentry := hsound id d (mem_of_get hget)
        exact absurd hentry.isDatasetId (by simp [hid])
      | error e => rw [reach.get_eq_error hget]
    · exact reach.answers
  · rw [run_append]
    exact List.prefix_append _ _

/-- An id is taken until it is removed. -/
example :
    let d := Dataset.ofGrades [("a", .zero)]
    (empty.run [.add d, .add d, .remove "c", .get "c", .add { d with id := "a_b" }]).1.map
      (·.reply) = [.loaded ["c"], .refused (.alreadyExists "c"), .removed "c",
        .refused (.notFound "c"), .refused (.invalidId "a_b")] := by
  decide

end Store

end CampusQuery
