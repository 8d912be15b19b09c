import CampusQuery.Proofs.Dataset.History

namespace CampusQuery.Store

variable {s s' : Store} {op : Operation} {reply : Reply} {id : String} {log : List Event}

/-- The events are those of a run from the one store to the other. -/
def Tells (s : Store) (log : List Event) (s' : Store) : Prop :=
  s.run (log.map Event.operation) = (log, s')

theorem tells_nil : s.Tells [] s' ↔ s = s' := by
  simp [Tells, run]

theorem tells_cons {e : Event} : s.Tells (e :: log) s' ↔
    e.reply = (s.serve e.operation).1 ∧ (s.serve e.operation).2.Tells log s' := by
  obtain ⟨op, reply⟩ := e
  simp only [Tells, List.map_cons, run, List.cons.injEq, Event.mk.injEq, true_and, Prod.ext_iff,
    and_assoc]
  exact and_congr_left fun _ => eq_comm

theorem tells_append {before behind : List Event} : s.Tells (before ++ behind) s' ↔
    ∃ σ, s.Tells before σ ∧ σ.Tells behind s' := by
  induction before generalizing s with
  | nil => simp [tells_nil]
  | cons e before ih => simp [tells_cons, ih, and_assoc]

theorem Tells.reachable (h : s.Tells log s') (reach : s.Reachable) : s'.Reachable := by
  have hrun := reach.run (log.map Event.operation)
  rw [h] at hrun
  exact hrun

theorem serve_of_refused {cause : StoreError} (h : (s.serve op).1 = .refused cause) :
    (s.serve op).2 = s := by
  cases op with
  | add d =>
    rw [serve] at h ⊢
    split at h
    · cases h
    · rfl
  | remove id =>
    rw [serve] at h ⊢
    split at h
    · cases h
    · rfl
  | get id =>
    rw [serve]
    split <;> rfl
  | list =>
    rw [serve]
    split <;> rfl

/-- The event adds nothing under the id; records are turned away because the id is taken. -/
def AddsNone (id : String) (e : Event) : Prop :=
  ∀ d, e.operation = .add d → d.id = id →
    ∃ cause, e.reply = .refused cause ∧ (d.records ≠ [] → cause = .alreadyExists id)

theorem Answers.addsNone_of_loaded (h : s.Answers op reply s') (hid : isDatasetId id = true)
    (loaded : ∃ d, s.get id = .ok d) : AddsNone id ⟨op, reply⟩ := by
  rintro d rfl rfl
  obtain ⟨e, he⟩ := loaded
  cases h with
  | addInvalid hinvalid => cases hid.symm.trans hinvalid
  | addEmpty _ hd => exact ⟨_, rfl, fun hne => absurd hd hne⟩
  | addTaken => exact ⟨_, rfl, fun _ => rfl⟩
  | added hadds => cases he.symm.trans hadds.fresh

theorem Answers.addsNone_of_absent (h : s.Answers op reply s') (hid : isDatasetId id = true)
    {cause : StoreError} (absent : s'.get id = .error cause) : AddsNone id ⟨op, reply⟩ := by
  rintro d rfl rfl
  cases h with
  | addInvalid hinvalid => cases hid.symm.trans hinvalid
  | addEmpty _ hd => exact ⟨_, rfl, fun hne => absurd hd hne⟩
  | addTaken => exact ⟨_, rfl, fun _ => rfl⟩
  | added hadds => cases absent.symm.trans ((hadds.get d.id).trans (if_pos rfl))

/-- A loaded dataset stays until it is removed. -/
theorem Answers.loaded (h : s.Answers op reply s')
    (hkept : Event.mk op reply ≠ ⟨.remove id, .removed id⟩) (loaded : ∃ d, s.get id = .ok d) :
    ∃ d, s'.get id = .ok d := by
  obtain ⟨d, hd⟩ := loaded
  refine ⟨d, h.get_eq_ok.mpr (.inr ⟨fun hchanged => ?_, hd⟩)⟩
  cases h with
  | added hadds =>
    obtain rfl := Option.some.inj hchanged
    cases hd.symm.trans hadds.fresh
  | removed =>
    obtain rfl := Option.some.inj hchanged
    exact hkept rfl
  | _ => cases hchanged

theorem addsNone_of_loaded (reach : s.Reachable) (h : s.Tells log s')
    (hid : isDatasetId id = true) (loaded : ∃ d, s.get id = .ok d)
    (hkept : ∀ e ∈ log, e ≠ ⟨.remove id, .removed id⟩) : ∀ e ∈ log, AddsNone id e := by
  induction log generalizing s with
  | nil => simp
  | cons e log ih =>
    obtain ⟨hreply, hlog⟩ := tells_cons.mp h
    have hstep := reach.answers e.operation
    rw [← hreply] at hstep
    rw [List.forall_mem_cons] at hkept ⊢
    refine ⟨hstep.addsNone_of_loaded hid loaded, ?_⟩
    exact ih (reach.serve e.operation) hlog (hstep.loaded hkept.1 loaded) hkept.2

/-- An id that is not found comes to be loaded by one addition, and all others are refused. -/
theorem exists_addition (reach : s.Reachable) (h : s.Tells log s') (hid : isDatasetId id = true)
    (absent : s.get id = .error (.notFound id)) (loaded : ∃ d, s'.get id = .ok d)
    (hkept : ∀ e ∈ log, e ≠ ⟨.remove id, .removed id⟩) :
    ∃ before d ids behind, log = before ++ ⟨.add d, .loaded ids⟩ :: behind ∧ d.id = id ∧
      ∀ e ∈ before ++ behind, AddsNone id e := by
  -- The addition is the first event behind which the id is found.
  induction log generalizing s with
  | nil =>
    obtain rfl := tells_nil.mp h
    obtain ⟨d, hd⟩ := loaded
    cases absent.symm.trans hd
  | cons e log ih =>
    obtain ⟨hreply, hlog⟩ := tells_cons.mp h
    have hstep := reach.answers e.operation
    rw [← hreply] at hstep
    rw [List.forall_mem_cons] at hkept
    have reach' := reach.serve e.operation
    cases hget : (s.serve e.operation).2.get id with
    | ok d =>
      rcases hstep.get_eq_ok.mp hget with ⟨ids, hadded, hd⟩ | ⟨-, hbefore⟩
      · refine ⟨[], d, ids, log, congrArg (· :: log) hadded, hd, ?_⟩
        exact addsNone_of_loaded reach' hlog hid ⟨d, hget⟩ hkept.2
      · cases absent.symm.trans hbefore
    | error cause =>
      obtain rfl := reach'.get_eq_error hget
      obtain ⟨before, d, ids, behind, rfl, hd, hnone⟩ := ih reach' hlog hget hkept.2
      refine ⟨e :: before, d, ids, behind, rfl, hd, List.forall_mem_cons.mpr ⟨?_, hnone⟩⟩
      exact hstep.addsNone_of_absent hid hget

theorem Tells.removes (h : s.Tells (⟨.remove id, .removed id⟩ :: log) s') (reach : s.Reachable) :
    ∃ σ, s.Removes id σ ∧ σ.Reachable ∧ σ.Tells log s' := by
  obtain ⟨hreply, hlog⟩ := tells_cons.mp h
  have hstep := reach.answers (.remove id)
  rw [← hreply] at hstep
  refine ⟨_, ?_, reach.serve (.remove id), hlog⟩
  cases hstep with
  | removed hremoves => exact hremoves

/-- From one removal under an id to the next there is exactly one addition under it. -/
theorem Tells.exists_addition {before middle behind : List Event}
    (h : s.Tells (before ++ ⟨.remove id, .removed id⟩ :: middle ++
      ⟨.remove id, .removed id⟩ :: behind) s') (reach : s.Reachable)
    (hkept : ∀ e ∈ middle, e ≠ ⟨.remove id, .removed id⟩) :
    ∃ first d ids second, middle = first ++ ⟨.add d, .loaded ids⟩ :: second ∧ d.id = id ∧
      ∀ e ∈ first ++ second, AddsNone id e := by
  obtain ⟨later, hlater, hbehind⟩ := tells_append.mp h
  obtain ⟨earlier, hbefore, hmiddle⟩ := tells_append.mp hlater
  have hearlier := hbefore.reachable reach
  obtain ⟨σ, hremoves, hσ, hmiddle⟩ := hmiddle.removes hearlier
  obtain ⟨_, hremoves', -, -⟩ := hbehind.removes (hlater.reachable reach)
  exact Store.exists_addition hσ hmiddle hremoves.isDatasetId
    ((hremoves.get id).trans (if_pos rfl)) hremoves'.loaded hkept

end CampusQuery.Store
