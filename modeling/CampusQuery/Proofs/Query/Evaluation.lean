import CampusQuery.Proofs.Outcome
import CampusQuery.Query.Evaluate

namespace CampusQuery

open Outcome

namespace Record

variable {r : Record} {field : String}

theorem cell_eq_ok {c : Cell} :
    r.cell field = .ok c ↔ r (FieldName.attributeName field) = some c := by
  unfold cell
  split <;> simp_all

theorem number_eq_ok {x : Binary64} :
    r.number field = .ok x ↔ r (FieldName.attributeName field) = some (.number x) := by
  simp only [number, bind_eq_ok, cell_eq_ok]
  constructor
  · rintro ⟨c, hc, h⟩
    cases c with
    | number y => rw [hc, pure_eq_ok.mp h]
    | text s => exact (throw_ne_ok h).elim
  · intro h
    exact ⟨_, h, rfl⟩

theorem text_eq_ok {s : String} :
    r.text field = .ok s ↔ r (FieldName.attributeName field) = some (.text s) := by
  simp only [text, bind_eq_ok, cell_eq_ok]
  constructor
  · rintro ⟨c, hc, h⟩
    cases c with
    | text t => rw [hc, pure_eq_ok.mp h]
    | number x => exact (throw_ne_ok h).elim
  · intro h
    exact ⟨_, h, rfl⟩

end Record

namespace Filter

section Operands

variable {r : Record} {op : Connective} {f : Filter} {fs : List Filter}

theorem eval_not (f : Filter) : (not f).eval r = (f.eval r).map (!·) := by
  rw [eval]
  cases f.eval r <;> rfl

theorem evalOperands_cons_of_error {e : Failure} (h : f.eval r = .error e) :
    evalOperands r op (f :: fs) = .error e := by
  rw [evalOperands, h]
  rfl

theorem evalOperands_cons_of_ok {b : Bool} (h : f.eval r = .ok b) :
    evalOperands r op (f :: fs) =
      if b = op.decisive then .ok op.decisive else evalOperands r op fs := by
  rw [evalOperands, h]
  rfl

/-- Where all operands succeed, one that decides makes the outcome, wherever it stands. -/
theorem exists_evalOperands (h : ∀ f ∈ fs, ∃ b, f.eval r = .ok b) (op : Connective) :
    ∃ b, evalOperands r op fs = .ok b ∧
      (b = op.decisive ↔ ∃ f ∈ fs, f.eval r = .ok op.decisive) := by
  induction fs with
  | nil => exact ⟨!op.decisive, rfl, by simp⟩
  | cons f fs ih =>
    rw [List.forall_mem_cons] at h
    obtain ⟨⟨b, hb⟩, hfs⟩ := h
    obtain ⟨rest, hrest, hiff⟩ := ih hfs
    simp only [evalOperands_cons_of_ok hb, List.mem_cons, exists_eq_or_imp, hb, Except.ok.injEq]
    by_cases hd : b = op.decisive
    · exact ⟨op.decisive, if_pos hd, by simp [hd]⟩
    · exact ⟨rest, (if_neg hd).trans hrest, by rw [hiff, or_iff_right hd]⟩

end Operands

/-- The condition is met; it is not where its evaluation fails. -/
def holds (f : Filter) (r : Record) : Bool :=
  match f.eval r with
  | .ok b => b
  | .error _ => false

theorem holds_of_eval {f : Filter} {r : Record} {b : Bool} (h : f.eval r = .ok b) :
    f.holds r = b := by
  rw [holds, h]

theorem select_cons {f : Filter} {r : Record} {b : Bool} (h : f.eval r = .ok b)
    (rs : List Record) :
    f.select (r :: rs) = if b then (f.select rs).map (r :: ·) else f.select rs := by
  rw [select, h]
  cases b <;> rfl

theorem select_eq_ok {f : Filter} {records matching : List Record} :
    f.select records = .ok matching ↔
      (∀ r ∈ records, ∃ b, f.eval r = .ok b) ∧ matching = records.filter f.holds := by
  induction records generalizing matching with
  | nil => simp [select, eq_comm]
  | cons r rs ih =>
    rw [List.forall_mem_cons, List.filter_cons]
    cases hr : f.eval r with
    | error e =>
      rw [select, hr]
      constructor
      · intro h
        cases h
      · rintro ⟨⟨⟨b, hb⟩, -⟩, -⟩
        cases hb
    | ok b =>
      rw [select_cons hr, holds_of_eval hr]
      cases b with
      | false => simp [ih]
      | true =>
        -- The record itself is selected in front of those behind it.
        rw [if_pos rfl, map_eq_ok]
        simp only [ih]
        constructor
        · rintro ⟨rest, ⟨hall, rfl⟩, rfl⟩
          exact ⟨⟨⟨true, rfl⟩, hall⟩, rfl⟩
        · rintro ⟨⟨-, hall⟩, rfl⟩
          exact ⟨_, ⟨hall, rfl⟩, rfl⟩

/-- Records behind one on which the condition fails are not looked at. -/
theorem select_of_first_error {f : Filter} {before : List Record} {r : Record} {e : Failure}
    (hbefore : ∀ s ∈ before, ∃ b, f.eval s = .ok b) (hr : f.eval r = .error e)
    (behind : List Record) : f.select (before ++ r :: behind) = .error e := by
  induction before with
  | nil =>
    rw [List.nil_append, select, hr]
    rfl
  | cons s before ih =>
    rw [List.forall_mem_cons] at hbefore
    obtain ⟨⟨b, hb⟩, hbefore⟩ := hbefore
    rw [List.cons_append, select_cons hb, ih hbefore]
    cases b <;> rfl

end Filter

end CampusQuery
