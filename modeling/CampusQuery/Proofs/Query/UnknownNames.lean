import CampusQuery.Proofs.Query.ErrorOrigin
import CampusQuery.Proofs.Query.GroupRow
import Mathlib

namespace CampusQuery

open Outcome

def Kind.Knows (k : Kind) (id name : String) : Prop := ∃ type, k.HasField id name type

theorem Dataset.attributeOf_of_not_knows {d : Dataset} {name : String}
    (h : ¬d.kind.Knows d.id name) : d.attributeOf name = .error (.unknownColumn name) := by
  cases ha : d.attributeOf name with
  | ok a => exact absurd (hasField_of_attributeOf ha) h
  | error e => rw [d.failsOnly_attributeOf name e ha]

theorem Dataset.knows_iff {d : Dataset} {name : String} (hid : '_' ∉ d.id.toList) :
    d.kind.Knows d.id name ↔ ∃ a, d.attributeOf name = .ok a := by
  constructor
  · rintro ⟨type, h⟩
    obtain ⟨a, ha, -⟩ := h.attributeOf hid rfl
    exact ⟨a, ha⟩
  · rintro ⟨a, ha⟩
    exact hasField_of_attributeOf ha

namespace Query

/-- The names that are looked up in front of the records: those of the transformation, or the
columns if there is none. -/
def lookups (q : Query) : List String := q.transform.elim q.columns Transform.fields

variable {q : Query} {d : Dataset}

/-- The first name that is not found is the error, whatever the records. -/
theorem project_of_first_unknown {before behind : List String} {name : String}
    (hlookups : q.lookups = before ++ name :: behind)
    (hbefore : ∀ n ∈ before, ∃ a, d.attributeOf n = .ok a) {e : Failure}
    (hname : d.attributeOf name = .error e) (records : List Record) :
    q.project d records = .error e := by
  unfold project
  cases ht : q.transform with
  | none =>
    have hcolumns : q.columns = before ++ name :: behind := by
      rw [← hlookups, lookups, ht, Option.elim_none]
    have hfail : q.columns.mapM (fun column => return (column, ← d.attributeOf column)) =
        (.error e : Except Failure (List (String × String))) := by
      rw [hcolumns]
      refine mapM_of_first_error (fun n hn => ?_) (by rw [hname]; rfl) behind
      obtain ⟨a, ha⟩ := hbefore n hn
      exact ⟨(n, a), by rw [ha]; rfl⟩
    simp only [hfail]
    rfl
  | some t =>
    have hfields : t.fields = before ++ name :: behind := by
      rw [← hlookups, lookups, ht, Option.elim_some]
    have hfail : t.fields.forM (fun field => discard (d.attributeOf field)) = .error e := by
      rw [hfields]
      refine forM_of_first_error (fun n hn => ?_) (by rw [hname]; rfl) behind
      exact discard_eq_ok.mpr (hbefore n hn)
    simp only [hfail]
    rfl

/-- Of names that are not all known one is the first that is not found. -/
theorem exists_first_unknown (unknown : ∃ name ∈ q.lookups, ¬d.kind.Knows d.id name)
    (records : List Record) :
    ∃ before name behind, q.lookups = before ++ name :: behind ∧
      (∀ n ∈ before, ∃ a, d.attributeOf n = .ok a) ∧
      d.attributeOf name = .error (.unknownColumn name) ∧
      q.project d records = .error (.unknownColumn name) := by
  obtain ⟨name, hname, hunknown⟩ := unknown
  obtain ⟨before, first, behind, e, hlookups, hbefore, hfirst⟩ :=
    exists_first_error ⟨name, hname, _, Dataset.attributeOf_of_not_knows hunknown⟩
  obtain rfl := d.failsOnly_attributeOf first e hfirst
  exact ⟨before, first, behind, hlookups, hbefore, hfirst,
    project_of_first_unknown hlookups hbefore hfirst records⟩

theorem exists_answer_error (unknown : ∃ name ∈ q.lookups, ¬d.kind.Knows d.id name) :
    ∃ e, q.answer d = .error e := by
  cases hselect : q.filter.select d.records with
  | error e => exact ⟨e, by rw [answer, hselect]; rfl⟩
  | ok matching =>
    -- Which records are left does not matter, and none may be.
    obtain ⟨_, name, _, -, -, -, hproject⟩ := exists_first_unknown unknown matching
    exact ⟨_, by rw [answer, hselect, ok_bind, hproject]; rfl⟩

theorem answer_of_project_error (heval : ∀ r ∈ d.records, ∃ b, q.filter.eval r = .ok b)
    {e : Failure} (h : q.project d (q.matching d) = .error e) :
    q.answer d = .error e := by
  have hselect : q.filter.select d.records = .ok (q.matching d) :=
    Filter.select_eq_ok.mpr ⟨heval, rfl⟩
  rw [answer, hselect, ok_bind, h]
  rfl

/-- A query that looks up a name which datasets of the id and the kind do not know has no answer,
whatever records such a dataset holds. The error is about the first such name, unless the condition
fails on a record. -/
theorem execute_unknown {id : String} {k : Kind} (unknown : ∃ name ∈ q.lookups, ¬k.Knows id name)
    {store : Store} (held : ∀ d, q.resolve store = .ok d → d.id = id ∧ d.kind = k) (limit : ℕ) :
    (∃ e, q.execute store limit = .error e) ∧
    ∀ d, q.datasetId = .ok id → store.get id = .ok d →
      (∀ r ∈ d.records, ∃ b, q.filter.eval r = .ok b) →
      ∃ before name behind, q.lookups = before ++ name :: behind ∧
        (∀ n ∈ before, k.Knows id n) ∧ ¬k.Knows id name ∧
        q.execute store limit = .error (.unknownColumn name) := by
  constructor
  · cases hresolve : q.resolve store with
    | error e => exact ⟨e, execute_of_resolve_error hresolve limit⟩
    | ok d =>
      obtain ⟨rfl, rfl⟩ := held d hresolve
      obtain ⟨e, he⟩ := exists_answer_error unknown
      exact ⟨e, execute_of_answer_error hresolve he limit⟩
  · intro d hid hget heval
    have hresolve : q.resolve store = .ok d := resolve_eq_ok.mpr ⟨id, hid, hget⟩
    obtain ⟨rfl, rfl⟩ := held d hresolve
    have hknows (n : String) : d.kind.Knows d.id n ↔ ∃ a, d.attributeOf n = .ok a :=
      Dataset.knows_iff (not_mem_of_datasetId hid)
    obtain ⟨before, name, behind, hlookups, hbefore, hname, hproject⟩ :=
      exists_first_unknown unknown (q.matching d)
    refine ⟨before, name, behind, hlookups, fun n hn => (hknows n).mpr (hbefore n hn), ?_,
      execute_of_answer_error hresolve (answer_of_project_error heval hproject) limit⟩
    rw [hknows, hname]
    rintro ⟨a, ⟨⟩⟩

def bestBySeats : Query :=
  ⟨.compare .greater "c_avg" (.ofNat 100), ["c_dept", "best"], none,
    some ⟨["c_dept", "c_seats"], [⟨"best", .max, "c_rank"⟩]⟩⟩

/-- No record meets the condition. -/
theorem execute_unknown_bestBySeats :
    let store := Store.ofGrades [("a", .ofNat 60)]
    (∃ e, bestBySeats.execute store 1 = .error e) ∧
      ∃ before name behind, bestBySeats.lookups = before ++ name :: behind ∧
        (∀ n ∈ before, Kind.sections.Knows "c" n) ∧ ¬Kind.sections.Knows "c" name ∧
        bestBySeats.execute store 1 = .error (.unknownColumn name) := by
  intro store
  let d := Dataset.ofGrades [("a", .ofNat 60)]
  have hid : bestBySeats.datasetId = .ok "c" := by cbv
  have hresolve : bestBySeats.resolve store = .ok d := resolve_eq_ok.mpr ⟨"c", hid, rfl⟩
  have unknown : ∃ name ∈ bestBySeats.lookups, ¬d.kind.Knows d.id name := by
    refine ⟨"c_seats", by decide, ?_⟩
    have hseats : d.attributeOf "c_seats" = .error (.unknownColumn "c_seats") := by rfl
    rw [Dataset.knows_iff (by decide), hseats]
    rintro ⟨a, ⟨⟩⟩
  have held : ∀ d', bestBySeats.resolve store = .ok d' → d'.id = "c" ∧ d'.kind = .sections := by
    intro d' hd'
    cases hresolve.symm.trans hd'
    exact ⟨rfl, rfl⟩
  have heval : ∀ r ∈ d.records, ∃ b, bestBySeats.filter.eval r = .ok b := by
    intro r hr
    have havg : d.kind.HasField "c" "c_avg" .number := ⟨"avg", rfl, by decide⟩
    exact (Filter.WellTyped.compare havg).exists_eval (by decide) (d.fits hr)
  obtain ⟨hfails, hfirst⟩ := execute_unknown unknown held 1
  exact ⟨hfails, hfirst d hid rfl heval⟩

end Query

end CampusQuery
