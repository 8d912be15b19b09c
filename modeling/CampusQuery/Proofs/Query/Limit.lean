import CampusQuery.Proofs.Query.ErrorOrigin
import CampusQuery.Proofs.Query.Grouped
import CampusQuery.Proofs.Query.GroupRow
import CampusQuery.Proofs.Query.Ordering
import Mathlib

namespace CampusQuery

open Outcome

def Failure.IsLimit : Failure → Prop
  | tooManyRows .. => True
  | _ => False

theorem Failure.IsAbout.not_isLimit {field : String} {e : Failure} (h : e.IsAbout field) :
    ¬e.IsLimit := by
  cases e with
  | tooManyRows rows limit => exact h.elim
  | _ => exact id

theorem Record.limitless_project (columns : List (String × String)) (r : Record) :
    FailsOnly (¬·.IsLimit) (r.project columns) := by
  refine FailsOnly.bind (.mapM ?_) fun cells _ => .ok _
  rintro ⟨column, a⟩ -
  dsimp only
  cases r a with
  | some c => exact .ok _
  | none => exact .error id

theorem Row.limitless_project (columns : List String) (r : Row) :
    FailsOnly (¬·.IsLimit) (r.project columns) := by
  refine FailsOnly.bind (.mapM fun column _ => ?_) fun cells _ => .ok _
  cases r.get? column with
  | some c => exact .ok _
  | none => exact .error id

theorem Record.limitless_cell (r : Record) (field : String) :
    FailsOnly (¬·.IsLimit) (r.cell field) := by
  refine (r.failsOnly_cell field).imp ?_
  rintro e rfl
  exact id

theorem Rule.limitless_eval (rule : Rule) (group : List Record) :
    FailsOnly (¬·.IsLimit) (rule.eval group) := by
  have hnumbers : FailsOnly (¬·.IsLimit) (numbers rule.field group) :=
    .mapM fun r _ => (r.failsOnly_number rule.field).imp fun _ he => he.not_isLimit
  have hreduce : ∀ combine, FailsOnly (¬·.IsLimit) (rule.reduce combine group) := by
    intro combine
    refine hnumbers.bind fun xs _ => ?_
    cases xs with
    | nil => exact .error id
    | cons x xs => exact .ok _
  unfold eval
  cases rule.token with
  | count =>
    exact FailsOnly.bind (.mapM fun r _ => r.limitless_cell rule.field) fun cells _ => .ok _
  | sum => exact hnumbers.bind fun _ _ => .ok _
  | max => exact hreduce _
  | min => exact hreduce _
  | avg => exact hreduce _
  | unknown name => exact .error id

theorem Transform.limitless_rows (t : Transform) (records : List Record) :
    FailsOnly (¬·.IsLimit) (t.rows records) := by
  have hkey : ∀ r : Record, FailsOnly (¬·.IsLimit) (t.keyOf r) := fun r =>
    .mapM fun field _ => (r.limitless_cell field).bind fun c _ => .ok _
  have hgroups : FailsOnly (¬·.IsLimit) (t.groups records) :=
    FailsOnly.bind (.mapM fun r _ => (hkey r).bind fun key _ => .ok _) fun keyed _ => .ok _
  refine hgroups.bind fun groups _ => .mapM fun g _ => ?_
  exact FailsOnly.bind (.mapM fun rule _ => (rule.limitless_eval g.2).bind fun c _ => .ok _)
    fun values _ => .ok _

namespace Query

variable {q : Query} {d : Dataset} {store : Store} {rows : List Row}

theorem limitless_project (q : Query) (d : Dataset) (records : List Record) :
    FailsOnly (¬·.IsLimit) (q.project d records) := by
  have hname : ∀ name, FailsOnly (¬·.IsLimit) (d.attributeOf name) := by
    intro name
    refine (d.failsOnly_attributeOf name).imp ?_
    rintro e rfl
    exact id
  unfold project
  cases q.transform with
  | none =>
    refine FailsOnly.bind (.mapM fun column _ => (hname column).bind fun a _ => .ok _) ?_
    exact fun columns _ => .mapM fun r _ => r.limitless_project columns
  | some t =>
    refine FailsOnly.bind (.forM fun field _ => (hname field).map) fun _ _ => ?_
    exact (t.limitless_rows records).bind fun full _ => .mapM fun row _ => row.limitless_project _

theorem limitless_answer (q : Query) (d : Dataset) : FailsOnly (¬·.IsLimit) (q.answer d) := by
  refine FailsOnly.bind ((q.filter.failsOnly_select d.records).imp ?_) fun matching _ => ?_
  · rintro e ⟨field, -, he⟩
    exact he.not_isLimit
  · exact (q.limitless_project d matching).bind fun rows _ => .ok _

theorem limitless_resolve (q : Query) (store : Store) :
    FailsOnly (¬·.IsLimit) (q.resolve store) := by
  refine FailsOnly.bind ?_ fun _ _ => .mapError ?_
  · unfold datasetId
    split
    · exact .error id
    · exact .ok _
    · exact .error id
  · intro e _
    split <;> exact id

/-- The number of rows that an answer has: one for each group, or one for each record that meets the
condition. -/
def rowCount (q : Query) (d : Dataset) : ℕ :=
  q.transform.elim (q.matching d).length fun t => (t.distinctKeys (q.matching d)).length

theorem length_of_project {records : List Record} (h : q.project d records = .ok rows) :
    rows.length = q.transform.elim records.length fun t => (t.distinctKeys records).length := by
  cases ht : q.transform with
  | none =>
    obtain ⟨columns, -, hrows⟩ := (project_eq_ok_of_ungrouped ht).mp h
    exact hrows.length_eq.symm
  | some t =>
    obtain ⟨-, full, hfull, hrows⟩ := (project_eq_ok_of_transform ht).mp h
    obtain ⟨groups, hgroups, hfull⟩ := Transform.rows_eq_ok.mp hfull
    obtain ⟨-, rfl⟩ := Transform.groups_eq_ok.mp hgroups
    rw [Option.elim_some, ← hrows.length_eq, ← hfull.length_eq, List.length_map]

theorem length_of_answer (h : q.answer d = .ok rows) : rows.length = q.rowCount d := by
  obtain ⟨matching, unordered, hselect, hproject, rfl⟩ := answer_eq_ok.mp h
  obtain ⟨-, rfl⟩ := Filter.select_eq_ok.mp hselect
  rw [(Order.elim_sort_perm q.order unordered).length_eq, length_of_project hproject]
  rfl

theorem rowCount_le (q : Query) (d : Dataset) : q.rowCount d ≤ d.size := by
  have hmatching : (q.matching d).length ≤ d.size := List.length_filter_le _ _
  unfold rowCount
  cases q.transform with
  | none => exact hmatching
  | some t =>
    refine le_trans ?_ hmatching
    rw [Option.elim_some, Transform.distinctKeys, Distinct.length_eraseDups]
    exact (List.toFinset_card_le _).trans (List.length_filterMap_le _ _)

/-- The query has no answer from the store that is longer than the limit. -/
def Unreached (q : Query) (store : Store) (limit : ℕ) : Prop :=
  ∀ n, q.execute store limit ≠ .error (.tooManyRows n limit)

/-- There is an error that has nothing to do with limits, or an answer, which a limit lets pass as
it is or refuses as a whole. -/
theorem execute_cases (q : Query) (store : Store) :
    (∃ e, ¬e.IsLimit ∧ ∀ limit, q.execute store limit = .error e) ∨
    ∃ d rows, q.resolve store = .ok d ∧ rows.length = q.rowCount d ∧
      ∀ limit, q.execute store limit =
        if rows.length ≤ limit then .ok rows else .error (.tooManyRows rows.length limit) := by
  cases hd : q.resolve store with
  | error e => exact .inl ⟨e, q.limitless_resolve store e hd, execute_of_resolve_error hd⟩
  | ok d =>
    cases hanswer : q.answer d with
    | error e =>
      exact .inl ⟨e, q.limitless_answer d e hanswer, execute_of_answer_error hd hanswer⟩
    | ok rows =>
      exact .inr ⟨d, rows, rfl, length_of_answer hanswer, execute_of_answer hd hanswer⟩

section Answer

variable {full : List Row} (hfull : ∀ limit, q.execute store limit =
  if full.length ≤ limit then .ok full else .error (.tooManyRows full.length limit))

include hfull

theorem execute_eq_ok_iff_of_full {limit : ℕ} :
    q.execute store limit = .ok rows ↔ rows = full ∧ full.length ≤ limit := by
  rw [hfull]
  by_cases hle : full.length ≤ limit
  · rw [if_pos hle, Except.ok.injEq, eq_comm, and_iff_left hle]
  · simp [hle]

theorem unreached_iff_of_full {limit : ℕ} : q.Unreached store limit ↔ full.length ≤ limit := by
  constructor
  · intro h
    by_contra hlt
    exact h full.length (by rw [hfull, if_neg hlt])
  · intro hle n hn
    rw [hfull, if_pos hle] at hn
    cases hn

end Answer

/-- No answer has more rows than its dataset has records. -/
theorem unreached_of_size_le {limit : ℕ}
    (h : ∀ d, q.resolve store = .ok d → d.size ≤ limit) : q.Unreached store limit := by
  rcases q.execute_cases store with ⟨e, he, herror⟩ | ⟨d, rows, hd, hlength, hrows⟩
  · intro n hn
    cases (herror limit).symm.trans hn
    exact he trivial
  · rw [unreached_iff_of_full hrows, hlength]
    exact (q.rowCount_le d).trans (h d hd)

theorem execute_mono {limit limit' : ℕ} (hle : limit ≤ limit')
    (h : q.execute store limit = .ok rows) : q.execute store limit' = .ok rows := by
  obtain ⟨d, hd, hanswer, hlimit⟩ := execute_eq_ok.mp h
  exact execute_eq_ok.mpr ⟨d, hd, hanswer, hlimit.trans hle⟩

/-- The limit refuses answers as a whole and changes none. What a query gives under a limit that it
does not reach decides what it gives under every other. -/
theorem execute_within (q : Query) (store : Store) :
    (∀ limit, (∀ d, q.resolve store = .ok d → d.size ≤ limit) → q.Unreached store limit) ∧
    (∀ top, q.Unreached store top →
      (∀ rows, q.execute store top = .ok rows →
        (∃ d, q.resolve store = .ok d ∧ rows.length = q.rowCount d) ∧
        ∀ limit, q.execute store limit =
          if rows.length ≤ limit then .ok rows else .error (.tooManyRows rows.length limit)) ∧
      (∀ e, q.execute store top = .error e →
        ¬e.IsLimit ∧ ∀ limit, q.execute store limit = .error e) ∧
      ∀ limit rows, q.execute store limit = .ok rows → q.execute store top = .ok rows) ∧
    ∀ limit limit' rows, limit ≤ limit' → q.execute store limit = .ok rows →
      q.execute store limit' = .ok rows := by
  -- Under `top` the answer is the whole one, so both cases of a run are told from what it gives.
  refine ⟨fun _ => unreached_of_size_le, fun top htop => ?_, fun _ _ _ => execute_mono⟩
  rcases q.execute_cases store with ⟨e, he, herror⟩ | ⟨d, full, hd, hlength, hfull⟩
  · simp only [herror]
    refine ⟨nofun, ?_, nofun⟩
    rintro _ ⟨⟩
    exact ⟨he, fun _ => rfl⟩
  · have hok : q.execute store top = .ok full :=
      (execute_eq_ok_iff_of_full hfull).mpr ⟨rfl, (unreached_iff_of_full hfull).mp htop⟩
    rw [hok]
    refine ⟨?_, nofun, ?_⟩
    · rintro _ ⟨⟩
      exact ⟨⟨d, hd, hlength⟩, hfull⟩
    · intro limit rows h
      rw [((execute_eq_ok_iff_of_full hfull).mp h).1]

/-- Three records in two groups: two rows are let pass, and one row is not enough. -/
theorem execute_within_bestByDept :
    let q : Query := ⟨.all, ["c_dept", "best"], none, some bestByDept⟩
    let store := Store.ofGrades [("a", .zero), ("b", .infinite true), ("a", .infinite false)]
    let rows : List Row :=
      [⟨[("c_dept", .text "a"), ("best", .number (.infinite false))]⟩,
       ⟨[("c_dept", .text "b"), ("best", .number (.infinite true))]⟩]
    q.Unreached store 3 ∧ q.execute store 3 = .ok rows ∧ q.execute store 2 = .ok rows ∧
      q.execute store 1 = .error (.tooManyRows 2 1) := by
  intro q store rows
  have hrows : q.execute store 3 = .ok rows := by cbv
  have hresolve : q.resolve store =
      .ok (.ofGrades [("a", .zero), ("b", .infinite true), ("a", .infinite false)]) := by cbv
  have hunreached : q.Unreached store 3 := by
    refine (q.execute_within store).1 3 fun d hd => ?_
    cases hresolve.symm.trans hd
    exact le_refl 3
  obtain ⟨-, hlimits⟩ := ((q.execute_within store).2.1 3 hunreached).1 rows hrows
  exact ⟨hunreached, hrows, hlimits 2, hlimits 1⟩

end Query

end CampusQuery
