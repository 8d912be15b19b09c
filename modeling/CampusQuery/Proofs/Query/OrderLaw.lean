import CampusQuery.Proofs.Dataset.Typing
import CampusQuery.Proofs.Number.Order
import CampusQuery.Proofs.Query.Ordering

namespace CampusQuery

namespace Cell

def same : Cell → Cell → Bool
  | .number x, .number y => Comparison.equal.holds x y
  | .text s, .text t => s == t
  | _, _ => false

def above : Cell → Cell → Bool
  | .number x, .number y => Comparison.greater.holds x y
  | .text s, .text t => t < s
  | _, _ => false

end Cell

def Row.Relates (rel : Cell → Cell → Bool) (p r : Row) (key : String) : Prop :=
  ∃ c d, p.get? key = some c ∧ r.get? key = some d ∧ rel c d = true

namespace Direction

def beyond : Direction → Cell → Cell → Bool
  | up, c, d => c.above d
  | down, c, d => d.above c

def zeros : Direction → Binary64 × Binary64
  | up => (Binary64.zero.neg, .zero)
  | down => (.zero, Binary64.zero.neg)

/-- Equal under some keys from the left, the rows should stand the other way around by the next. -/
def Breaks (d : Direction) (keys : List String) (p r : Row) : Prop :=
  ∃ before key behind, keys = before ++ key :: behind ∧
    (∀ k ∈ before, p.Relates Cell.same r k) ∧ p.Relates d.beyond r key

/-- Identical under some keys from the left, the rows have the two zeros under the next, and should
stand the other way around by a later key. -/
def SplitByZeros (d : Direction) (keys : List String) (p r : Row) : Prop :=
  ∃ before key behind, keys = before ++ key :: behind ∧
    (∀ k ∈ before, ∃ c, p.get? k = some c ∧ r.get? k = some c ∧ c.same c = true) ∧
    p.get? key = some (.number d.zeros.1) ∧ r.get? key = some (.number d.zeros.2) ∧
    d.Breaks behind p r

end Direction

/-- No row stands before another that is smaller (for `DOWN`, larger) under the first key on which
they differ, numbers and texts compared as in conditions. -/
def Order.Lawful (o : Order) (rows : List Row) : Prop :=
  rows.Pairwise fun p r => ¬o.direction.Breaks o.names p r

theorem Cell.place_lt_of_above {c d : Cell} (h : c.above d = true) : d.place < c.place := by
  cases c with
  | number x =>
    cases d with
    | number y => exact Sum.Lex.inl_strictMono (Binary64.rank_lt_of_lt h)
    | text t => cases h
  | text s =>
    cases d with
    | number y => cases h
    | text t => exact Sum.Lex.inr_strictMono (of_decide_eq_true h)

theorem Cell.eq_or_zeros_of_same {c d : Cell} (h : c.same d = true) :
    c = d ∨ (c = .number Binary64.zero.neg ∧ d = .number .zero) ∨
      (c = .number .zero ∧ d = .number Binary64.zero.neg) := by
  cases c with
  | number x =>
    cases d with
    | number y => simpa using Binary64.eq_or_zeros_of_same h
    | text t => cases h
  | text s =>
    cases d with
    | number y => cases h
    | text t => exact .inl (congrArg Cell.text (beq_iff_eq.mp h))

namespace Direction

variable {d : Direction}

theorem apply_compare_of_beyond {c c' : Cell} (h : d.beyond c c' = true) :
    d.apply (c.compare c') = .gt := by
  cases d with
  | up => exact (c.compares c').eq_gt.mpr (Cell.place_lt_of_above h)
  | down =>
    rw [apply, (c.compares c').eq_lt.mpr (Cell.place_lt_of_above h)]
    rfl

theorem apply_compare_self (c : Cell) : d.apply (c.compare c) = .eq := by
  rw [(c.compares c).eq_eq.mpr rfl]
  cases d <;> rfl

theorem apply_compare_zeros :
    d.apply (Cell.compare (.number d.zeros.1) (.number d.zeros.2)) = .lt := by
  cases d <;> decide

/-- Of two cells that are the same the sort tells only the zeros apart. -/
theorem eq_or_zeros_of_same {c c' : Cell} (h : c.same c' = true)
    (hle : d.apply (c.compare c') ≠ .gt) :
    c = c' ∨ (c = .number d.zeros.1 ∧ c' = .number d.zeros.2) := by
  rcases Cell.eq_or_zeros_of_same h with h | ⟨rfl, rfl⟩ | ⟨rfl, rfl⟩
  · exact .inl h
  · cases d with
    | up => exact .inr ⟨rfl, rfl⟩
    | down => exact absurd (by decide) hle
  · cases d with
    | up => exact absurd (by decide) hle
    | down => exact .inr ⟨rfl, rfl⟩

variable {keys : List String} {p r : Row}

theorem SplitByZeros.cons {key : String} {c : Cell} (hp : p.get? key = some c)
    (hr : r.get? key = some c) (hc : c.same c = true) (h : d.SplitByZeros keys p r) :
    d.SplitByZeros (key :: keys) p r := by
  obtain ⟨before, zero, behind, rfl, hbefore, hzero⟩ := h
  refine ⟨key :: before, zero, behind, rfl, ?_, hzero⟩
  rw [List.forall_mem_cons]
  exact ⟨⟨c, hp, hr, hc⟩, hbefore⟩

/-- A row is beyond one that it may stand before only through the zeros. -/
theorem Breaks.splitByZeros (h : d.Breaks keys p r) (hle : compareRows d keys p r ≠ .gt) :
    d.SplitByZeros keys p r := by
  obtain ⟨before, key, behind, rfl, hbefore, hkey⟩ := h
  induction before with
  | nil =>
    obtain ⟨c, c', hp, hr, hbeyond⟩ := hkey
    rw [List.nil_append, compareRows, hp, hr, compareCells, apply_compare_of_beyond hbeyond] at hle
    exact absurd rfl hle
  | cons k before ih =>
    rw [List.forall_mem_cons] at hbefore
    obtain ⟨⟨c, c', hp, hr, hsame⟩, hbefore⟩ := hbefore
    rw [List.cons_append, compareRows, hp, hr, compareCells] at hle
    have hcell : d.apply (c.compare c') ≠ .gt := by
      intro hgt
      rw [hgt] at hle
      exact hle rfl
    -- Equal cells leave the comparison to the later keys; the zeros already decide it.
    rcases eq_or_zeros_of_same hsame hcell with rfl | ⟨rfl, rfl⟩
    · rw [apply_compare_self] at hle
      exact (ih hle hbefore).cons hp hr hsame
    · exact ⟨[], k, _, rfl, by simp, hp, hr, before, key, behind, rfl, hbefore, hkey⟩

theorem SplitByZeros.breaks (h : d.SplitByZeros keys p r) : d.Breaks keys p r := by
  obtain ⟨before, zero, _, rfl, hbefore, hp, hr, between, key, behind, rfl, hbetween, hkey⟩ := h
  refine ⟨before ++ zero :: between, key, behind, by simp, ?_, hkey⟩
  intro k hk
  rw [List.mem_append, List.mem_cons] at hk
  rcases hk with hk | rfl | hk
  · obtain ⟨c, hp, hr, hc⟩ := hbefore k hk
    exact ⟨c, c, hp, hr, hc⟩
  · exact ⟨_, _, hp, hr, by cases d <;> decide⟩
  · exact hbetween k hk

theorem SplitByZeros.compareRows_eq (h : d.SplitByZeros keys p r) :
    compareRows d keys p r = .lt := by
  obtain ⟨before, zero, behind, rfl, hbefore, hp, hr, -⟩ := h
  induction before with
  | nil =>
    rw [List.nil_append, compareRows, hp, hr, compareCells, apply_compare_zeros]
    rfl
  | cons k before ih =>
    rw [List.forall_mem_cons] at hbefore
    obtain ⟨⟨c, hp', hr', -⟩, hbefore⟩ := hbefore
    rw [List.cons_append, compareRows, hp', hr', compareCells, apply_compare_self]
    exact ih hbefore

end Direction

namespace Order

variable {o : Order} {rows sorted : List Row}

/-- In rows that are in order a row stands before every other that it strictly precedes. -/
theorem rel_of_pairwise {p r : Row} (hs : sorted.Pairwise o.Precedes) (hp : p ∈ sorted)
    (hr : r ∈ sorted) (h : ¬o.Precedes r p) {R : Row → Row → Prop} (hR : sorted.Pairwise R) :
    R p r := by
  refine List.Pairwise.forall_of_forall_of_flip (R := fun a b => ¬o.Precedes b a → R a b)
    ?_ ?_ ?_ hp hr h
  · intro a _ hself
    exact absurd (IsStableSort.le_self a) hself
  · refine hR.imp ?_
    intro a b hab _
    exact hab
  · refine hs.imp ?_
    intro a b hab hnot
    exact absurd hab hnot

theorem lawful_iff (hs : sorted.Pairwise o.Precedes) :
    o.Lawful sorted ↔ ∀ p ∈ sorted, ∀ r ∈ sorted, ¬o.direction.SplitByZeros o.names p r := by
  constructor
  · intro hlaw p hp r hr h
    have hlt : ¬o.Precedes r p := by
      rw [← isLE_compare, o.transCmp_compare.eq_swap, compare, h.compareRows_eq]
      simp
    exact rel_of_pairwise hs hp hr hlt hlaw h.breaks
  · intro hsplit
    refine hs.imp_of_mem ?_
    intro p r hp hr hle hbreaks
    rw [← isLE_compare, Ordering.isLE_iff_ne_gt] at hle
    exact hsplit p hp r hr (hbreaks.splitByZeros hle)

end Order

namespace Query

/-- An answer keeps the law unless two of its rows are split by the zeros. -/
theorem execute_lawful_iff {q : Query} {o : Order} {store : Store} {limit : Nat} {rows : List Row}
    (h : { q with order := some o }.execute store limit = .ok rows) :
    o.Lawful rows ↔ ∀ p ∈ rows, ∀ r ∈ rows, ¬o.direction.SplitByZeros o.names p r := by
  rw [execute_eq] at h
  cases hplain : { q with order := none }.execute store limit with
  | error e =>
    rw [hplain] at h
    cases h
  | ok unordered =>
    rw [hplain] at h
    cases h
    exact Order.lawful_iff (o.isStableSort_sort unordered).pairwise

def byGrade : Query := ⟨.all, ["c_dept", "c_avg"], some (.keys .up ["c_avg", "c_dept"]), none⟩

def zeroGrades : Store := .ofGrades [("z", Binary64.zero.neg), ("a", .zero)]

def zeroRows : List Row :=
  [⟨[("c_dept", .text "z"), ("c_avg", .number Binary64.zero.neg)]⟩,
   ⟨[("c_dept", .text "a"), ("c_avg", .number .zero)]⟩]

theorem execute_lawful_iff_zeroRows :
    (Order.keys .up ["c_avg", "c_dept"]).Lawful zeroRows ↔ ∀ p ∈ zeroRows, ∀ r ∈ zeroRows,
      ¬Direction.up.SplitByZeros ["c_avg", "c_dept"] p r := by
  have h : byGrade.execute zeroGrades 2 = .ok zeroRows := by cbv
  exact execute_lawful_iff (q := byGrade) h

/-- The averages are equal as numbers, and yet the later department comes first. -/
theorem zeroRows_not_lawful :
    byGrade.check = .ok () ∧ byGrade.execute zeroGrades 2 = .ok zeroRows ∧
      ¬(Order.keys .up ["c_avg", "c_dept"]).Lawful zeroRows := by
  refine ⟨by rfl, by cbv, ?_⟩
  intro hlaw
  have hfirst := List.rel_of_pairwise_cons hlaw List.mem_cons_self
  apply hfirst
  refine ⟨["c_avg"], "c_dept", [], rfl, ?_, .text "z", .text "a", by decide, by decide, by decide⟩
  intro k hk
  rw [List.mem_singleton.mp hk]
  exact ⟨.number Binary64.zero.neg, .number .zero, by decide, by decide, by decide⟩

end Query

end CampusQuery
