import CampusQuery.Proofs.Dataset.Finite
import CampusQuery.Proofs.Query.RollUp

namespace CampusQuery

open Outcome

variable {x y : Binary64}

theorem Binary64.level?_of_same_zero (x : Binary64) :
    (if x.same zero then zero else x).level? = x.level? := by
  split
  · rename_i h
    obtain ⟨i, hx, hzero⟩ := same_iff.mp h
    rw [hx, hzero]
  · rfl

namespace Cell

theorem unsigned_eq_iff (hx : x.isFinite = true) :
    (number x).unsigned = (number y).unsigned ↔ x.same y = true := by
  constructor
  · intro h
    have hlevel := congrArg Binary64.level? (number.inj h)
    rwa [x.level?_of_same_zero, y.level?_of_same_zero,
      ← Binary64.same_iff_level?_eq (Binary64.isNaN_of_isFinite hx)] at hlevel
  · intro h
    rcases Binary64.eq_or_zeros_of_same h with rfl | ⟨rfl, rfl⟩ | ⟨rfl, rfl⟩
    · rfl
    · decide
    · decide

theorem keyText_eq_iff_same (hx : x.isFinite = true) :
    (number x).keyText = (number y).keyText ↔ x.same y = true := by
  rw [Binary64.same_iff_level?_eq (Binary64.isNaN_of_isFinite hx)]
  exact numberText_eq_iff

/-- Cells of one type that are finite count as one value exactly if they group under one text. -/
theorem keyText_eq_iff {c c' : Cell} (htype : c.type = c'.type) (hc : c.IsFinite) :
    c.keyText = c'.keyText ↔ c.unsigned = c'.unsigned := by
  cases c with
  | text s =>
    cases c' with
    | text s' => simp [keyText, unsigned]
    | number x => cases htype
  | number x =>
    cases c' with
    | text s => cases htype
    | number y => rw [keyText_eq_iff_same hc, unsigned_eq_iff hc]

end Cell

theorem Aggregate.countDistinct_pair (hx : x.isFinite = true) :
    countDistinct [.number x, .number y] = 1 ↔ x.same y = true := by
  rw [countDistinct_eq, ← Cell.unsigned_eq_iff hx, List.map_cons, List.map_cons, List.map_nil]
  by_cases h : (Cell.number x).unsigned = (Cell.number y).unsigned
  · simp [h]
  · simp [h]

/-- As many images under one function as under another that keeps the same elements apart. -/
theorem card_map_eq {α β γ : Type} [DecidableEq β] [DecidableEq γ] {f : α → β} {g : α → γ}
    {xs : List α} (h : ∀ a ∈ xs, ∀ b ∈ xs, f a = f b ↔ g a = g b) :
    (xs.map f).toFinset.card = (xs.map g).toFinset.card := by
  induction xs with
  | nil => rfl
  | cons x xs ih =>
    have hmem : f x ∈ (xs.map f).toFinset ↔ g x ∈ (xs.map g).toFinset := by
      simp only [List.mem_toFinset, List.mem_map]
      refine exists_congr fun a => and_congr_right fun ha => ?_
      exact h a (List.mem_cons_of_mem _ ha) x List.mem_cons_self
    rw [List.map_cons, List.map_cons, List.toFinset_cons, List.toFinset_cons,
      Finset.card_insert_eq_ite, Finset.card_insert_eq_ite, ih fun a ha b hb =>
        h a (List.mem_cons_of_mem _ ha) b (List.mem_cons_of_mem _ hb)]
    exact if_congr hmem rfl rfl

namespace Dataset

variable {d : Dataset} {field : String}

theorem exists_cells (known : ∃ a, d.attributeOf field = .ok a) :
    ∃ type, ∀ r ∈ d.records, ∃ c, r (FieldName.attributeName field) = some c ∧ c.type = type := by
  obtain ⟨a, ha⟩ := known
  obtain ⟨type, hfield⟩ := hasField_of_attributeOf ha
  have hid : '_' ∉ d.id.toList := FieldName.not_mem_of_split? (attributeOf_eq_ok.mp ha).1
  exact ⟨type, fun r hr => Record.Fits.exists_cell hid (d.fits hr) hfield⟩

theorem exists_values (known : ∃ a, d.attributeOf field = .ok a) {group : List Record}
    (hgroup : ∀ r ∈ group, r ∈ d.records) : ∃ cells, Rule.Values field group cells := by
  obtain ⟨type, hcells⟩ := exists_cells known
  apply exists_forall₂
  intro r hr
  obtain ⟨c, hc, -⟩ := hcells r (hgroup r hr)
  exact ⟨c, hc⟩

/-- Records that are grouped under one text by a field are those with one value there. -/
theorem keyText_eq_iff (finite : ∀ r ∈ d.records, r.IsFinite)
    (known : ∃ a, d.attributeOf field = .ok a) {group : List Record}
    (hgroup : ∀ r ∈ group, r ∈ d.records) {cells : List Cell}
    (hcells : Rule.Values field group cells) :
    ∀ c ∈ cells, ∀ c' ∈ cells, c.keyText = c'.keyText ↔ c.unsigned = c'.unsigned := by
  obtain ⟨type, htype⟩ := exists_cells known
  have hread : ∀ c ∈ cells, c.type = type ∧ c.IsFinite := by
    intro c hc
    obtain ⟨r, hr, hrc⟩ := hcells.mem_iff.mp hc
    obtain ⟨_, hc', rfl⟩ := htype r (hgroup r hr)
    rw [hrc, Option.some.injEq] at hc'
    exact ⟨hc' ▸ rfl, finite r (hgroup r hr) hrc⟩
  intro c hc c' hc'
  exact Cell.keyText_eq_iff ((hread c hc).1.trans (hread c' hc').1.symm) (hread c hc).2

end Dataset

namespace Rule

variable {field : String} {group : List Record}

def distinct (cells : List Cell) : ℕ := (cells.map Cell.unsigned).toFinset.card

theorem Values.ne_nil {cells : List Cell} (h : Values field group cells) (hne : group ≠ []) :
    cells ≠ [] := by
  rintro rfl
  exact hne (List.forall₂_nil_right_iff.mp h)

theorem distinct_pos {cells : List Cell} (hne : cells ≠ []) : 0 < distinct cells := by
  rw [distinct, Finset.card_pos, List.toFinset_nonempty_iff]
  exact fun h => hne (List.map_eq_nil_iff.mp h)

theorem distinct_eq_one {cells : List Cell} (hne : cells ≠ [])
    (h : ∀ c ∈ cells, ∀ c' ∈ cells, c.unsigned = c'.unsigned) : distinct cells = 1 := by
  refine le_antisymm ?_ (distinct_pos hne)
  rw [distinct, Finset.card_le_one]
  intro a ha b hb
  rw [List.mem_toFinset, List.mem_map] at ha hb
  obtain ⟨c, hc, rfl⟩ := ha
  obtain ⟨c', hc', rfl⟩ := hb
  exact h c hc c' hc'

theorem eval_count {cells : List Cell} (h : Values field group cells) (key : String) :
    eval ⟨key, .count, field⟩ group = .ok (.number (.ofNat (distinct cells))) := by
  rw [← cells_eq_ok] at h
  rw [distinct, ← Aggregate.countDistinct_eq]
  simp only [eval, h]
  rfl

end Rule

namespace Transform

variable {t : Transform} {field : String} {records : List Record}

/-- The keys of groups by one field are the texts of its values. -/
theorem length_distinctKeys (ht : t.group = [field]) {cells : List Cell}
    (hcells : Rule.Values field records cells) :
    (t.distinctKeys records).length = (cells.map fun c => [c.keyText]).toFinset.card := by
  have hkey {r : Record} {c : Cell} (hc : r (FieldName.attributeName field) = some c) :
      t.key? r = some [c.keyText] := by
    simp [key?, ht, hc]
  have hkeys : records.filterMap t.key? = cells.map fun c => [c.keyText] := by
    induction hcells with
    | nil => rfl
    | cons hc _ ih => rw [List.filterMap_cons_some (hkey hc), ih, List.map_cons]
  rw [distinctKeys, Distinct.length_eraseDups, hkeys]

/-- The members of a group have one text in each grouped field. -/
theorem keyText_eq_of_members {key : List String} (hf : field ∈ t.group) {cells : List Cell}
    (hcells : Rule.Values field (t.members records key) cells) :
    ∀ c ∈ cells, ∀ c' ∈ cells, c.keyText = c'.keyText := by
  intro c hc c' hc'
  obtain ⟨r, hr, hrc⟩ := hcells.mem_iff.mp hc
  obtain ⟨r', hr', hrc'⟩ := hcells.mem_iff.mp hc'
  have h := (key?_eq_iff (mem_members.mp hr).2).mp (mem_members.mp hr').2 field hf
  rw [hrc, hrc', Option.map_some, Option.map_some, Option.some.injEq] at h
  exact h.symm

theorem IsRow.get?_count {columns : List String} {group : List Record} {row : Row}
    (h : t.IsRow columns group row) {key : String} (hr : ⟨key, .count, field⟩ ∈ t.apply)
    (hc : key ∈ columns) {cells : List Cell} (hcells : Rule.Values field group cells) :
    row.get? key = some (.number (.ofNat (Rule.distinct cells))) := by
  obtain ⟨c, hget, cells', hcells', rfl⟩ := h.exists_value hr hc
  rw [hcells.unique hcells']
  exact hget

theorem IsKeyed.members_eq {columns : List String} {p : List String × Row}
    (h : t.IsKeyed columns records [p]) (hkeys : ∀ r ∈ records, ∃ key, t.key? r = some key) :
    t.members records p.1 = records := by
  rw [members, List.filter_eq_self]
  intro r hr
  obtain ⟨key, hkey⟩ := hkeys r hr
  obtain ⟨row, hrow⟩ := h.exists_row hr hkey
  rw [List.mem_singleton] at hrow
  rw [hkey, ← hrow, beq_iff_eq]

section Finite

variable {d : Dataset} {columns : List String} {keyed : List (List String × Row)}
  (finite : ∀ r ∈ d.records, r.IsFinite) (known : ∃ a, d.attributeOf field = .ok a)
  (hrecords : ∀ r ∈ records, r ∈ d.records)

include finite known hrecords

/-- The groups by one field are as many as its distinct values. -/
theorem IsKeyed.length_eq (h : t.IsKeyed columns records keyed) (ht : t.group = [field])
    {cells : List Cell} (hcells : Rule.Values field records cells) :
    keyed.length = Rule.distinct cells := by
  have hsame := Dataset.keyText_eq_iff finite known hrecords hcells
  rw [← List.length_map (·.1), h.keys.length_eq, length_distinctKeys ht hcells, Rule.distinct]
  -- Keys and counted values are images of the same cells and tell the same ones apart.
  apply card_map_eq
  intro c hc c' hc'
  rw [← hsame c hc c' hc', List.cons.injEq, and_iff_left rfl]

/-- A grouped field has one value in each group. -/
theorem exists_distinct_eq_one {key : List String} (hkey : key ∈ t.distinctKeys records)
    (hf : field ∈ t.group) :
    ∃ cells, Rule.Values field (t.members records key) cells ∧ Rule.distinct cells = 1 := by
  have hmembers : ∀ r ∈ t.members records key, r ∈ d.records := fun r hr =>
    hrecords r (mem_members.mp hr).1
  obtain ⟨cells, hcells⟩ := Dataset.exists_values known hmembers
  have hsame := Dataset.keyText_eq_iff finite known hmembers hcells
  refine ⟨cells, hcells, Rule.distinct_eq_one (hcells.ne_nil (members_ne_nil hkey)) ?_⟩
  intro c hc c' hc'
  exact (hsame c hc c' hc').mp (keyText_eq_of_members hf hcells c hc c' hc')

end Finite

end Transform

namespace Query

/-- A valid query on a dataset of the store, with the condition `f` and the transformation `t`. -/
structure Asks (q : Query) (store : Store) (d : Dataset) (f : Filter) (t : Transform) : Prop where
  valid : q.check = .ok ()
  resolve : q.resolve store = .ok d
  filter : q.filter = f
  transform : q.transform = some t

variable {q : Query} {store : Store} {d : Dataset} {f : Filter} {t : Transform} {limit : Nat}

theorem Asks.check (h : q.Asks store d f t) : t.check q.columns = .ok () :=
  (check_eq_ok.mp h.valid).2.2.2 t h.transform

theorem Asks.exists_keyed (h : q.Asks store d f t) {rows : List Row}
    (hrows : q.execute store limit = .ok rows) :
    ∃ keyed, t.IsKeyed q.columns (d.records.filter f.holds) keyed ∧
      (∀ r ∈ d.records.filter f.holds, ∃ key, t.key? r = some key) ∧ rows = keyed.map (·.2) := by
  obtain ⟨d', hd', hanswer, -⟩ := execute_eq_ok.mp hrows
  obtain rfl : d = d' := Except.ok.inj (h.resolve.symm.trans hd')
  obtain ⟨grouped, sorted, hgrouped, rfl⟩ := exists_isGrouped h.transform hanswer
  have hkeyed := hgrouped.isKeyed h.check
  have hkeys := hgrouped.keyed
  rw [matching, h.filter] at hkeyed hkeys
  exact ⟨sorted, hkeyed, hkeys, rfl⟩

/-- A query that groups by known fields and counts known fields has an answer. -/
theorem Asks.exists_rows (h : q.Asks store d f t)
    (evaluated : ∀ r ∈ d.records, ∃ b, f.eval r = .ok b)
    (known : ∀ field ∈ t.fields, ∃ a, d.attributeOf field = .ok a)
    (counts : ∀ rule ∈ t.apply, rule.token = .count) :
    ∃ rows, ∀ limit, rows.length ≤ limit → q.execute store limit = .ok rows := by
  have hgroup : ∀ field ∈ t.group, ∃ a, d.attributeOf field = .ok a := fun field hf =>
    known field (List.mem_append_left _ hf)
  have happly : ∀ rule ∈ t.apply, rule.WellTyped d.kind d.id := by
    intro rule hr
    rw [Rule.WellTyped, counts rule hr]
    obtain ⟨a, ha⟩ := known rule.field (List.mem_append_right _ (List.mem_map_of_mem hr))
    exact Dataset.hasField_of_attributeOf ha
  have hid : '_' ∉ d.id.toList := by
    obtain ⟨field, hf⟩ := List.exists_mem_of_ne_nil _ (Transform.check_eq_ok.mp h.check).1
    obtain ⟨a, ha⟩ := hgroup field hf
    exact FieldName.not_mem_of_split? (Dataset.attributeOf_eq_ok.mp ha).1
  obtain ⟨unordered, hproject⟩ := exists_project_of_transform hid h.transform h.check
    (fun field hf => (hgroup field hf).elim fun a ha => Dataset.hasField_of_attributeOf ha) happly
    fun r hr => d.fits (List.mem_of_mem_filter (p := f.holds) hr)
  have hselect : q.filter.select d.records = .ok (d.records.filter f.holds) := by
    rw [h.filter]
    exact Filter.select_eq_ok.mpr ⟨evaluated, rfl⟩
  have hanswer : q.answer d = .ok (q.order.elim unordered (·.sort unordered)) :=
    answer_eq_ok.mpr ⟨_, unordered, hselect, hproject, rfl⟩
  exact ⟨_, fun limit hlimit => execute_eq_ok.mpr ⟨d, h.resolve, hanswer, hlimit⟩⟩

/-- Finite numbers are equal in conditions exactly if they are grouped under one text and exactly if
they are counted as one. So as many rows are grouped by a field as there are values counted in one
group of all the records, and a grouped field has one value in each group. -/
theorem rows_grouped_eq_count {field : String} (finite : ∀ r ∈ d.records, r.IsFinite)
    (evaluated : ∀ r ∈ d.records, ∃ b, f.eval r = .ok b)
    (matched : ∃ r ∈ d.records, f.holds r = true) (known : ∃ a, d.attributeOf field = .ok a) :
    (∀ x y : Binary64, x.isFinite = true → y.isFinite = true →
      (Comparison.equal.holds x y = true ↔ (Cell.number x).keyText = (Cell.number y).keyText) ∧
      (Comparison.equal.holds x y = true ↔
        Aggregate.countDistinct [.number x, .number y] = 1)) ∧
    ∃ n : ℕ, 0 < n ∧
      (∀ key, Rule.eval ⟨key, .count, field⟩ (d.records.filter f.holds) =
        .ok (.number (.ofNat n))) ∧
      ∀ (q : Query) (t : Transform), q.Asks store d f t →
        ((∀ name ∈ t.fields, ∃ a, d.attributeOf name = .ok a) →
          (∀ rule ∈ t.apply, rule.token = .count) →
            ∃ rows, ∀ limit, rows.length ≤ limit → q.execute store limit = .ok rows) ∧
        ∀ limit rows, q.execute store limit = .ok rows →
          (t.group = [field] → rows.length = n) ∧
          ∀ key ∈ q.columns, ⟨key, .count, field⟩ ∈ t.apply →
            (∀ row, rows = [row] → row.get? key = some (.number (.ofNat n))) ∧
            (field ∈ t.group → ∀ row ∈ rows, row.get? key = some (.number (.ofNat 1))) := by
  have hmem : ∀ r ∈ d.records.filter f.holds, r ∈ d.records := fun r hr => List.mem_of_mem_filter hr
  obtain ⟨cells, hcells⟩ := Dataset.exists_values known hmem
  refine ⟨fun x y hx _ =>
      ⟨(Cell.keyText_eq_iff_same hx).symm, (Aggregate.countDistinct_pair hx).symm⟩,
    Rule.distinct cells, ?_, fun key => Rule.eval_count hcells key, ?_⟩
  · obtain ⟨r, hr, hholds⟩ := matched
    have hne := List.ne_nil_of_mem (List.mem_filter.mpr ⟨hr, hholds⟩)
    exact Rule.distinct_pos (hcells.ne_nil hne)
  -- The count over all records is fixed before any of the queries.
  intro q t h
  refine ⟨h.exists_rows evaluated, ?_⟩
  intro limit rows hrows
  obtain ⟨keyed, hkeyed, hkeys, rfl⟩ := h.exists_keyed hrows
  refine ⟨?_, fun key hc hr => ⟨?_, ?_⟩⟩
  · intro ht
    rw [List.length_map, hkeyed.length_eq finite known hmem ht hcells]
  · intro row hrow
    obtain ⟨p, rfl, rfl⟩ : ∃ p, keyed = [p] ∧ p.2 = row := by
      simpa [List.map_eq_singleton_iff] using hrow
    have hp := hkeyed.row p List.mem_cons_self
    rw [hkeyed.members_eq hkeys] at hp
    exact hp.get?_count hr hc hcells
  · intro hf row hrow
    obtain ⟨p, hp, rfl⟩ := List.mem_map.mp hrow
    obtain ⟨own, hown, hone⟩ :=
      Transform.exists_distinct_eq_one finite known hmem (hkeyed.mem_keys hp) hf
    rw [(hkeyed.row p hp).get?_count hr hc hown, hone]

theorem isFinite_ofGrades {grades : List (String × Binary64)}
    (h : ∀ grade ∈ grades, grade.2.isFinite = true) :
    ∀ r ∈ (Dataset.ofGrades grades).records, r.IsFinite := by
  intro r hr
  obtain ⟨s, hs, rfl⟩ := List.mem_map.mp hr
  obtain ⟨grade, hgrade, rfl⟩ := List.mem_map.mp hs
  exact Section.isFinite_record (h grade hgrade)

/-- Three averages of one department, two of them zeros of either sign. -/
theorem rows_grouped_eq_count_zeros :
    let grades := [("a", Binary64.zero), ("a", Binary64.zero.neg), ("a", Binary64.ofNat 1)]
    let d := Dataset.ofGrades grades
    let count : Rule := ⟨"n", .count, "c_avg"⟩
    let byAvg : Query := ⟨.all, ["c_avg", "n"], none, some ⟨["c_avg"], [count]⟩⟩
    let byDept : Query := ⟨.all, ["c_dept", "n"], none, some ⟨["c_dept"], [count]⟩⟩
    ((∀ r ∈ d.records, r.IsFinite) ∧ (∀ r ∈ d.records, ∃ b, Filter.all.eval r = .ok b) ∧
      (∃ r ∈ d.records, Filter.all.holds r = true) ∧ ∃ a, d.attributeOf "c_avg" = .ok a) ∧
    ∃ rows row, byAvg.execute (.ofGrades grades) 2 = .ok rows ∧
      byDept.execute (.ofGrades grades) 2 = .ok [row] ∧
      row.get? "n" = some (.number (.ofNat rows.length)) ∧
      ∀ own ∈ rows, own.get? "n" = some (.number (.ofNat 1)) := by
  intro grades d count byAvg byDept
  have finite : ∀ r ∈ d.records, r.IsFinite := isFinite_ofGrades (by decide)
  have evaluated : ∀ r ∈ d.records, ∃ b, Filter.all.eval r = .ok b :=
    fun _ _ => ⟨true, by rw [Filter.eval]⟩
  have matched : ∃ r ∈ d.records, Filter.all.holds r = true :=
    ⟨_, List.mem_cons_self, Filter.holds_of_eval (by rw [Filter.eval])⟩
  have known : ∃ a, d.attributeOf "c_avg" = .ok a := ⟨"avg", by rfl⟩
  have hresolve : byAvg.resolve (.ofGrades grades) = .ok d := by cbv
  have hresolve' : byDept.resolve (.ofGrades grades) = .ok d := by cbv
  have hrows : byAvg.execute (.ofGrades grades) 2 = .ok
      [⟨[("c_avg", .text "0"), ("n", .number (.ofNat 1))]⟩,
       ⟨[("c_avg", .text "1"), ("n", .number (.ofNat 1))]⟩] :=
    toOption_eq_some.mp (by decide +kernel)
  have hrow : byDept.execute (.ofGrades grades) 2 = .ok
      [⟨[("c_dept", .text "a"), ("n", .number (.ofNat 2))]⟩] :=
    toOption_eq_some.mp (by decide +kernel)
  obtain ⟨-, n, -, -, h⟩ :=
    @rows_grouped_eq_count (.ofGrades grades) d .all "c_avg" finite evaluated matched known
  obtain ⟨hlength, hown⟩ := (h byAvg _ ⟨by cbv, hresolve, rfl, rfl⟩).2 2 _ hrows
  have hcount := (h byDept _ ⟨by cbv, hresolve', rfl, rfl⟩).2 2 _ hrow
  refine ⟨⟨finite, evaluated, matched, known⟩, _, _, hrows, hrow, ?_, ?_⟩
  · rw [hlength rfl]
    exact (hcount.2 "n" (by decide) (by decide)).1 _ rfl
  · exact (hown "n" (by decide) (by decide)).2 (by decide)

end Query

end CampusQuery
