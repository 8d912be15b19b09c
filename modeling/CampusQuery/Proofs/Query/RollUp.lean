import CampusQuery.Proofs.Query.GroupRow
import CampusQuery.Proofs.Query.Parts
import CampusQuery.Proofs.Query.Typing

namespace CampusQuery

open Outcome

namespace Row

def agrees (columns : List String) (a b : Row) : Bool :=
  columns.all fun column => a.get? column == b.get? column

theorem agrees_comm (columns : List String) (a b : Row) :
    a.agrees columns b = b.agrees columns a := by
  unfold agrees
  congr 1
  funext column
  exact Bool.beq_comm

def covers (fields : List String) (row : Row) (r : Record) : Bool :=
  fields.all fun field =>
    row.get? field == (r (FieldName.attributeName field)).map fun c => .text c.keyText

end Row

namespace Transform

/-- Every finer row belongs to one coarser row, every coarser row has finer rows, and its cells under
the rules follow from theirs. -/
structure IsRollUp (t : Transform) (records : List Record) (rows finer : List Row) : Prop where
  unique : ∀ part ∈ finer, ∃ row, rows.filter (part.agrees t.group) = [row]
  inhabited : ∀ row ∈ rows, finer.filter (row.agrees t.group) ≠ []
  rules : ∀ row ∈ rows, ∀ rule ∈ t.apply,
    rule.RollsUp (records.filter (row.covers t.group)) row (finer.filter (row.agrees t.group))

variable {t t' : Transform} {columns key : List String} {records : List Record} {row : Row}

theorem IsRow.get?_of_mem (h : t.IsRow columns (t.members records key) row) {field : String}
    (hf : field ∈ t.group) (hc : field ∈ columns) {r : Record} (hr : r ∈ t.members records key) :
    row.get? field = (r (FieldName.attributeName field)).map fun c => .text c.keyText := by
  obtain ⟨c, hget⟩ := Row.exists_get? (h.columns_eq ▸ hc : field ∈ row.columns)
  obtain ⟨v, hv, hcell⟩ := h.grouped (field, c) (Keyed.mem_of_get? hget) hf r hr
  rw [hget, hv, Option.map_some]
  exact congrArg some hcell

theorem IsRow.exists_value {group : List Record} (h : t.IsRow columns group row) {rule : Rule}
    (hr : rule ∈ t.apply) (hc : rule.key ∈ columns) :
    ∃ c, row.get? rule.key = some c ∧ rule.IsValue group c := by
  obtain ⟨c, hget⟩ := Row.exists_get? (h.columns_eq ▸ hc : rule.key ∈ row.columns)
  obtain ⟨other, hother, hvalue⟩ :=
    h.applied (rule.key, c) (Keyed.mem_of_get? hget) (List.mem_map_of_mem hr)
  have hmem : rule ∈ t.apply.filter (·.key == rule.key) :=
    List.mem_filter.mpr ⟨hr, beq_self_eq_true _⟩
  rw [hother, List.mem_singleton] at hmem
  exact ⟨c, hget, hmem ▸ hvalue⟩

/-- The row of a group covers the records of the group and no others. -/
theorem IsRow.covers_iff (h : t.IsRow columns (t.members records key) row)
    (hcolumns : ∀ field ∈ t.group, field ∈ columns) (hkey : key ∈ t.distinctKeys records)
    {r : Record} : row.covers t.group r = true ↔ t.key? r = some key := by
  obtain ⟨r₀, hr₀, hkey₀⟩ := mem_distinctKeys.mp hkey
  have hinj : Function.Injective fun s : String => Cell.text s := fun _ _ h => Cell.text.inj h
  rw [key?_eq_iff hkey₀, Row.covers, List.all_eq_true]
  refine forall₂_congr fun field hf => ?_
  rw [beq_iff_eq, h.get?_of_mem hf (hcolumns field hf) (mem_members.mpr ⟨hr₀, hkey₀⟩), eq_comm,
    ← (Option.map_injective hinj).eq_iff, Option.map_map, Option.map_map]
  rfl

/-- A row agrees with the row of a finer group if it covers the records of this group. -/
theorem IsRow.agrees_eq_covers (hgroup : ∀ field ∈ t.group, field ∈ t'.group) {part : Row}
    (h : t'.IsRow columns (t'.members records key) part)
    (hcolumns : ∀ field ∈ t'.group, field ∈ columns) {r : Record}
    (hr : r ∈ t'.members records key) (row : Row) :
    row.agrees t.group part = row.covers t.group r := by
  rw [Bool.eq_iff_iff, Row.agrees, Row.covers, List.all_eq_true, List.all_eq_true]
  refine forall₂_congr fun field hf => ?_
  rw [h.get?_of_mem (hgroup field hf) (hcolumns field (hgroup field hf)) hr]

section Keyed

variable {columns' : List String} {keyed finer : List (List String × Row)}
  (hgroup : ∀ field ∈ t.group, field ∈ t'.group) (h : t.IsKeyed columns records keyed)
  (h' : t'.IsKeyed columns' records finer) (hcolumns : ∀ field ∈ t.group, field ∈ columns)
  (hcolumns' : ∀ field ∈ t'.group, field ∈ columns')

include h in
theorem IsKeyed.mem_keys {p : List String × Row} (hp : p ∈ keyed) :
    p.1 ∈ t.distinctKeys records :=
  h.keys.mem_iff.mp (List.mem_map_of_mem hp)

include h in
theorem IsKeyed.exists_row {r : Record} (hr : r ∈ records) (hkey : t.key? r = some key) :
    ∃ row, (key, row) ∈ keyed := by
  obtain ⟨p, hp, rfl⟩ := List.mem_map.mp
    (h.keys.mem_iff.mpr (mem_distinctKeys.mpr ⟨r, hr, hkey⟩))
  exact ⟨p.2, hp⟩

include h in
/-- No two rows stand beside one key. -/
theorem IsKeyed.filter_eq_singleton {p : List String × Row} (hp : p ∈ keyed) :
    keyed.filter (·.1 == p.1) = [p] := by
  have hn : (keyed.map (·.1)).Nodup := h.keys.nodup_iff.mpr (t.nodup_distinctKeys records)
  apply Distinct.eq_singleton (List.Nodup.of_map _ hn |>.filter _)
  intro other
  rw [List.mem_filter, beq_iff_eq]
  constructor
  · rintro ⟨ho, hkey⟩
    exact List.inj_on_of_nodup_map hn ho hp hkey
  · rintro rfl
    exact ⟨hp, rfl⟩

include hgroup h h' hcolumns hcolumns' in
/-- Rows agree if the records of the finer group have the key of the coarser. -/
theorem IsKeyed.agrees_iff {p p' : List String × Row} (hp : p ∈ keyed) (hp' : p' ∈ finer)
    {r : Record} (hr : r ∈ records) (hkey : t'.key? r = some p'.1) :
    p.2.agrees t.group p'.2 = true ↔ t.key? r = some p.1 := by
  rw [(h'.row p' hp').agrees_eq_covers hgroup hcolumns' (mem_members.mpr ⟨hr, hkey⟩) p.2,
    (h.row p hp).covers_iff hcolumns (h.mem_keys hp)]

include h hcolumns in
theorem IsKeyed.filter_covers {p : List String × Row} (hp : p ∈ keyed) :
    records.filter (p.2.covers t.group) = t.members records p.1 := by
  apply List.filter_congr
  intro r _
  rw [Bool.eq_iff_iff, (h.row p hp).covers_iff hcolumns (h.mem_keys hp), beq_iff_eq]

variable (hkeys : ∀ r ∈ records, ∃ key, t.key? r = some key)
  (hkeys' : ∀ r ∈ records, ∃ key, t'.key? r = some key)

include hgroup h h' hcolumns hcolumns' hkeys' in
/-- The finer groups whose rows agree with a row share out its group. -/
theorem IsKeyed.members_perm_of_agrees {p : List String × Row} (hp : p ∈ keyed) :
    ((finer.filter fun p' => p.2.agrees t.group p'.2).map
      fun p' => t'.members records p'.1).flatten.Perm (t.members records p.1) := by
  have hn : (finer.map (·.1)).Nodup := h'.keys.nodup_iff.mpr (t'.nodup_distinctKeys records)
  have hsub : ((finer.filter fun p' => p.2.agrees t.group p'.2).map (·.1)).Nodup :=
    hn.sublist (List.filter_sublist.map _)
  have hperm := t'.flatMap_members_perm records hsub
  rw [List.flatMap, List.map_map] at hperm
  refine hperm.trans (.of_eq ?_)
  apply List.filter_congr
  intro r hr
  obtain ⟨key, hkey⟩ := hkeys' r hr
  rw [Bool.eq_iff_iff, decide_eq_true_eq, beq_iff_eq, hkey, List.map_map, List.mem_map]
  constructor
  · rintro ⟨p', hp', heq⟩
    obtain ⟨hmem, hagrees⟩ := List.mem_filter.mp hp'
    exact (agrees_iff hgroup h h' hcolumns hcolumns' hp hmem hr
      (hkey.trans heq.symm)).mp hagrees
  · intro hcoarse
    obtain ⟨row, hrow⟩ := h'.exists_row hr hkey
    refine ⟨(key, row), List.mem_filter.mpr ⟨hrow, ?_⟩, rfl⟩
    exact (agrees_iff hgroup h h' hcolumns hcolumns' hp hrow hr hkey).mpr hcoarse

include hgroup h h' hcolumns hcolumns' hkeys hkeys' in
theorem IsKeyed.isRollUp (happly : t'.apply = t.apply)
    (hrules : ∀ key ∈ t.keys, key ∈ columns ∧ key ∈ columns')
    (hnumber : ∀ r ∈ records, ∀ a x, r a = some (.number x) → x.isNaN = false)
    (hwhole : ∀ r ∈ records, ∀ a ∈ wholeAttributes, ∀ x, r a = some (.number x) →
      ∃ n, x.toInt? = some n) :
    t.IsRollUp records (keyed.map (·.2)) (finer.map (·.2)) where
  unique := by
    intro part hpart
    obtain ⟨p', hp', rfl⟩ := List.mem_map.mp hpart
    obtain ⟨r, hr, hkey'⟩ := mem_distinctKeys.mp (h'.mem_keys hp')
    obtain ⟨key, hkey⟩ := hkeys r hr
    obtain ⟨row, hrow⟩ := h.exists_row hr hkey
    refine ⟨row, ?_⟩
    -- The rows that agree with the part stand beside the key that its records have there.
    have hfilter : keyed.filter (fun p => p'.2.agrees t.group p.2) = keyed.filter (·.1 == key) := by
      apply List.filter_congr
      intro p hp
      rw [Row.agrees_comm, Bool.eq_iff_iff, beq_iff_eq,
        agrees_iff hgroup h h' hcolumns hcolumns' hp hp' hr hkey', hkey, Option.some.injEq, eq_comm]
    rw [List.filter_map]
    have := congrArg (List.map (·.2)) (hfilter.trans (h.filter_eq_singleton hrow))
    exact this
  inhabited := by
    intro row hrow
    obtain ⟨p, hp, rfl⟩ := List.mem_map.mp hrow
    obtain ⟨r, hr, hkey⟩ := mem_distinctKeys.mp (h.mem_keys hp)
    obtain ⟨key', hkey'⟩ := hkeys' r hr
    obtain ⟨part, hpart⟩ := h'.exists_row hr hkey'
    refine List.ne_nil_of_mem (a := part) (List.mem_filter.mpr ⟨?_, ?_⟩)
    · exact List.mem_map_of_mem (f := Prod.snd) hpart
    · exact (agrees_iff hgroup h h' hcolumns hcolumns' hp hpart hr hkey').mpr hkey
  rules := by
    intro row hrow rule hrule
    obtain ⟨p, hp, rfl⟩ := List.mem_map.mp hrow
    obtain ⟨hcolumn, hcolumn'⟩ := hrules rule.key (List.mem_map_of_mem hrule)
    have hmem : ∀ r ∈ t.members records p.1, r ∈ records := fun r hr => (mem_members.mp hr).1
    rw [h.filter_covers hcolumns hp, List.filter_map]
    refine Rule.rollsUp
      (members_perm_of_agrees hgroup h h' hcolumns hcolumns' hkeys' hp)
      (fun r hr => hnumber r (hmem r hr)) (fun r hr => hwhole r (hmem r hr))
      ((h.row p hp).exists_value hrule hcolumn) ?_
    rw [List.forall₂_map_left_iff, List.forall₂_map_right_iff]
    refine List.forall₂_same.mpr fun p' hp' => ?_
    exact (h'.row p' (List.mem_of_mem_filter hp')).exists_value (happly ▸ hrule) hcolumn'

end Keyed

end Transform

theorem Section.exists_toInt? (s : Section) {a : String} (ha : a ∈ wholeAttributes) {x : Binary64}
    (h : s.record a = some (.number x)) : ∃ n, x.toInt? = some n := by
  have hyear : s.year.toInt.natAbs < 2 ^ 53 := by
    have := s.year.toInt_lt
    have := s.year.le_toInt
    omega
  have hpass : s.pass.toNat < 2 ^ 53 := s.pass.toNat_lt.trans (by norm_num)
  have hfail : s.fail.toNat < 2 ^ 53 := s.fail.toNat_lt.trans (by norm_num)
  have haudit : s.audit.toNat < 2 ^ 53 := s.audit.toNat_lt.trans (by norm_num)
  simp only [wholeAttributes, List.mem_cons, List.not_mem_nil, or_false] at ha
  rcases ha with rfl | rfl | rfl | rfl | rfl
  · cases h
    exact ⟨_, Binary64.toInt?_ofInt hyear⟩
  · cases h
    exact ⟨_, Binary64.toInt?_ofNat hpass⟩
  · cases h
    exact ⟨_, Binary64.toInt?_ofNat hfail⟩
  · cases h
    exact ⟨_, Binary64.toInt?_ofNat haudit⟩
  · cases h

theorem Room.exists_toInt? (r : Room) {a : String} (ha : a ∈ wholeAttributes) {x : Binary64}
    (h : r.record a = some (.number x)) : ∃ n, x.toInt? = some n := by
  have hseats : r.seats.toNat < 2 ^ 53 := r.seats.toNat_lt.trans (by norm_num)
  simp only [wholeAttributes, List.mem_cons, List.not_mem_nil, or_false] at ha
  rcases ha with rfl | rfl | rfl | rfl | rfl
  · cases h
  · cases h
  · cases h
  · cases h
  · cases h
    exact ⟨_, Binary64.toInt?_ofNat hseats⟩

theorem Binary64.isNaN_ofRatio (neg : Bool) (num den : ℕ) : (ofRatio neg num den).isNaN = false := by
  unfold ofRatio
  split <;> rfl

/-- Only the average of a section can be a NaN. -/
theorem Section.isNaN_eq_false {s : Section} (havg : s.avg.isNaN = false) {a : String}
    {x : Binary64} (h : s.record a = some (.number x)) : x.isNaN = false := by
  obtain ⟨attr, hfind, hcell⟩ := Option.map_eq_some_iff.mp h
  have hmem := List.mem_of_find?_eq_some hfind
  simp only [attributes, List.mem_cons, List.not_mem_nil, or_false] at hmem
  rcases hmem with rfl | rfl | rfl | rfl | rfl | rfl | rfl | rfl | rfl | rfl
  all_goals cases hcell
  · exact Binary64.isNaN_ofRatio _ _ _
  · exact havg
  all_goals exact Binary64.isNaN_ofRatio _ _ _

theorem Dataset.exists_toInt? (d : Dataset) {r : Record} (hr : r ∈ d.records) {a : String}
    (ha : a ∈ wholeAttributes) {x : Binary64} (h : r a = some (.number x)) :
    ∃ n, x.toInt? = some n := by
  obtain ⟨id, contents, loadedAt⟩ := d
  cases contents with
  | sections all =>
    obtain ⟨s, -, rfl⟩ := List.mem_map.mp hr
    exact s.exists_toInt? ha h
  | rooms all =>
    obtain ⟨room, -, rfl⟩ := List.mem_map.mp hr
    exact room.exists_toInt? ha h

namespace Query

/-- Queries with a grouped field in common that both find their dataset find the same. -/
theorem resolve_eq_of_field {q q' : Query} {store : Store} {d d' : Dataset} {field : String}
    (hd : q.resolve store = .ok d) (hd' : q'.resolve store = .ok d') (hf : field ∈ q.names)
    (hf' : field ∈ q'.names) {id : String} (hid : FieldName.dataset? field = some id) : d = d' := by
  obtain ⟨i, hi, hget⟩ := resolve_eq_ok.mp hd
  obtain ⟨j, hj, hget'⟩ := resolve_eq_ok.mp hd'
  have hi : id = i := (datasetId_eq_ok.mp hi id).mp (List.mem_filterMap.mpr ⟨field, hf, hid⟩)
  have hj : id = j := (datasetId_eq_ok.mp hj id).mp (List.mem_filterMap.mpr ⟨field, hf', hid⟩)
  rw [← hi] at hget
  rw [← hj, hget] at hget'
  exact Except.ok.inj hget'

/-- Of two answers that differ in the fields grouped by, the one with fewer is the roll-up of the
other. -/
theorem execute_rollUp {q q' : Query} {t t' : Transform} {store : Store} {limit limit' : Nat}
    {rows rows' : List Row} (valid : q.check = .ok ()) (valid' : q'.check = .ok ())
    (ht : q.transform = some t) (ht' : q'.transform = some t') (hfilter : q'.filter = q.filter)
    (happly : t'.apply = t.apply) (hgroup : ∀ field ∈ t.group, field ∈ t'.group)
    (hcolumns : ∀ column, column ∈ t.group ∨ column ∈ t.keys → column ∈ q.columns)
    (hcolumns' : ∀ column, column ∈ t'.group ∨ column ∈ t'.keys → column ∈ q'.columns)
    (h : q.execute store limit = .ok rows) (h' : q'.execute store limit' = .ok rows')
    (numbers : ∀ d, q.resolve store = .ok d → ∀ r ∈ d.records, ∀ a x,
      r a = some (.number x) → x.isNaN = false) :
    ∃ d, q.resolve store = .ok d ∧ t.IsRollUp (q.matching d) rows rows' := by
  obtain ⟨d, hd, hanswer, -⟩ := execute_eq_ok.mp h
  obtain ⟨d', hd', hanswer', -⟩ := execute_eq_ok.mp h'
  obtain ⟨grouped, sorted, hsorted, rfl⟩ := exists_isGrouped ht hanswer
  obtain ⟨grouped', sorted', hsorted', rfl⟩ := exists_isGrouped ht' hanswer'
  have hcheck := (check_eq_ok.mp valid).2.2.2 t ht
  have hcheck' := (check_eq_ok.mp valid').2.2.2 t' ht'
  obtain rfl : d = d' := by
    obtain ⟨field, hf⟩ := List.exists_mem_of_ne_nil _ (Transform.check_eq_ok.mp hcheck).1
    obtain ⟨a, ha⟩ := hsorted.exists_split? hf
    have hname : FieldName.dataset? field = some d.id := by rw [FieldName.dataset?, ha, Option.map_some]
    refine resolve_eq_of_field hd hd' ?_ ?_ hname
    · rw [names, ht]
      exact List.mem_append_right _ (List.mem_append_left _ hf)
    · rw [names, ht']
      exact List.mem_append_right _ (List.mem_append_left _ (hgroup field hf))
  have hmatching : q'.matching d = q.matching d := by rw [matching, hfilter, matching]
  have hmem : ∀ r ∈ q.matching d, r ∈ d.records := fun r hr => List.mem_of_mem_filter hr
  refine ⟨d, hd, Transform.IsKeyed.isRollUp hgroup (hsorted.isKeyed hcheck)
    (hmatching ▸ hsorted'.isKeyed hcheck') (fun field hf => hcolumns field (.inl hf))
    (fun field hf => hcolumns' field (.inl hf)) hsorted.keyed (hmatching ▸ hsorted'.keyed) happly
    ?_ (fun r hr => numbers d hd r (hmem r hr))
    (fun r hr a ha x hx => d.exists_toInt? (hmem r hr) ha hx)⟩
  intro key hkey
  refine ⟨hcolumns key (.inr hkey), hcolumns' key (.inr ?_)⟩
  rwa [Transform.keys, happly]

/-- Two departments, one of them with two averages and years of both. -/
def yearlySections : List Section :=
  [⟨"", "", "", "", "a", 2015, .zero, 0, 0, 0⟩, ⟨"", "", "", "", "b", 1900, .zero, 0, 0, 0⟩,
   ⟨"", "", "", "", "a", 2016, .infinite false, 0, 0, 0⟩,
   ⟨"", "", "", "", "a", 2018, .zero, 0, 0, 0⟩]

theorem execute_rollUp_yearly :
    let rules : List Rule :=
      [⟨"best", .max, "c_avg"⟩, ⟨"n", .count, "c_avg"⟩, ⟨"years", .sum, "c_year"⟩]
    let q : Query := ⟨.all, ["c_dept", "best", "n", "years"], none, some ⟨["c_dept"], rules⟩⟩
    let store : Store := .ready ⟨[("c", ⟨"c", .sections yearlySections, .epoch⟩)]⟩
    let cells (best : Binary64) (n years : Nat) : List (String × Cell) :=
      [("best", .number best), ("n", .number (.ofNat n)), ("years", .number (.ofNat years))]
    ∃ d, q.resolve store = .ok d ∧ Transform.IsRollUp ⟨["c_dept"], rules⟩ (q.matching d)
      [⟨("c_dept", .text "a") :: cells (.infinite false) 2 6049⟩,
       ⟨("c_dept", .text "b") :: cells .zero 1 1900⟩]
      [⟨("c_dept", .text "a") :: ("c_avg", .text "0") :: cells .zero 1 4033⟩,
       ⟨("c_dept", .text "b") :: ("c_avg", .text "0") :: cells .zero 1 1900⟩,
       ⟨("c_dept", .text "a") :: ("c_avg", .text "inf") :: cells (.infinite false) 1 2016⟩] := by
  intro rules q store cells
  let q' : Query := ⟨.all, ["c_dept", "c_avg", "best", "n", "years"], none,
    some ⟨["c_dept", "c_avg"], rules⟩⟩
  have h : q.execute store 3 = .ok
      [⟨("c_dept", .text "a") :: cells (.infinite false) 2 6049⟩,
       ⟨("c_dept", .text "b") :: cells .zero 1 1900⟩] := by
    decide +kernel
  have h' : q'.execute store 3 = .ok
      [⟨("c_dept", .text "a") :: ("c_avg", .text "0") :: cells .zero 1 4033⟩,
       ⟨("c_dept", .text "b") :: ("c_avg", .text "0") :: cells .zero 1 1900⟩,
       ⟨("c_dept", .text "a") :: ("c_avg", .text "inf") :: cells (.infinite false) 1 2016⟩] := by
    decide +kernel
  have hresolve : q.resolve store = .ok ⟨"c", .sections yearlySections, .epoch⟩ := by cbv
  refine @execute_rollUp q q' _ _ _ _ _ _ _ (by rfl) (by rfl) rfl rfl rfl rfl (by decide) ?_ ?_ h h' ?_
  · intro column hc
    simpa [Transform.keys, rules, q] using hc
  · intro column hc
    simpa [Transform.keys, rules, q', or_assoc] using hc
  · intro d hd r hr a x hx
    rw [hresolve] at hd
    obtain rfl := Except.ok.inj hd
    obtain ⟨s, hs, rfl⟩ := List.mem_map.mp hr
    have hnumbers : ∀ s ∈ yearlySections, s.avg.isNaN = false := by decide
    exact Section.isNaN_eq_false (hnumbers s hs) hx

end Query

end CampusQuery
