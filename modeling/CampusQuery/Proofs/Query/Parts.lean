import CampusQuery.Proofs.Number.Sum
import CampusQuery.Proofs.Query.Aggregate
import CampusQuery.Query.Row
import Mathlib

namespace CampusQuery

open Outcome

namespace Binary64

theorem le_of_lt_eq_false {x y : Binary64} (hx : x.isNaN = false) (hy : y.isNaN = false)
    (h : x.lt y = false) : y.le x = true := by
  obtain ⟨i, hi⟩ := exists_level hx
  obtain ⟨j, hj⟩ := exists_level hy
  simp only [lt, le, relates, hi, hj, decide_eq_false_iff_not, decide_eq_true_eq] at h ⊢
  omega

theorem same_of_lt_eq_false {x y : Binary64} (hx : x.isNaN = false) (hy : y.isNaN = false)
    (h : x.lt y = false) (h' : y.lt x = false) : y.same x = true := by
  obtain ⟨i, hi⟩ := exists_level hx
  obtain ⟨j, hj⟩ := exists_level hy
  simp only [lt, same, relates, hi, hj, decide_eq_false_iff_not, beq_iff_eq] at h h' ⊢
  omega

end Binary64

def wholeAttributes : List String := ["year", "pass", "fail", "audit", "seats"]

def Record.whole? (field : String) (r : Record) : Option ℤ :=
  ((r (FieldName.attributeName field)).bind Cell.number?).bind Binary64.toInt?

namespace Row

def number? (column : String) (r : Row) : Option Binary64 := (r.get? column).bind Cell.number?

def whole? (column : String) (r : Row) : Option ℤ := (r.number? column).bind Binary64.toInt?

end Row

/-- The cell of a rule in the row of a group, beside its cells in the rows of the parts. The largest
number is the largest of the largest; whole numbers add up while they stay below fifty-three bits; a
value occurs in the group if it does in a part. -/
def Rule.RollsUp (rule : Rule) (members : List Record) (whole : Row) (parts : List Row) : Prop :=
  match rule.token with
  | .max => ∃ x xs, whole.number? rule.key = some x ∧ parts.mapM (Row.number? rule.key) = some xs ∧
      (∃ y ∈ xs, y.same x = true) ∧ ∀ y ∈ xs, y.le x = true
  | .min => ∃ x xs, whole.number? rule.key = some x ∧ parts.mapM (Row.number? rule.key) = some xs ∧
      (∃ y ∈ xs, y.same x = true) ∧ ∀ y ∈ xs, x.le y = true
  | .sum => FieldName.attributeName rule.field ∈ wholeAttributes →
      ∃ values, members.mapM (Record.whole? rule.field) = some values ∧
        ((values.map Int.natAbs).sum < 2 ^ 53 → ∃ n ns, whole.whole? rule.key = some n ∧
          parts.mapM (Row.whole? rule.key) = some ns ∧ n = ns.sum)
  | .count => ∃ (n : ℕ) (ns : List ℕ), whole.number? rule.key = some (Binary64.ofNat n) ∧
      parts.mapM (Row.number? rule.key) = some (ns.map Binary64.ofNat) ∧
      n ≤ members.length ∧ (∀ m ∈ ns, m ≤ n) ∧ n ≤ ns.sum
  | .avg | .unknown _ => True

namespace Rule

variable {field : String} {group : List Record} {parts : List (List Record)}

theorem Values.mem_iff {cells : List Cell} (h : Values field group cells) {c : Cell} :
    c ∈ cells ↔ ∃ r ∈ group, r (FieldName.attributeName field) = some c := by
  constructor
  · exact exists_of_mem_right h
  · rintro ⟨r, hr, hc⟩
    obtain ⟨c', hc', hr'⟩ := exists_of_mem_right h.flip hr
    rw [hc, Option.some.injEq] at hr'
    exact hr' ▸ hc'

theorem Values.mem_number_iff {xs : List Binary64} (h : Values field group (xs.map .number))
    {x : Binary64} :
    x ∈ xs ↔ ∃ r ∈ group, r (FieldName.attributeName field) = some (.number x) := by
  rw [← h.mem_iff, List.mem_map]
  simp

theorem mem_parts_iff (hperm : parts.flatten.Perm group) {r : Record} :
    r ∈ group ↔ ∃ part ∈ parts, r ∈ part := by
  rw [← hperm.mem_iff, List.mem_flatten]

/-- What is extreme in the group is extreme in one of the parts, and nothing in a part exceeds it. -/
theorem extreme_of_parts {exceeds : Binary64 → Binary64 → Bool} (hperm : parts.flatten.Perm group)
    {x : Binary64} {xs ys : List Binary64} (hxs : Values field group (xs.map .number))
    (hx : x.IsExtreme exceeds xs)
    (hparts : List.Forall₂ (fun part y => ∃ zs, Values field part (zs.map .number) ∧
      y.IsExtreme exceeds zs) parts ys) :
    (∃ y ∈ ys, exceeds x y = false ∧ exceeds y x = false) ∧
      ∀ y ∈ ys, y ∈ xs ∧ exceeds y x = false := by
  have hall : ∀ y ∈ ys, y ∈ xs := by
    intro y hy
    obtain ⟨part, hpart, zs, hzs, hextreme⟩ := exists_of_mem_right hparts hy
    obtain ⟨r, hr, hry⟩ := hzs.mem_number_iff.mp hextreme.mem
    exact hxs.mem_number_iff.mpr ⟨r, (mem_parts_iff hperm).mpr ⟨part, hpart, hr⟩, hry⟩
  refine ⟨?_, fun y hy => ⟨hall y hy, hx.not_exceeded y (hall y hy)⟩⟩
  -- The part that has the record with the extreme number has no other extreme.
  obtain ⟨r, hr, hrx⟩ := hxs.mem_number_iff.mp hx.mem
  obtain ⟨part, hpart, hr⟩ := (mem_parts_iff hperm).mp hr
  obtain ⟨y, hy, zs, hzs, hextreme⟩ := exists_of_mem_right hparts.flip hpart
  exact ⟨y, hy, hextreme.not_exceeded x (hzs.mem_number_iff.mpr ⟨r, hr, hrx⟩),
    hx.not_exceeded y (hall y hy)⟩

theorem card_le_sum {parts : List (Finset Cell)} {s : Finset Cell}
    (h : ∀ c ∈ s, ∃ p ∈ parts, c ∈ p) : s.card ≤ (parts.map Finset.card).sum := by
  induction parts generalizing s with
  | nil =>
    have hempty : s = ∅ := Finset.eq_empty_of_forall_notMem fun c hc => by simpa using h c hc
    rw [hempty]
    exact Nat.zero_le _
  | cons p parts ih =>
    have hrest : (s \ p).card ≤ (parts.map Finset.card).sum := by
      apply ih
      intro c hc
      obtain ⟨hcs, hcp⟩ := Finset.mem_sdiff.mp hc
      simpa [hcp] using h c hcs
    have hsplit : s.card ≤ (s \ p).card + p.card := Finset.card_le_card_sdiff_add_card
    rw [List.map_cons, List.sum_cons]
    omega

theorem card_of_parts (hperm : parts.flatten.Perm group) {cells : List Cell} {ns : List ℕ}
    (hcells : Values field group cells)
    (hparts : List.Forall₂ (fun part n => ∃ cells, Values field part cells ∧
      n = (cells.map Cell.unsigned).toFinset.card) parts ns) :
    (∀ n ∈ ns, n ≤ (cells.map Cell.unsigned).toFinset.card) ∧
      (cells.map Cell.unsigned).toFinset.card ≤ ns.sum := by
  constructor
  · intro n hn
    obtain ⟨part, hpart, cells', hcells', rfl⟩ := exists_of_mem_right hparts hn
    apply Finset.card_le_card
    intro c hc
    rw [List.mem_toFinset, List.mem_map] at hc ⊢
    obtain ⟨c, hc, rfl⟩ := hc
    obtain ⟨r, hr, hrc⟩ := hcells'.mem_iff.mp hc
    exact ⟨c, hcells.mem_iff.mpr ⟨r, (mem_parts_iff hperm).mpr ⟨part, hpart, hr⟩, hrc⟩, rfl⟩
  · obtain ⟨cellss, hcellss, hns⟩ := exists_forall₂_of_comp hparts
    have hmap : ns = (cellss.map fun cells => (cells.map Cell.unsigned).toFinset).map
        Finset.card := by
      rw [List.map_map, ← List.forall₂_eq_eq_eq, List.forall₂_map_right_iff]
      exact hns.flip
    rw [hmap]
    -- Every value of the group occurs in a part, perhaps in several.
    apply card_le_sum
    intro c hc
    rw [List.mem_toFinset, List.mem_map] at hc
    obtain ⟨c, hc, rfl⟩ := hc
    obtain ⟨r, hr, hrc⟩ := hcells.mem_iff.mp hc
    obtain ⟨part, hpart, hr⟩ := (mem_parts_iff hperm).mp hr
    obtain ⟨cells', hcells', hvalues⟩ := exists_of_mem_right hcellss.flip hpart
    refine ⟨_, List.mem_map_of_mem hcells', ?_⟩
    rw [List.mem_toFinset]
    exact List.mem_map_of_mem (Values.mem_iff hvalues |>.mpr ⟨r, hr, hrc⟩)

theorem forall₂_toInt? {xs : List Binary64} {ns : List ℤ}
    (hxs : Values field group (xs.map .number))
    (hns : group.mapM (Record.whole? field) = some ns) :
    List.Forall₂ (fun x n => x.toInt? = some n) xs ns := by
  rw [mapM_eq_some] at hns
  rw [Values, List.forall₂_map_right_iff] at hxs
  induction hns generalizing xs with
  | nil =>
    cases hxs
    exact .nil
  | @cons r n group ns hr _ ih =>
    cases hxs with
    | cons hx hxs =>
      refine .cons ?_ (ih hxs)
      rw [Record.whole?, hx] at hr
      exact hr

theorem filterMap_eq_of_mapM {α β : Type} {f : α → Option β} {xs : List α} {ys : List β}
    (h : xs.mapM f = some ys) : xs.filterMap f = ys := by
  rw [mapM_eq_some] at h
  induction h with
  | nil => rfl
  | cons hx _ ih => rw [List.filterMap_cons_some hx, ih]

theorem sum_of_parts (hperm : parts.flatten.Perm group) {values : List ℤ}
    (hvalues : group.mapM (Record.whole? field) = some values)
    (hbound : (values.map Int.natAbs).sum < 2 ^ 53) {xs ys : List Binary64}
    (hxs : Values field group (xs.map .number))
    (hparts : List.Forall₂ (fun part y => ∃ zs, Values field part (zs.map .number) ∧
      y = Aggregate.sum zs) parts ys) :
    ∃ ns : List ℤ, (Aggregate.sum xs).toInt? = some ns.sum ∧
      List.Forall₂ (fun y n => y.toInt? = some n) ys ns := by
  have hgroup := filterMap_eq_of_mapM hvalues
  have hvalues_perm := hgroup ▸ hperm.filterMap (Record.whole? field)
  refine ⟨parts.map fun part => (part.filterMap (Record.whole? field)).sum, ?_, ?_⟩
  · rw [Aggregate.toInt?_sum (forall₂_toInt? hxs hvalues) hbound, ← hvalues_perm.sum_eq,
      List.filterMap_flatten, List.sum_flatten, List.map_map]
    rfl
  · rw [List.forall₂_map_right_iff, List.forall₂_iff_zip]
    refine ⟨hparts.length_eq.symm, fun {y part} hmem => ?_⟩
    obtain ⟨zs, hzs, rfl⟩ := (List.forall₂_iff_zip.mp hparts.flip).2 hmem
    have hpart := (List.of_mem_zip hmem).2
    have hsub := (List.sublist_flatten_of_mem hpart).filterMap (Record.whole? field)
    obtain ⟨ns, hns⟩ : ∃ ns, part.mapM (Record.whole? field) = some ns := by
      simp only [mapM_eq_some] at hvalues ⊢
      apply exists_forall₂
      intro r hr
      obtain ⟨n, -, hn⟩ := exists_of_mem_right hvalues.flip
        ((mem_parts_iff hperm).mpr ⟨part, hpart, hr⟩)
      exact ⟨n, hn⟩
    -- The numbers of a part are some of the numbers of the group, so their sum is exact, too.
    have hle : (ns.map Int.natAbs).sum ≤ (values.map Int.natAbs).sum := by
      rw [← (hvalues_perm.map Int.natAbs).sum_eq, ← filterMap_eq_of_mapM hns]
      exact (hsub.map Int.natAbs).sum_le_sum fun _ _ => Nat.zero_le _
    rw [filterMap_eq_of_mapM hns]
    exact Aggregate.toInt?_sum (forall₂_toInt? hzs hns) (hle.trans_lt hbound)

/-- Rows that hold numbers, and what is known of these numbers. -/
theorem exists_numbers_of_rows {P : List Record → Binary64 → Prop} {key : String} {rows : List Row}
    (h : List.Forall₂ (fun part row => ∃ c, Row.get? row key = some c ∧
      ∃ x, c = .number x ∧ P part x) parts rows) :
    ∃ ys, rows.mapM (Row.number? key) = some ys ∧ List.Forall₂ P parts ys := by
  obtain ⟨ys, hys, hrows⟩ := exists_forall₂_of_comp (R := P)
    (S := fun y row => Row.number? key row = some y) (h.imp fun part row hrow => by
      obtain ⟨c, hc, x, rfl, hx⟩ := hrow
      exact ⟨x, hx, by rw [Row.number?, hc]; rfl⟩)
  exact ⟨ys, mapM_eq_some.mpr hrows.flip, hys⟩

theorem exists_extreme_of_rows {exceeds : Binary64 → Binary64 → Bool} {key : String}
    (hperm : parts.flatten.Perm group)
    (hnumber : ∀ r ∈ group, ∀ a x, r a = some (.number x) → x.isNaN = false)
    {whole : Row} {rows : List Row} {c : Cell} (hc : whole.get? key = some c)
    (h : ∃ xs x, Values field group (xs.map .number) ∧ c = .number x ∧ x.IsExtreme exceeds xs)
    (hparts : List.Forall₂ (fun part row => ∃ c, Row.get? row key = some c ∧ ∃ xs x,
      Values field part (xs.map .number) ∧ c = .number x ∧ x.IsExtreme exceeds xs) parts rows) :
    ∃ x ys, whole.number? key = some x ∧ rows.mapM (Row.number? key) = some ys ∧
      x.isNaN = false ∧ (∀ y ∈ ys, y.isNaN = false ∧ exceeds y x = false) ∧
      ∃ y ∈ ys, exceeds x y = false := by
  obtain ⟨xs, x, hxs, rfl, hx⟩ := h
  have hnan : ∀ x ∈ xs, x.isNaN = false := by
    intro x hx
    obtain ⟨r, hr, hrx⟩ := hxs.mem_number_iff.mp hx
    exact hnumber r hr _ x hrx
  obtain ⟨ys, hys, hextreme⟩ := exists_numbers_of_rows
    (P := fun part y => ∃ zs, Values field part (zs.map .number) ∧ y.IsExtreme exceeds zs) (by
      refine hparts.imp ?_
      rintro part row ⟨c, hc, zs, y, hzs, hy, hextreme⟩
      exact ⟨c, hc, y, hy, zs, hzs, hextreme⟩)
  obtain ⟨⟨y, hy, hxy, -⟩, hall⟩ := extreme_of_parts hperm hxs hx hextreme
  exact ⟨x, ys, by rw [Row.number?, hc]; rfl, hys, hnan x hx.mem,
    fun z hz => ⟨hnan z (hall z hz).1, (hall z hz).2⟩, y, hy, hxy⟩

/-- A whole attribute of which the group has the numbers has whole numbers. -/
theorem exists_wholes_of_values {xs : List Binary64} (hxs : Values field group (xs.map .number))
    (hwhole : ∀ r ∈ group, ∀ x, r (FieldName.attributeName field) = some (.number x) →
      ∃ n, x.toInt? = some n) : ∃ values, group.mapM (Record.whole? field) = some values := by
  simp only [mapM_eq_some]
  apply exists_forall₂
  intro r hr
  rw [Values, List.forall₂_map_right_iff] at hxs
  obtain ⟨x, -, hx⟩ := exists_of_mem_right hxs.flip hr
  obtain ⟨n, hn⟩ := hwhole r hr x hx
  exact ⟨n, by rw [Record.whole?, hx]; exact hn⟩

theorem sum_of_rows {key : String} (hperm : parts.flatten.Perm group) {values : List ℤ}
    (hvalues : group.mapM (Record.whole? field) = some values)
    (hbound : (values.map Int.natAbs).sum < 2 ^ 53) {xs : List Binary64}
    (hxs : Values field group (xs.map .number)) {whole : Row} {rows : List Row}
    (hc : whole.get? key = some (.number (Aggregate.sum xs)))
    (hparts : List.Forall₂ (fun part row => ∃ c, Row.get? row key = some c ∧ ∃ zs,
      Values field part (zs.map .number) ∧ c = .number (Aggregate.sum zs)) parts rows) :
    ∃ n ns, whole.whole? key = some n ∧ rows.mapM (Row.whole? key) = some ns ∧ n = ns.sum := by
  obtain ⟨ys, hys, hsums⟩ := exists_numbers_of_rows
    (P := fun part y => ∃ zs, Values field part (zs.map .number) ∧ y = Aggregate.sum zs) (by
      refine hparts.imp ?_
      rintro part row ⟨c, hc, zs, hzs, hy⟩
      exact ⟨c, hc, _, hy, zs, hzs, rfl⟩)
  obtain ⟨ns, hsum, hns⟩ := sum_of_parts hperm hvalues hbound hxs hsums
  refine ⟨ns.sum, ns, by rw [Row.whole?, Row.number?, hc]; exact hsum, ?_, rfl⟩
  rw [mapM_eq_some] at hys ⊢
  refine (forall₂_comp hys hns).imp ?_
  rintro row n ⟨y, hy, hn⟩
  rw [Row.whole?, hy]
  exact hn

theorem count_of_rows {key : String} (hperm : parts.flatten.Perm group) {cells : List Cell}
    (hcells : Values field group cells) {whole : Row} {rows : List Row}
    (hc : whole.get? key =
      some (.number (Binary64.ofNat (cells.map Cell.unsigned).toFinset.card)))
    (hparts : List.Forall₂ (fun part row => ∃ c, Row.get? row key = some c ∧ ∃ cells,
      Values field part cells ∧
        c = .number (Binary64.ofNat (cells.map Cell.unsigned).toFinset.card)) parts rows) :
    ∃ (n : ℕ) (ns : List ℕ), whole.number? key = some (Binary64.ofNat n) ∧
      rows.mapM (Row.number? key) = some (ns.map Binary64.ofNat) ∧
      n ≤ group.length ∧ (∀ m ∈ ns, m ≤ n) ∧ n ≤ ns.sum := by
  obtain ⟨ys, hys, hcounts⟩ := exists_numbers_of_rows (P := fun part y => ∃ n,
    (∃ cells, Values field part cells ∧ n = (cells.map Cell.unsigned).toFinset.card) ∧
      Binary64.ofNat n = y) (by
      refine hparts.imp ?_
      rintro part row ⟨c, hc, cells, hcells, hy⟩
      exact ⟨c, hc, _, hy, _, ⟨cells, hcells, rfl⟩, rfl⟩)
  obtain ⟨ns, hns, hmap⟩ := exists_forall₂_of_comp hcounts
  have hys_eq : ys = ns.map Binary64.ofNat := by
    rw [← List.forall₂_map_left_iff, List.forall₂_eq_eq_eq] at hmap
    exact hmap.symm
  have hcard : (cells.map Cell.unsigned).toFinset.card ≤ group.length := by
    rw [hcells.length_eq, ← List.length_map Cell.unsigned]
    exact List.toFinset_card_le _
  obtain ⟨hle, hsum⟩ := card_of_parts hperm hcells hns
  exact ⟨_, ns, by rw [Row.number?, hc]; rfl, hys_eq ▸ hys, hcard, hle, hsum⟩

/-- The values of a rule over a group and over its parts fit together. -/
theorem rollsUp {rule : Rule} (hperm : parts.flatten.Perm group)
    (hnumber : ∀ r ∈ group, ∀ a x, r a = some (.number x) → x.isNaN = false)
    (hwhole : ∀ r ∈ group, ∀ a ∈ wholeAttributes, ∀ x, r a = some (.number x) →
      ∃ n, x.toInt? = some n)
    {whole : Row} {rows : List Row}
    (h : ∃ c, whole.get? rule.key = some c ∧ rule.IsValue group c)
    (hparts : List.Forall₂ (fun part row => ∃ c, row.get? rule.key = some c ∧ rule.IsValue part c)
      parts rows) : rule.RollsUp group whole rows := by
  obtain ⟨c, hc, hvalue⟩ := h
  unfold RollsUp
  unfold IsValue at hvalue hparts
  cases ht : rule.token with
  | max =>
    simp only [ht] at hvalue hparts ⊢
    obtain ⟨x, ys, hx, hys, hxn, hall, y, hy, hxy⟩ :=
      exists_extreme_of_rows hperm hnumber hc hvalue hparts
    refine ⟨x, ys, hx, hys, ⟨y, hy, ?_⟩, fun z hz => ?_⟩
    · exact Binary64.same_of_lt_eq_false hxn (hall y hy).1 (hall y hy).2 hxy
    · exact Binary64.le_of_lt_eq_false hxn (hall z hz).1 (hall z hz).2
  | min =>
    simp only [ht] at hvalue hparts ⊢
    obtain ⟨x, ys, hx, hys, hxn, hall, y, hy, hxy⟩ :=
      exists_extreme_of_rows hperm hnumber hc hvalue hparts
    refine ⟨x, ys, hx, hys, ⟨y, hy, ?_⟩, fun z hz => ?_⟩
    · exact Binary64.same_of_lt_eq_false hxn (hall y hy).1 hxy (hall y hy).2
    · exact Binary64.le_of_lt_eq_false (hall z hz).1 hxn (hall z hz).2
  | sum =>
    simp only [ht] at hvalue hparts ⊢
    obtain ⟨xs, hxs, rfl⟩ := hvalue
    intro hattr
    obtain ⟨values, hvalues⟩ := exists_wholes_of_values hxs fun r hr => hwhole r hr _ hattr
    exact ⟨values, hvalues, fun hbound => sum_of_rows hperm hvalues hbound hxs hc hparts⟩
  | count =>
    simp only [ht] at hvalue hparts ⊢
    obtain ⟨cells, hcells, rfl⟩ := hvalue
    exact count_of_rows hperm hcells hc hparts
  -- The averages of the parts do not tell that of the group.
  | avg => trivial
  | unknown name => trivial

end Rule

end CampusQuery
