import CampusQuery.Proofs.Query.GroupRow
import CampusQuery.Proofs.Query.Locality
import CampusQuery.Proofs.Query.Parts
import CampusQuery.Proofs.Query.Ungrouped
import Mathlib

namespace CampusQuery

open Outcome

def Cell.Alike (c c' : Cell) : Prop := c.toJson.compact = c'.toJson.compact

/-- The same names, over cells that are written alike. -/
def Row.Alike (a b : Row) : Prop :=
  List.Forall₂ (fun p p' => p.1 = p'.1 ∧ p.2.Alike p'.2) a.cells b.cells

theorem Cell.Alike.refl (c : Cell) : c.Alike c := Eq.refl _

/-- Neither the sign of a zero nor what a NaN carries is written. -/
theorem Binary64.alike_of_level {x y : Binary64} (h : x.level? = y.level?) :
    (Cell.number x).Alike (.number y) := by
  cases hx : x.level? with
  | none =>
    have hy := h.symm.trans hx
    cases x with
    | quietNaN s p =>
      cases y with
      | quietNaN t q => rfl
      | finite t n => cases hy
      | infinite t => cases hy
    | finite s m => cases hx
    | infinite s => cases hx
  | some i =>
    rcases eq_or_zeros_of_same (same_iff.mpr ⟨i, hx, h ▸ hx⟩) with rfl | ⟨rfl, rfl⟩ | ⟨rfl, rfl⟩
    · exact .refl _
    · rfl
    · rfl

namespace Row

variable {a b : Row}

theorem Alike.toText_eq (h : a.Alike b) : a.toJson.toText = b.toJson.toText := by
  obtain ⟨cells⟩ := a
  obtain ⟨cells'⟩ := b
  change List.Forall₂ _ cells cells' at h
  have hmembers : Json.compactMembers (cells.map fun p => (p.1, p.2.toJson)) =
      Json.compactMembers (cells'.map fun p => (p.1, p.2.toJson)) := by
    induction h with
    | nil => rfl
    | cons hp _ ih =>
      rw [List.map_cons, List.map_cons, Json.compactMembers, Json.compactMembers, hp.1, hp.2, ih]
  rw [Json.toText, Json.toText, toJson, toJson, Json.compact, Json.compact, hmembers]

theorem Alike.get? (h : a.Alike b) {column : String} {c c' : Cell} (hc : a.get? column = some c)
    (hc' : b.get? column = some c') : c.Alike c' := by
  obtain ⟨cells⟩ := a
  obtain ⟨cells'⟩ := b
  change List.Forall₂ _ cells cells' at h
  rw [Row.get?] at hc hc'
  induction h with
  | nil => cases hc
  | @cons p p' cells cells' hp _ ih =>
    obtain ⟨name, v⟩ := p
    obtain ⟨name', v'⟩ := p'
    obtain ⟨rfl, hv⟩ := hp
    by_cases hn : column = name
    · subst hn
      rw [List.lookup_cons_self, Option.some.injEq] at hc hc'
      exact hc ▸ hc' ▸ hv
    · rw [List.lookup_cons, beq_false_of_ne hn] at hc hc'
      exact ih hc hc'

theorem Alike.project (h : a.Alike b) {columns : List String} {p p' : Row}
    (hp : a.project columns = .ok p) (hp' : b.project columns = .ok p') : p.Alike p' := by
  have hboth := forall₂_comp (project_eq_ok.mp hp).flip (project_eq_ok.mp hp')
  refine hboth.imp ?_
  rintro cell cell' ⟨column, ⟨hname, hget⟩, hname', hget'⟩
  exact ⟨hname.trans hname'.symm, h.get? hget hget'⟩

end Row

/-- Numbers that are extreme in lists with the same elements stand at one place. -/
theorem Binary64.IsExtreme.level_eq {exceeds : Binary64 → Binary64 → Bool} {x y : Binary64}
    {xs ys : List Binary64} (hx : x.IsExtreme exceeds xs) (hy : y.IsExtreme exceeds ys)
    (hmem : ∀ z, z ∈ xs ↔ z ∈ ys)
    (hsame : ∀ x y : Binary64, x.isNaN = false → y.isNaN = false → exceeds x y = false →
      exceeds y x = false → x.same y = true) : x.level? = y.level? := by
  have hxy := hx.not_exceeded y ((hmem y).mpr hy.mem)
  have hyx := hy.not_exceeded x ((hmem x).mp hx.mem)
  by_cases hnan : x.isNaN = true
  · have hnan' := hx.isNaN hnan y ((hmem y).mpr hy.mem)
    rw [level?_eq_none.mpr hnan, level?_eq_none.mpr hnan']
  · have hnan' : y.isNaN = false := by
      rw [← Bool.not_eq_true]
      exact fun h => hnan (hy.isNaN h x ((hmem x).mp hx.mem))
    obtain ⟨i, hi, hj⟩ := same_iff.mp (hsame x y (by simpa using hnan) hnan' hyx hxy)
    rw [hi, hj]

def Token.orderFree : List Token := [max, min, count]

namespace Rule

variable {rule : Rule} {group group' : List Record}

theorem Values.mem_iff_of_perm {field : String} {cells cells' : List Cell}
    (h : Values field group cells) (h' : Values field group' cells') (hperm : group.Perm group')
    (c : Cell) : c ∈ cells ↔ c ∈ cells' := by
  simp only [h.mem_iff, h'.mem_iff, hperm.mem_iff]

theorem IsValue.alike {c c' : Cell} (hrule : rule.token ∈ Token.orderFree)
    (hperm : group.Perm group') (h : rule.IsValue group c) (h' : rule.IsValue group' c') :
    c.Alike c' := by
  unfold IsValue at h h'
  -- What is greatest or least depends on the elements alone, not on their order.
  have hmem {xs xs' : List Binary64} (hxs : Values rule.field group (xs.map .number))
      (hxs' : Values rule.field group' (xs'.map .number)) (z : Binary64) : z ∈ xs ↔ z ∈ xs' := by
    simp only [hxs.mem_number_iff, hxs'.mem_number_iff, hperm.mem_iff]
  cases ht : rule.token with
  | max =>
    rw [ht] at h h'
    obtain ⟨xs, x, hxs, rfl, hx⟩ := h
    obtain ⟨xs', x', hxs', rfl, hx'⟩ := h'
    refine Binary64.alike_of_level (hx.level_eq hx' (hmem hxs hxs') ?_)
    intro x y hnx hny hxy hyx
    exact Binary64.same_of_lt_eq_false hny hnx hxy hyx
  | min =>
    rw [ht] at h h'
    obtain ⟨xs, x, hxs, rfl, hx⟩ := h
    obtain ⟨xs', x', hxs', rfl, hx'⟩ := h'
    refine Binary64.alike_of_level (hx.level_eq hx' (hmem hxs hxs') ?_)
    intro x y hnx hny hxy hyx
    exact Binary64.same_of_lt_eq_false hny hnx hyx hxy
  | count =>
    rw [ht] at h h'
    obtain ⟨cells, hcells, rfl⟩ := h
    obtain ⟨cells', hcells', rfl⟩ := h'
    have hset : (cells.map Cell.unsigned).toFinset = (cells'.map Cell.unsigned).toFinset := by
      ext c
      simp only [List.mem_toFinset, List.mem_map, hcells.mem_iff_of_perm hcells' hperm]
    rw [hset]
    exact .refl _
  | avg => simp [Token.orderFree, ht] at hrule
  | sum => simp [Token.orderFree, ht] at hrule
  | unknown name => simp [Token.orderFree, ht] at hrule

end Rule

namespace Transform

variable {t : Transform} {records records' : List Record}

theorem distinctKeys_perm (hperm : records.Perm records') :
    (t.distinctKeys records).Perm (t.distinctKeys records') := by
  apply (List.perm_ext_iff_of_nodup (t.nodup_distinctKeys _) (t.nodup_distinctKeys _)).mpr
  intro key
  simp only [mem_distinctKeys, hperm.mem_iff]

variable (hrules : ∀ rule ∈ t.apply, rule.token ∈ Token.orderFree)
include hrules

theorem rowOf_alike {key : List String} {group group' : List Record} (hperm : group.Perm group')
    {row row' : Row} (h : t.rowOf key group = .ok row) (h' : t.rowOf key group' = .ok row') :
    row.Alike row' := by
  obtain ⟨values, hvalues, rfl⟩ := rowOf_eq_ok.mp h
  obtain ⟨values', hvalues', rfl⟩ := rowOf_eq_ok.mp h'
  have hfree := (List.forall₂_and_left _ _).mpr ⟨hrules, hvalues'⟩
  apply List.rel_append
  · exact List.forall₂_same.mpr fun p _ => ⟨rfl, .refl _⟩
  · refine (forall₂_comp hvalues.flip hfree).imp ?_
    rintro p p' ⟨rule, ⟨hname, heval⟩, hrule, hname', heval'⟩
    exact ⟨hname.trans hname'.symm,
      (Rule.isValue_of_eval heval).alike hrule hperm (Rule.isValue_of_eval heval')⟩

theorem groupRow_alike {columns key : List String} (hperm : records.Perm records') {row row' : Row}
    (h : t.groupRow columns records key = .ok row)
    (h' : t.groupRow columns records' key = .ok row') : row.Alike row' := by
  obtain ⟨full, hfull, hrow⟩ := groupRow_eq_ok.mp h
  obtain ⟨full', hfull', hrow'⟩ := groupRow_eq_ok.mp h'
  exact (rowOf_alike hrules (hperm.filter _) hfull hfull').project hrow hrow'

end Transform

/-- What is made of the elements of a list, each by itself, is made of a permutation of the list. -/
theorem map_perm_of_forall₂ {α β γ : Type} {R S : α → β → Prop} {xs xs' : List α} {ys ys' : List β}
    (hperm : xs.Perm xs') (hR : List.Forall₂ R xs ys) (hS : List.Forall₂ S xs' ys') {f : β → γ}
    (hf : ∀ x y y', R x y → S x y' → f y = f y') : (ys.map f).Perm (ys'.map f) := by
  obtain ⟨zs, hzs, hzs_perm⟩ := List.perm_comp_forall₂ hperm.symm hR
  have heq : List.Forall₂ (fun z y' => f z = f y') zs ys' := by
    refine (forall₂_comp hzs.flip hS).imp ?_
    rintro z y' ⟨x, hxz, hxy'⟩
    exact hf x z y' hxz hxy'
  have hmap : zs.map f = ys'.map f := by
    rwa [← List.forall₂_eq_eq_eq, List.forall₂_map_left_iff, List.forall₂_map_right_iff]
  exact hmap ▸ (hzs_perm.map f).symm

def rowTexts (rows : List Row) : List String := rows.map fun row => row.toJson.toText

namespace Query

variable {q : Query} {d d' : Dataset} {records records' : List Record} {rows rows' : List Row}

theorem project_perm (hid : d.id = d'.id) (hkind : d.kind = d'.kind)
    (hperm : records.Perm records')
    (hrules : ∀ t, q.transform = some t → ∀ rule ∈ t.apply, rule.token ∈ Token.orderFree)
    (h : q.project d records = .ok rows) (h' : q.project d' records' = .ok rows') :
    (rowTexts rows).Perm (rowTexts rows') := by
  rw [← q.project_congr hid hkind] at h'
  cases ht : q.transform with
  | none =>
    obtain ⟨columns, hcolumns, hrows⟩ := (project_eq_ok_of_ungrouped ht).mp h
    obtain ⟨columns', hcolumns', hrows'⟩ := (project_eq_ok_of_ungrouped ht).mp h'
    refine map_perm_of_forall₂ hperm hrows hrows' ?_
    intro r row row' hrow hrow'
    have hboth := forall₂_comp (Record.isRow_of_project hcolumns hrow).flip
      (Record.isRow_of_project hcolumns' hrow')
    apply Row.Alike.toText_eq
    refine hboth.imp ?_
    rintro p p' ⟨column, ⟨hname, hget⟩, hname', hget'⟩
    rw [hget, Option.some.injEq] at hget'
    exact ⟨hname.trans hname'.symm, hget' ▸ .refl _⟩
  | some t =>
    obtain ⟨-, -, hrows⟩ := (project_grouped_eq_ok ht).mp h
    obtain ⟨-, -, hrows'⟩ := (project_grouped_eq_ok ht).mp h'
    refine map_perm_of_forall₂ (Transform.distinctKeys_perm hperm) hrows hrows' ?_
    intro key row row' hrow hrow'
    exact (Transform.groupRow_alike (hrules t ht) hperm hrow hrow').toText_eq

theorem WellTyped.exists_answer (hid : '_' ∉ d.id.toList) (valid : q.check = .ok ())
    (typed : q.WellTyped d.kind d.id) :
    ∃ unordered, q.project d (q.matching d) = .ok unordered ∧
      q.answer d = .ok (q.order.elim unordered (·.sort unordered)) := by
  have hselect : q.filter.select d.records = .ok (q.matching d) :=
    Filter.select_eq_ok.mpr ⟨fun r hr => typed.filter.exists_eval hid (d.fits hr), rfl⟩
  obtain ⟨unordered, hproject⟩ := typed.exists_project hid valid rfl rfl
    (fun r hr => d.fits (List.mem_filter.mp hr).1)
  exact ⟨unordered, hproject, answer_eq_ok.mpr ⟨_, unordered, hselect, hproject, rfl⟩⟩

theorem WellTyped.resolve_eq {store : Store} (hid : '_' ∉ d.id.toList) (valid : q.check = .ok ())
    (typed : q.WellTyped d.kind d.id) (held : store.get d.id = .ok d) :
    q.resolve store = .ok d :=
  resolve_eq_ok.mpr ⟨d.id, typed.datasetId hid valid, held⟩

/-- Of datasets with the same records in different orders a well-typed query that groups, if it
does, by `MAX`, `MIN` and `COUNT` only shows the same rows, each as often. -/
theorem execute_perm {store store' : Store} (limit : ℕ) (hid : '_' ∉ d.id.toList)
    (sameId : d.id = d'.id) (sameKind : d.kind = d'.kind) (perm : d.records.Perm d'.records)
    (held : store.get d.id = .ok d) (held' : store'.get d.id = .ok d') (valid : q.check = .ok ())
    (typed : q.WellTyped d.kind d.id)
    (tokens : ∀ t, q.transform = some t → ∀ rule ∈ t.apply, rule.token ∈ Token.orderFree) :
    (∃ rows rows', q.execute store limit = .ok rows ∧ q.execute store' limit = .ok rows' ∧
      (rowTexts rows).Perm (rowTexts rows')) ∨
    ∃ n, limit < n ∧ q.execute store limit = .error (.tooManyRows n limit) ∧
      q.execute store' limit = .error (.tooManyRows n limit) := by
  obtain ⟨unordered, hproject, hanswer⟩ := typed.exists_answer hid valid
  have typed' : q.WellTyped d'.kind d'.id := sameId ▸ sameKind ▸ typed
  obtain ⟨unordered', hproject', hanswer'⟩ := typed'.exists_answer (sameId ▸ hid) valid
  have hresolve := typed.resolve_eq hid valid held
  have hresolve' := typed'.resolve_eq (sameId ▸ hid) valid (sameId ▸ held')
  have hunordered : (rowTexts unordered).Perm (rowTexts unordered') :=
    project_perm sameId sameKind (perm.filter _) tokens hproject hproject'
  have hsorted := (Order.elim_sort_perm q.order unordered).map fun row => row.toJson.toText
  have hsorted' := (Order.elim_sort_perm q.order unordered').map fun row => row.toJson.toText
  have hrows := (hsorted.trans hunordered).trans hsorted'.symm
  have hlength := hrows.length_eq
  rw [List.length_map, List.length_map] at hlength
  rw [execute_of_answer hresolve hanswer, execute_of_answer hresolve' hanswer', ← hlength]
  by_cases hlimit : (q.order.elim unordered (·.sort unordered)).length ≤ limit
  · rw [if_pos hlimit, if_pos hlimit]
    exact .inl ⟨_, _, rfl, rfl, hrows⟩
  · rw [if_neg hlimit, if_neg hlimit]
    exact .inr ⟨_, Nat.not_le.mp hlimit, rfl, rfl⟩

/-- Two departments, the first with two zeros of different sign; the largest changes its sign with
the order of the records. -/
theorem execute_perm_bestByDept :
    let q : Query := ⟨.all, ["c_dept", "best"], some (.column "c_dept"), some bestByDept⟩
    let store := Store.ofGrades [("b", .zero), ("a", .zero), ("a", Binary64.zero.neg)]
    let store' := Store.ofGrades [("a", Binary64.zero.neg), ("a", .zero), ("b", .zero)]
    (∃ rows rows', q.execute store 2 = .ok rows ∧ q.execute store' 2 = .ok rows' ∧
      (rowTexts rows).Perm (rowTexts rows')) ∨
    ∃ n, 2 < n ∧ q.execute store 2 = .error (.tooManyRows n 2) ∧
      q.execute store' 2 = .error (.tooManyRows n 2) := by
  intro q store store'
  let d := Dataset.ofGrades [("b", .zero), ("a", .zero), ("a", Binary64.zero.neg)]
  let d' := Dataset.ofGrades [("a", Binary64.zero.neg), ("a", .zero), ("b", .zero)]
  have havg : Kind.sections.HasField "c" "c_avg" .number := ⟨"avg", rfl, by decide⟩
  have hdept : Kind.sections.HasField "c" "c_dept" .text := ⟨"dept", rfl, by decide⟩
  have perm : d.records.Perm d'.records := by
    have hreverse : d'.records = d.records.reverse := rfl
    rw [hreverse]
    exact (List.reverse_perm _).symm
  have hid : '_' ∉ d.id.toList := by decide
  have sameId : d.id = d'.id := rfl
  have typed : q.WellTyped d.kind d.id := by
    refine ⟨.all, ?_, ?_, ?_⟩
    · rintro t ⟨⟩ field hf
      exact ⟨.text, List.mem_singleton.mp hf ▸ hdept⟩
    · rintro t ⟨⟩ rule hr
      exact List.mem_singleton.mp hr ▸ havg
    · intro column hc hkey
      rcases List.mem_cons.mp hc with rfl | hc
      · exact ⟨.text, hdept⟩
      · exact absurd hc hkey
  refine execute_perm 2 hid sameId rfl perm rfl rfl rfl typed ?_
  rintro t ⟨⟩ rule hr
  rw [List.mem_singleton.mp hr]
  decide

end Query

end CampusQuery
