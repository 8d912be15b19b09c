import CampusQuery.Proofs.Dataset.Finite
import CampusQuery.Proofs.Query.GroupRow
import CampusQuery.Proofs.Query.Overflow
import CampusQuery.Proofs.Query.Parts
import CampusQuery.Proofs.Query.Ungrouped

namespace CampusQuery

open Outcome

namespace Rule

variable {rule : Rule} {field : String} {group : List Record} {c : Cell}

/-- The rule is a sum or an average that goes beyond the doubles over the group. -/
def Overflows (rule : Rule) (group : List Record) : Prop :=
  (rule.token = .sum ∨ rule.token = .avg) ∧
    ∃ xs, Values rule.field group (xs.map .number) ∧ Aggregate.Overflows xs

theorem Values.isFinite {xs : List Binary64} (h : Values field group (xs.map .number))
    (hgroup : ∀ r ∈ group, r.IsFinite) {x : Binary64} (hx : x ∈ xs) : x.isFinite = true := by
  obtain ⟨r, hr, hrx⟩ := h.mem_number_iff.mp hx
  exact hgroup r hr hrx

/-- A sum or an average overflows if its numbers do. -/
theorem overflows_iff {xs : List Binary64} (hvalues : Values rule.field group (xs.map .number))
    (htoken : rule.token = .sum ∨ rule.token = .avg) :
    rule.Overflows group ↔ Aggregate.Overflows xs := by
  constructor
  · rintro ⟨-, xs', hvalues', h⟩
    have hmap := hvalues.unique hvalues'
    rw [List.map_inj_right fun _ _ h => Cell.number.inj h] at hmap
    exact hmap ▸ h
  · exact fun h => ⟨htoken, xs, hvalues, h⟩

theorem IsValue.isFinite_iff (h : rule.IsValue group c) (hgroup : ∀ r ∈ group, r.IsFinite)
    (hsize : group.length ≤ 2 ^ 64) : c.IsFinite ↔ ¬rule.Overflows group := by
  -- Only sums and averages overflow.
  have hother (htoken : rule.token ≠ .sum ∧ rule.token ≠ .avg) : ¬rule.Overflows group :=
    fun hoverflow => hoverflow.1.elim htoken.1 htoken.2
  unfold IsValue at h
  cases htoken : rule.token with
  | max =>
    rw [htoken] at h
    obtain ⟨xs, x, hvalues, rfl, hx⟩ := h
    exact iff_of_true (hvalues.isFinite hgroup hx.mem) (hother (by simp [htoken]))
  | min =>
    rw [htoken] at h
    obtain ⟨xs, x, hvalues, rfl, hx⟩ := h
    exact iff_of_true (hvalues.isFinite hgroup hx.mem) (hother (by simp [htoken]))
  | count =>
    rw [htoken] at h
    obtain ⟨cells, hvalues, rfl⟩ := h
    have hcard : (cells.map Cell.unsigned).toFinset.card ≤ 2 ^ 64 := by
      refine (List.toFinset_card_le _).trans ?_
      rwa [List.length_map, ← List.Forall₂.length_eq hvalues]
    exact iff_of_true (Binary64.within_ofNat (by norm_num) hcard).isFinite
      (hother (by simp [htoken]))
  | avg =>
    rw [htoken] at h
    obtain ⟨xs, hvalues, rfl⟩ := h
    have hlength : xs.length ≤ 2 ^ 64 := by
      rwa [← xs.length_map, ← List.Forall₂.length_eq hvalues]
    rw [overflows_iff hvalues (.inr htoken)]
    exact Aggregate.isFinite_mean_iff hlength
  | sum =>
    rw [htoken] at h
    obtain ⟨xs, hvalues, rfl⟩ := h
    rw [overflows_iff hvalues (.inl htoken)]
    exact Aggregate.isFinite_sum_iff xs
  | unknown name =>
    rw [htoken] at h
    exact h.elim

end Rule

namespace Row

def IsFinite (row : Row) : Prop := ∀ cell ∈ row.cells, cell.2.IsFinite

end Row

/-- The row of a group shows only finite numbers if no sum or average among its columns overflows. -/
theorem Transform.IsRow.isFinite_iff {t : Transform} {columns : List String} {group : List Record}
    {row : Row} (h : t.IsRow columns group row) (hne : group ≠ [])
    (hgroup : ∀ r ∈ group, r.IsFinite) (hsize : group.length ≤ 2 ^ 64) :
    row.IsFinite ↔ ¬∃ rule ∈ t.apply, rule.key ∈ columns ∧ rule.Overflows group := by
  obtain ⟨r, hr⟩ := List.exists_mem_of_ne_nil _ hne
  constructor
  · rintro hfinite ⟨rule, hrule, hcolumn, hoverflow⟩
    rw [← h.columns_eq] at hcolumn
    obtain ⟨cell, hcell, hname⟩ := List.mem_map.mp hcolumn
    obtain ⟨rule', hsingle, hvalue⟩ := h.applied cell hcell (hname ▸ List.mem_map_of_mem hrule)
    have hmem : rule ∈ t.apply.filter (·.key == cell.1) := by
      rw [List.mem_filter, beq_iff_eq]
      exact ⟨hrule, hname.symm⟩
    rw [hsingle, List.mem_singleton] at hmem
    rw [← hmem] at hvalue
    exact (hvalue.isFinite_iff hgroup hsize).mp (hfinite cell hcell) hoverflow
  · intro hnone cell hcell
    have hcolumn : cell.1 ∈ columns := h.columns_eq ▸ List.mem_map_of_mem hcell
    rcases h.covered cell.1 hcolumn with ⟨hg, -⟩ | ⟨hk, -⟩
    · obtain ⟨v, -, hv⟩ := h.grouped cell hcell hg r hr
      rw [hv]
      trivial
    · obtain ⟨rule, hsingle, hvalue⟩ := h.applied cell hcell hk
      have hmem : rule ∈ t.apply.filter (·.key == cell.1) := by
        rw [hsingle]
        exact List.mem_singleton_self rule
      rw [List.mem_filter, beq_iff_eq] at hmem
      rw [hvalue.isFinite_iff hgroup hsize]
      exact fun hoverflow => hnone ⟨rule, hmem.1, hmem.2 ▸ hcolumn, hoverflow⟩

namespace Query

variable {q : Query} {d : Dataset} {rows : List Row}

/-- A sum or average among the columns goes beyond the doubles over one of the groups. -/
def Overflows (q : Query) (d : Dataset) : Prop :=
  ∃ t, q.transform = some t ∧ ∃ key ∈ t.distinctKeys (q.matching d),
    ∃ rule ∈ t.apply, rule.key ∈ q.columns ∧ rule.Overflows (t.members (q.matching d) key)

theorem isFinite_answer_of_ungrouped (ht : q.transform = none) (h : q.answer d = .ok rows)
    (hd : ∀ r ∈ d.records, r.IsFinite) : ∀ row ∈ rows, row.IsFinite := by
  obtain ⟨selected, unordered, hselect, hproject, rfl⟩ := answer_eq_ok.mp h
  obtain ⟨-, rfl⟩ := Filter.select_eq_ok.mp hselect
  obtain ⟨columns, -, hrows⟩ := (project_eq_ok_of_ungrouped ht).mp hproject
  intro row hrow cell hcell
  rw [(Order.elim_sort_perm q.order unordered).mem_iff] at hrow
  obtain ⟨r, hr, hcells⟩ := exists_of_mem_right hrows hrow
  obtain ⟨column, -, -, hget⟩ := exists_of_mem_right (Record.project_eq_ok.mp hcells) hcell
  exact hd r (List.mem_filter.mp hr).1 hget

/-- From finite records, the numbers of an answer are finite exactly if no sum or average among its
columns overflows. -/
theorem isFinite_answer_iff (valid : q.check = .ok ()) (h : q.answer d = .ok rows)
    (hd : ∀ r ∈ d.records, r.IsFinite) (hsize : d.records.length ≤ 2 ^ 64) :
    (∀ row ∈ rows, row.IsFinite) ↔ ¬q.Overflows d := by
  cases ht : q.transform with
  | none =>
    refine iff_of_true (isFinite_answer_of_ungrouped ht h hd) ?_
    rintro ⟨t, ht', -⟩
    cases ht.symm.trans ht'
  | some t =>
    have hcheck := (check_eq_ok.mp valid).2.2.2 t ht
    obtain ⟨grouped, sorted, hgrouped, rfl⟩ := exists_isGrouped ht h
    have hkeyed := hgrouped.isKeyed hcheck
    have hmembers (key : List String) : ∀ r ∈ t.members (q.matching d) key, r ∈ d.records :=
      fun r hr => (List.mem_filter.mp (Transform.mem_members.mp hr).1).1
    have hkey {key : List String} : key ∈ t.distinctKeys (q.matching d) ↔ ∃ p ∈ sorted, p.1 = key := by
      rw [← hkeyed.keys.mem_iff, List.mem_map]
    have hrow : ∀ p ∈ sorted, p.2.IsFinite ↔ ¬∃ rule ∈ t.apply, rule.key ∈ q.columns ∧
        rule.Overflows (t.members (q.matching d) p.1) := by
      intro p hp
      refine (hkeyed.row p hp).isFinite_iff ?_ (fun r hr => hd r (hmembers p.1 r hr)) ?_
      · exact Transform.members_ne_nil (hkey.mpr ⟨p, hp, rfl⟩)
      · exact ((List.length_filter_le _ _).trans (List.length_filter_le _ _)).trans hsize
    rw [List.forall_mem_map]
    constructor
    · rintro hfinite ⟨t', ht', key, hmem, hoverflow⟩
      cases ht.symm.trans ht'
      obtain ⟨p, hp, rfl⟩ := hkey.mp hmem
      exact (hrow p hp).mp (hfinite p hp) hoverflow
    · intro hnone p hp
      rw [hrow p hp]
      exact fun hoverflow => hnone ⟨t, ht, p.1, hkey.mpr ⟨p, hp, rfl⟩, hoverflow⟩

end Query

end CampusQuery
