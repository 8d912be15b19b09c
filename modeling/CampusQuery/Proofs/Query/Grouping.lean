import CampusQuery.Proofs.Distinct
import CampusQuery.Proofs.Query.Evaluation
import CampusQuery.Query.Aggregate

namespace CampusQuery

open Outcome

/-- Every key once, each with all the values that stand under it. -/
theorem groupByKey_eq {κ α : Type} [BEq κ] [LawfulBEq κ] (pairs : List (κ × α)) :
    groupByKey pairs =
      (pairs.map (·.1)).eraseDups.map fun k => (k, (pairs.filter (·.1 == k)).map (·.2)) := by
  fun_induction groupByKey pairs with
  | case1 => rfl
  | case2 k a rest ih =>
    -- The groups behind the first are those of the pairs without its key.
    have hkeys : (rest.map (·.1)).filter (fun b => !b == k) =
        (rest.filter (·.1 != k)).map (·.1) := by
      rw [List.filter_map]
      rfl
    simp only [List.unattach_filter, List.unattach_attach] at ih
    rw [ih, List.map_cons, List.eraseDups_cons, List.map_cons, hkeys]
    congr 1
    · simp
    · apply List.map_congr_left
      intro k' hk'
      have hne : k' ≠ k := by
        rw [List.mem_eraseDups, List.mem_map] at hk'
        obtain ⟨p, hp, rfl⟩ := hk'
        simpa using (List.mem_filter.mp hp).2
      rw [List.filter_filter, List.filter_cons_of_neg (by simpa using hne.symm)]
      congr 2
      apply List.filter_congr
      intro p _
      by_cases hp : p.1 = k' <;> simp [hp, hne]

namespace Transform

variable (t : Transform)

def key? (r : Record) : Option (List String) :=
  t.group.mapM fun field => (r (FieldName.attributeName field)).map Cell.keyText

/-- The keys that occur among records, in the order in which they first do. -/
def distinctKeys (records : List Record) : List (List String) :=
  (records.filterMap t.key?).eraseDups

def members (records : List Record) (key : List String) : List Record :=
  records.filter (t.key? · == some key)

variable {t}

theorem keyOf_eq_ok {r : Record} {key : List String} :
    t.keyOf r = .ok key ↔ t.key? r = some key := by
  simp only [keyOf, key?, mapM_eq_ok, mapM_eq_some, bind_eq_ok, pure_eq_ok, Record.cell_eq_ok,
    Option.map_eq_some_iff]

theorem mem_distinctKeys {records : List Record} {key : List String} :
    key ∈ t.distinctKeys records ↔ ∃ r ∈ records, t.key? r = some key := by
  rw [distinctKeys, List.mem_eraseDups, List.mem_filterMap]

theorem mem_members {records : List Record} {key : List String} {r : Record} :
    r ∈ t.members records key ↔ r ∈ records ∧ t.key? r = some key := by
  rw [members, List.mem_filter, beq_iff_eq]

theorem nodup_distinctKeys (t : Transform) (records : List Record) :
    (t.distinctKeys records).Nodup := by
  exact Distinct.nodup_eraseDups _

theorem members_ne_nil {records : List Record} {key : List String}
    (h : key ∈ t.distinctKeys records) : t.members records key ≠ [] := by
  obtain ⟨r, hr, hkey⟩ := mem_distinctKeys.mp h
  exact List.ne_nil_of_mem (mem_members.mpr ⟨hr, hkey⟩)

theorem keyed_eq_ok {r : Record} {p : List String × Record} :
    (do return (← t.keyOf r, r)) = Except.ok p ↔ t.key? r = some p.1 ∧ r = p.2 := by
  obtain ⟨key, r'⟩ := p
  simp only [bind_eq_ok, pure_eq_ok, keyOf_eq_ok, Prod.mk.injEq]
  constructor
  · rintro ⟨_, h, rfl, hr⟩
    exact ⟨h, hr⟩
  · rintro ⟨h, hr⟩
    exact ⟨key, h, rfl, hr⟩

/-- Records paired with their keys, read back by key. -/
theorem keyed_eq {records : List Record} {keyed : List (List String × Record)}
    (h : List.Forall₂ (fun r p => t.key? r = some p.1 ∧ r = p.2) records keyed) :
    (∀ r ∈ records, ∃ key, t.key? r = some key) ∧
      groupByKey keyed = (t.distinctKeys records).map fun key => (key, t.members records key) := by
  have hread : (∀ r ∈ records, ∃ key, t.key? r = some key) ∧
      keyed.map (·.1) = records.filterMap t.key? ∧
      ∀ key, (keyed.filter (·.1 == key)).map (·.2) = t.members records key := by
    induction h with
    | nil => exact ⟨by simp, rfl, fun _ => rfl⟩
    | @cons r p records keyed hp _ ih =>
      obtain ⟨hkey, rfl⟩ := hp
      obtain ⟨hall, hkeys, hmembers⟩ := ih
      refine ⟨List.forall_mem_cons.mpr ⟨⟨_, hkey⟩, hall⟩, ?_, ?_⟩
      · rw [List.map_cons, List.filterMap_cons_some hkey, hkeys]
      · intro key
        rw [members, List.filter_cons, List.filter_cons, hkey, ← members, ← hmembers key]
        by_cases hk : p.1 = key <;> simp [hk]
  obtain ⟨hall, hkeys, hmembers⟩ := hread
  refine ⟨hall, ?_⟩
  simp only [groupByKey_eq, hkeys, hmembers, distinctKeys]

theorem groups_eq_ok {records : List Record} {groups : List (List String × List Record)} :
    t.groups records = .ok groups ↔ (∀ r ∈ records, ∃ key, t.key? r = some key) ∧
      groups = (t.distinctKeys records).map fun key => (key, t.members records key) := by
  simp only [Transform.groups, bind_eq_ok (f := fun keyed => pure (groupByKey keyed)), pure_eq_ok,
    mapM_eq_ok, keyed_eq_ok]
  constructor
  · rintro ⟨keyed, hkeyed, rfl⟩
    exact keyed_eq hkeyed
  · rintro ⟨hall, rfl⟩
    obtain ⟨keyed, hkeyed⟩ : ∃ keyed, records.mapM (fun r => return (← t.keyOf r, r)) = .ok keyed :=
      exists_mapM_eq_ok fun r hr => by
        obtain ⟨key, hkey⟩ := hall r hr
        exact ⟨(key, r), keyed_eq_ok.mpr ⟨hkey, rfl⟩⟩
    simp only [mapM_eq_ok, keyed_eq_ok] at hkeyed
    exact ⟨keyed, hkeyed, (keyed_eq hkeyed).2⟩

theorem existsUnique_key {records : List Record} {r : Record} (hr : r ∈ records)
    (h : ∃ key, t.key? r = some key) :
    ∃! key, key ∈ t.distinctKeys records ∧ r ∈ t.members records key := by
  obtain ⟨key, hkey⟩ := h
  refine ⟨key, ⟨mem_distinctKeys.mpr ⟨r, hr, hkey⟩, mem_members.mpr ⟨hr, hkey⟩⟩, ?_⟩
  rintro other ⟨-, hother⟩
  have := (mem_members.mp hother).2
  rw [hkey, Option.some.injEq] at this
  exact this.symm

/-- The members of the groups under different keys are the records that have one of the keys. -/
theorem flatMap_members_perm (t : Transform) (records : List Record) {keys : List (List String)}
    (hn : keys.Nodup) :
    (keys.flatMap (t.members records)).Perm
      (records.filter fun r => decide (t.key? r ∈ keys.map some)) := by
  induction keys with
  | nil => simp
  | cons key keys ih =>
    rw [List.nodup_cons] at hn
    rw [List.flatMap_cons]
    have hfirst : t.members records key = (records.filter fun r =>
        decide (t.key? r ∈ (key :: keys).map some)).filter (t.key? · == some key) := by
      rw [members, List.filter_filter]
      apply List.filter_congr
      intro r _
      by_cases h : t.key? r = some key <;> simp [h]
    have hrest : (records.filter fun r => decide (t.key? r ∈ keys.map some)) =
        (records.filter fun r =>
          decide (t.key? r ∈ (key :: keys).map some)).filter fun r => !(t.key? r == some key) := by
      rw [List.filter_filter]
      apply List.filter_congr
      intro r _
      by_cases h : t.key? r = some key <;> simp [h, hn.1]
    -- Among the records with one of the keys, the first key and the others part them in two.
    rw [hfirst]
    refine ((ih hn.2).append_left _).trans ?_
    rw [hrest]
    exact List.filter_append_perm _ _

/-- Nothing is lost and nothing is doubled. -/
theorem members_perm {records : List Record}
    (h : ∀ r ∈ records, ∃ key, t.key? r = some key) :
    ((t.distinctKeys records).flatMap (t.members records)).Perm records := by
  have hall : (records.filter fun r => decide (t.key? r ∈ (t.distinctKeys records).map some)) =
      records := by
    rw [List.filter_eq_self]
    intro r hr
    obtain ⟨key, hkey⟩ := h r hr
    rw [decide_eq_true_eq, hkey]
    exact List.mem_map_of_mem (mem_distinctKeys.mpr ⟨r, hr, hkey⟩)
  have hperm := t.flatMap_members_perm records (t.nodup_distinctKeys records)
  rwa [hall] at hperm

end Transform

end CampusQuery
