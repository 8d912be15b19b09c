import CampusQuery.Proofs.Dataset.Registry
import CampusQuery.Proofs.Query.Algebra
import CampusQuery.Proofs.Query.Scope
import CampusQuery.Proofs.Query.Typing
import CampusQuery.Proofs.Text.ByteOrder
import Mathlib

namespace CampusQuery

open Relation

namespace FieldName

def Carries (name id : String) : Prop := '_' ∉ id.toList ∧ ∃ a, name = qualify id a

theorem dataset?_eq_some {name id : String} : dataset? name = some id ↔ Carries name id := by
  constructor
  · intro h
    obtain ⟨⟨_, a⟩, hsplit, rfl⟩ := Option.map_eq_some_iff.mp h
    exact ⟨not_mem_of_split? hsplit, a, eq_qualify_of_split? hsplit⟩
  · rintro ⟨hid, a, rfl⟩
    exact dataset?_qualify a hid

theorem exists_carries {name : String} (h : '_' ∈ name.toList) : ∃ id, Carries name id := by
  obtain ⟨⟨id, a⟩, hsplit⟩ := exists_split? h
  exact ⟨id, not_mem_of_split? hsplit, a, eq_qualify_of_split? hsplit⟩

end FieldName

open FieldName

namespace Filter

inductive Mentions (field : String) : Filter → Prop
  | compare {op : Comparison} {literal : Binary64} : Mentions field (.compare op field literal)
  | like {pattern : Pattern} : Mentions field (.like field pattern)
  | operand {op : Connective} {operands : List Filter} {f : Filter} (hf : f ∈ operands)
      (h : Mentions field f) : Mentions field (.connect op operands)
  | not {f : Filter} (h : Mentions field f) : Mentions field (.not f)

variable {f g : Filter} {fs : List Filter} {op : Connective} {field : String}

theorem mentions_connect : (connect op fs).Mentions field ↔ ∃ f ∈ fs, f.Mentions field := by
  constructor
  · rintro (_ | _ | ⟨hf, h⟩)
    exact ⟨_, hf, h⟩
  · rintro ⟨f, hf, h⟩
    exact .operand hf h

theorem mentions_not : (not f).Mentions field ↔ f.Mentions field := by
  constructor
  · rintro (_ | _ | _ | h)
    exact h
  · exact .not

theorem mem_fields_iff : field ∈ f.fields ↔ f.Mentions field := by
  induction f using Filter.induction with
  | all =>
    rw [fields]
    constructor
    · rintro ⟨⟩
    · rintro ⟨⟩
  | connect op fs ih =>
    rw [fields, mem_fieldsOf, mentions_connect]
    exact exists_congr fun f => and_congr_right (ih f)
  | compare op name literal =>
    rw [fields, List.mem_singleton]
    constructor
    · rintro rfl
      exact .compare
    · rintro ⟨⟩
      rfl
  | like name pattern =>
    rw [fields, List.mem_singleton]
    constructor
    · rintro rfl
      exact .like
    · rintro ⟨⟩
      rfl
  | not f ih => rw [fields, ih, mentions_not]

theorem Rearrangement.mentions_iff (h : Rearrangement f g) :
    f.Mentions field ↔ g.Mentions field := by
  induction h with
  | permute h => simp only [mentions_connect, h.mem_iff]
  | @duplicate op f fs h =>
    simp only [mentions_connect, List.mem_cons, exists_eq_or_imp]
    exact ⟨.inr, fun hf => hf.elim (fun hf => ⟨f, h, hf⟩) id⟩
  | operand _ ih => simp [mentions_connect, or_and_right, exists_or, ih]
  | not _ ih => rw [mentions_not, mentions_not, ih]

theorem mentions_iff_of_eqvGen (h : EqvGen Rearrangement f g) :
    f.Mentions field ↔ g.Mentions field := by
  induction h with
  | rel _ _ h => exact h.mentions_iff
  | refl _ => rfl
  | symm _ _ _ ih => exact ih.symm
  | trans _ _ _ _ _ ih ih' => exact ih.trans ih'

end Filter

namespace Query

inductive Mentions (q : Query) : String → Prop
  | condition {field : String} (h : q.filter.Mentions field) : Mentions q field
  | column {name : String} (h : name ∈ q.columns) : Mentions q name
  | grouped {t : Transform} {field : String} (ht : q.transform = some t) (h : field ∈ t.group) :
      Mentions q field
  | applied {t : Transform} {rule : Rule} (ht : q.transform = some t) (h : rule ∈ t.apply) :
      Mentions q rule.field

/-- All names of a query, its sort keys and the keys of its rules included. -/
inductive Contains (q : Query) : String → Prop
  | mentioned {name : String} (h : q.Mentions name) : Contains q name
  | sortKey {o : Order} {name : String} (ho : q.order = some o) (h : name ∈ o.names) :
      Contains q name
  | ruleKey {t : Transform} {name : String} (ht : q.transform = some t) (h : name ∈ t.keys) :
      Contains q name

def carried (q : Query) : Set String := {id | ∃ name, q.Mentions name ∧ Carries name id}

/-- The same conditions, columns, grouped fields and rules, in any order and any number. -/
structure Rearranges (q q' : Query) : Prop where
  filter : EqvGen Filter.Rearrangement q.filter q'.filter
  columns : ∀ column, column ∈ q.columns ↔ column ∈ q'.columns
  transform : Option.Rel (fun t t' => (∀ field, field ∈ t.group ↔ field ∈ t'.group) ∧
    ∀ rule, rule ∈ t.apply ↔ rule ∈ t'.apply) q.transform q'.transform

variable {q q' : Query} {id name : String}

theorem mem_names_iff : name ∈ q.names ↔ q.Mentions name := by
  rw [names, List.mem_append, List.mem_append, Filter.mem_fields_iff]
  constructor
  · rintro ((h | h) | h)
    · exact .condition h
    · exact .column h
    · cases ht : q.transform with
      | none => simp [ht] at h
      | some t =>
        rw [ht, Option.elim_some, Transform.fields, List.mem_append, List.mem_map] at h
        rcases h with h | ⟨rule, h, rfl⟩
        · exact .grouped ht h
        · exact .applied ht h
  · rintro (h | h | ⟨ht, h⟩ | ⟨ht, h⟩)
    · exact .inl (.inl h)
    · exact .inl (.inr h)
    · simp [ht, Transform.fields, h]
    · rw [ht, Option.elim_some, Transform.fields]
      exact .inr (List.mem_append_right _ (List.mem_map_of_mem h))

theorem mem_datasetIds_iff : id ∈ q.datasetIds ↔ id ∈ q.carried := by
  rw [mem_datasetIds, List.mem_filterMap]
  simp only [mem_names_iff, dataset?_eq_some]
  rfl

theorem pairwise_datasetIds (q : Query) : q.datasetIds.Pairwise (· < ·) := by
  have hsorted : q.datasetIds.Pairwise (· ≤ ·) := List.pairwise_mergeSort' (· ≤ ·) _
  refine (hsorted.and q.nodup_datasetIds).imp ?_
  rintro a b ⟨hle, hne⟩
  exact lt_of_le_of_ne hle hne

theorem datasetIds_eq_nil_iff : q.datasetIds = [] ↔ q.carried = ∅ := by
  simp only [List.eq_nil_iff_forall_not_mem, Set.eq_empty_iff_forall_notMem, mem_datasetIds_iff]

theorem datasetIds_eq_singleton_iff : q.datasetIds = [id] ↔ q.carried = {id} := by
  rw [Set.ext_iff]
  simp only [← mem_datasetIds_iff, Set.mem_singleton_iff]
  constructor
  · intro h other
    rw [h, List.mem_singleton]
  · exact Distinct.eq_singleton q.nodup_datasetIds

theorem two_le_length_datasetIds (h : q.carried.Nontrivial) : 2 ≤ q.datasetIds.length := by
  obtain ⟨a, ha, b, hb, hne⟩ := h
  rw [← mem_datasetIds_iff] at ha hb
  rcases hids : q.datasetIds with _ | ⟨c, _ | ⟨d, ids⟩⟩
  · simp [hids] at ha
  · simp only [hids, List.mem_singleton] at ha hb
    exact absurd (ha.trans hb.symm) hne
  · simp

theorem datasetId_eq_noDataset : q.datasetId = .error .noDataset ↔ q.carried = ∅ := by
  rw [← datasetIds_eq_nil_iff]
  constructor
  · intro h
    unfold datasetId at h
    split at h
    · assumption
    · cases h
    · cases h
  · exact datasetId_of_nil

theorem datasetId_eq_ok_iff : q.datasetId = .ok id ↔ q.carried = {id} :=
  datasetId_of_single.trans datasetIds_eq_singleton_iff

theorem datasetId_of_nontrivial (h : q.carried.Nontrivial) :
    ∃ ids, q.datasetId = .error (.multipleDatasets ids) ∧
      (∀ id, id ∈ ids ↔ id ∈ q.carried) ∧ ids.Pairwise fun a b => utf8Bytes a < utf8Bytes b :=
  ⟨q.datasetIds, datasetId_of_many (two_le_length_datasetIds h), fun _ => mem_datasetIds_iff,
    q.pairwise_datasetIds.imp utf8Bytes_lt⟩

namespace Rearranges

theorem symm (h : q.Rearranges q') : q'.Rearranges q where
  filter := .symm _ _ h.filter
  columns column := (h.columns column).symm
  transform := by
    have ht := h.transform
    generalize q.transform = x, q'.transform = x' at ht
    rcases ht with ⟨hgroup, happly⟩ | _
    · exact .some ⟨fun field => (hgroup field).symm, fun rule => (happly rule).symm⟩
    · exact .none

theorem exists_transform (h : q.Rearranges q') {t : Transform} (ht : q.transform = some t) :
    ∃ t', q'.transform = some t' ∧ (∀ field, field ∈ t.group ↔ field ∈ t'.group) ∧
      ∀ rule, rule ∈ t.apply ↔ rule ∈ t'.apply := by
  have hrel := h.transform
  rw [ht] at hrel
  generalize q'.transform = x at hrel
  obtain ⟨hgroup, happly⟩ := hrel
  exact ⟨_, rfl, hgroup, happly⟩

theorem mentions (h : q.Rearranges q') (hname : q.Mentions name) : q'.Mentions name := by
  cases hname with
  | condition hname => exact .condition ((Filter.mentions_iff_of_eqvGen h.filter).mp hname)
  | column hname => exact .column ((h.columns name).mp hname)
  | grouped ht hname =>
    obtain ⟨t', ht', hgroup, -⟩ := h.exists_transform ht
    exact .grouped ht' ((hgroup name).mp hname)
  | applied ht hname =>
    obtain ⟨t', ht', -, happly⟩ := h.exists_transform ht
    exact .applied ht' ((happly _).mp hname)

theorem datasetId_eq (h : q.Rearranges q') : q'.datasetId = q.datasetId := by
  have hmem : ∀ id, id ∈ q'.datasetIds ↔ id ∈ q.datasetIds := by
    intro id
    rw [mem_datasetIds_iff, mem_datasetIds_iff]
    constructor
    · rintro ⟨name, hname, hid⟩
      exact ⟨name, h.symm.mentions hname, hid⟩
    · rintro ⟨name, hname, hid⟩
      exact ⟨name, h.mentions hname, hid⟩
  -- Both lists are increasing, so their members decide.
  rw [datasetId, datasetId,
    q'.pairwise_datasetIds.eq_of_mem_iff q.pairwise_datasetIds hmem]

end Rearranges

/-- In a checked query a sort key is a column, and the key of a rule has no underscore. -/
theorem carries_of_contains (valid : q.check = .ok ()) (hid : q.carried = {id})
    (hname : q.Contains name) (h : '_' ∈ name.toList) : Carries name id := by
  obtain ⟨-, -, horder, htransform⟩ := check_eq_ok.mp valid
  -- Sort keys and the keys of rules are not looked at for ids, but the check ties them to the rest.
  have hmentioned : q.Mentions name := by
    cases hname with
    | mentioned hname => exact hname
    | sortKey ho hname => exact .column ((Order.check_eq_ok.mp (horder _ ho)).2 name hname)
    | ruleKey ht hname =>
      obtain ⟨rule, hrule, rfl⟩ := List.mem_map.mp hname
      have hkey := ((Transform.check_eq_ok.mp (htransform _ ht)).2.2.1 rule hrule).1
      exact absurd h (Transform.isApplyKey_iff.mp hkey).2
  obtain ⟨other, hother⟩ := exists_carries h
  have hmem : other ∈ q.carried := ⟨name, hmentioned, hother⟩
  rw [hid, Set.mem_singleton_iff] at hmem
  exact hmem ▸ hother

/-- The ids that the fields and columns carry decide: the only one is resolved to, several are all
reported in the order of their bytes. -/
theorem datasetId_resolves (q : Query) :
    (∀ id, q.datasetId = .ok id ↔ q.carried = {id}) ∧
    (q.datasetId = .error .noDataset ↔ q.carried = ∅) ∧
    (q.carried.Nontrivial → ∃ ids, q.datasetId = .error (.multipleDatasets ids) ∧
      (∀ id, id ∈ ids ↔ id ∈ q.carried) ∧ ids.Pairwise fun a b => utf8Bytes a < utf8Bytes b) ∧
    (∀ q', q.Rearranges q' → q'.datasetId = q.datasetId) ∧
    (∀ id, q.check = .ok () → q.carried = {id} →
      ∀ name, q.Contains name → '_' ∈ name.toList → Carries name id) ∧
    (∀ id, checkDatasetId id = .ok () → ∀ a, split? (qualify id a) = some (id, a)) := by
  refine ⟨fun _ => datasetId_eq_ok_iff, datasetId_eq_noDataset, datasetId_of_nontrivial,
    fun q' h => h.datasetId_eq, fun id valid hid name => carries_of_contains valid hid, ?_⟩
  intro id h a
  rw [checkDatasetId_eq_ok, isDatasetId, Bool.and_eq_true] at h
  exact split?_qualify a (by simpa using h.2)

def bestTitles : Query :=
  ⟨.connect .and [.compare .greater "c_avg" (.ofNat 90), .not (.like "c_dept" ⟨"a*"⟩)],
    ["c_title", "best"], some (.keys .down ["best", "c_title"]),
    some ⟨["c_title"], [⟨"best", .max, "c_avg"⟩]⟩⟩

def bestTitlesTwice : Query :=
  { bestTitles with
    filter := .connect .and [.not (.like "c_dept" ⟨"a*"⟩), .not (.like "c_dept" ⟨"a*"⟩),
      .compare .greater "c_avg" (.ofNat 90)]
    columns := ["best", "c_title", "best"] }

theorem rearranges_bestTitlesTwice : bestTitles.Rearranges bestTitlesTwice where
  filter := .trans _ _ _ (.rel _ _ (.permute (List.Perm.swap _ _ _)))
    (.rel _ _ (.duplicate List.mem_cons_self))
  columns column := by simp [bestTitles, bestTitlesTwice]; tauto
  transform := .some ⟨fun _ => .rfl, fun _ => .rfl⟩

/-- Sort keys of the one dataset; with a rule on another dataset there are two. -/
theorem datasetId_resolves_bestTitles :
    let mixed := { bestTitles with transform := some ⟨["c_title"], [⟨"best", .max, "b_avg"⟩]⟩ }
    bestTitles.check = .ok () ∧ bestTitles.carried = {"c"} ∧ Carries "c_title" "c" ∧
      bestTitlesTwice.datasetId = bestTitles.datasetId ∧
      mixed.carried.Nontrivial ∧
      (∃ ids, mixed.datasetId = .error (.multipleDatasets ids) ∧
        (∀ id, id ∈ ids ↔ id ∈ mixed.carried) ∧ ids.Pairwise fun a b => utf8Bytes a < utf8Bytes b) ∧
      split? (qualify "c" "a_b") = some ("c", "a_b") := by
  intro mixed
  obtain ⟨hok, -, -, hrearranges, hcarries, hsplit⟩ := datasetId_resolves bestTitles
  have valid : bestTitles.check = .ok () := by rfl
  have hid : bestTitles.carried = {"c"} := (hok "c").mp (by cbv)
  have hkey : bestTitles.Contains "c_title" := .sortKey rfl (by simp [Order.names])
  have hrule : mixed.Mentions (Rule.field ⟨"best", .max, "b_avg"⟩) :=
    .applied rfl List.mem_cons_self
  have hgroup : mixed.Mentions "c_title" := .grouped rfl List.mem_cons_self
  have htwo : mixed.carried.Nontrivial :=
    ⟨"b", ⟨_, hrule, by decide, "avg", by decide⟩,
      "c", ⟨_, hgroup, by decide, "title", by decide⟩, by decide⟩
  exact ⟨valid, hid, hcarries "c" valid hid "c_title" hkey (by decide),
    hrearranges _ rearranges_bestTitlesTwice, htwo, (datasetId_resolves mixed).2.2.1 htwo,
    hsplit "c" (by rfl) "a_b"⟩

end Query

end CampusQuery
