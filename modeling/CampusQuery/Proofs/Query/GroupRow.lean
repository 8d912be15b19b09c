import CampusQuery.Proofs.Dataset.KeyText
import CampusQuery.Proofs.Dataset.Typing
import CampusQuery.Proofs.Query.Grouped
import CampusQuery.Proofs.Query.Ordering

namespace CampusQuery

open Outcome

namespace Transform

/-- The row that the records under a key give, cut to the given columns. -/
def groupRow (t : Transform) (columns : List String) (records : List Record) (key : List String) :
    Except Failure Row := do
  (← t.rowOf key (t.members records key)).project columns

variable {t : Transform}

theorem groupRow_eq_ok {columns key : List String} {records : List Record} {row : Row} :
    t.groupRow columns records key = .ok row ↔
      ∃ full, t.rowOf key (t.members records key) = .ok full ∧ full.project columns = .ok row := by
  rw [groupRow, bind_eq_ok]

structure IsKeyed (t : Transform) (columns : List String) (records : List Record)
    (keyed : List (List String × Row)) : Prop where
  keys : (keyed.map (·.1)).Perm (t.distinctKeys records)
  row : ∀ p ∈ keyed, t.IsRow columns (t.members records p.1) p.2

theorem isRow_of_groupRow {columns key : List String} {records : List Record} {row : Row}
    (hcheck : t.check columns = .ok ()) (hfields : ∀ field ∈ t.group, '_' ∈ field.toList)
    (h : t.groupRow columns records key = .ok row) :
    t.IsRow columns (t.members records key) row := by
  obtain ⟨full, hfull, hrow⟩ := groupRow_eq_ok.mp h
  exact isRow_of_project hcheck hfields (fun r hr => (mem_members.mp hr).2) hfull hrow

/-- Another record has the key of a record if its texts under the grouped fields are the same. -/
theorem key?_eq_iff {r r' : Record} {key : List String} (h : t.key? r = some key) :
    t.key? r' = some key ↔ ∀ field ∈ t.group,
      (r' (FieldName.attributeName field)).map Cell.keyText =
        (r (FieldName.attributeName field)).map Cell.keyText :=
  mapM_eq_some_congr h

end Transform

/-- Rows put in order take what stands beside them along, also if only some of them are left. -/
theorem Order.exists_sorted {β : Type} (order : Option Order) (keyed : List (β × Row)) :
    ∃ sorted : List (β × Row), sorted.Perm keyed ∧ ∀ p : β × Row → Bool,
      (sorted.filter p).map (·.2) =
        order.elim ((keyed.filter p).map (·.2)) (·.sort ((keyed.filter p).map (·.2))) := by
  cases order with
  | none => exact ⟨keyed, .refl _, fun p => rfl⟩
  | some o =>
    let le : β × Row → β × Row → Prop := fun a b => o.Precedes a.2 b.2
    have : DecidableRel le := fun a b => inferInstanceAs (Decidable (o.Precedes a.2 b.2))
    have : Std.Total le := ⟨fun a b => Std.Total.total (r := o.Precedes) a.2 b.2⟩
    have : IsTrans (β × Row) le := ⟨fun a b c => IsTrans.trans (r := o.Precedes) a.2 b.2 c.2⟩
    have hsorted (keyed : List (β × Row)) :
        IsStableSort le keyed (keyed.mergeSort fun a b => le a b) := IsStableSort.mergeSort keyed
    refine ⟨keyed.mergeSort fun a b => le a b, (hsorted keyed).perm, fun p => ?_⟩
    rw [((hsorted keyed).filter p).unique (hsorted (keyed.filter p)), Option.elim_some, sort]
    apply List.map_mergeSort
    intro a _ b _
    rw [Bool.eq_iff_iff, decide_eq_true_eq, isLE_compare]

namespace Query

variable {q : Query} {t : Transform} {d : Dataset}

def matching (q : Query) (d : Dataset) : List Record := d.records.filter q.filter.holds

theorem project_grouped_eq_ok (ht : q.transform = some t) {records : List Record}
    {rows : List Row} :
    q.project d records = .ok rows ↔ (∀ field ∈ t.fields, ∃ a, d.attributeOf field = .ok a) ∧
      (∀ r ∈ records, ∃ key, t.key? r = some key) ∧
      List.Forall₂ (fun key row => t.groupRow q.columns records key = .ok row)
        (t.distinctKeys records) rows := by
  rw [project_eq_ok_of_transform ht]
  apply and_congr_right
  intro _
  simp only [Transform.rows_eq_ok, Transform.groups_eq_ok, Transform.groupRow_eq_ok]
  constructor
  · rintro ⟨full, ⟨groups, ⟨hkeys, rfl⟩, hfull⟩, hrows⟩
    rw [List.forall₂_map_left_iff] at hfull
    exact ⟨hkeys, forall₂_comp hfull hrows⟩
  · rintro ⟨hkeys, hrows⟩
    obtain ⟨full, hfull, hproject⟩ := exists_forall₂_of_comp hrows
    exact ⟨full, ⟨_, ⟨hkeys, rfl⟩, by rwa [List.forall₂_map_left_iff]⟩, hproject⟩

/-- A grouped answer taken apart: the rows beside the keys of their groups, in the order of the
groups and in the order asked for. -/
structure IsGrouped (q : Query) (t : Transform) (d : Dataset)
    (grouped sorted : List (List String × Row)) : Prop where
  evaluated : ∀ r ∈ d.records, ∃ b, q.filter.eval r = .ok b
  known : ∀ field ∈ t.fields, ∃ a, d.attributeOf field = .ok a
  keyed : ∀ r ∈ q.matching d, ∃ key, t.key? r = some key
  keys : grouped.map (·.1) = t.distinctKeys (q.matching d)
  row : ∀ p ∈ grouped, t.groupRow q.columns (q.matching d) p.1 = .ok p.2
  perm : sorted.Perm grouped
  order : ∀ p : List String × Row → Bool, (sorted.filter p).map (·.2) =
    q.order.elim ((grouped.filter p).map (·.2)) (·.sort ((grouped.filter p).map (·.2)))

theorem exists_isGrouped (ht : q.transform = some t) {rows : List Row}
    (h : q.answer d = .ok rows) :
    ∃ grouped sorted, q.IsGrouped t d grouped sorted ∧ rows = sorted.map (·.2) := by
  obtain ⟨selected, unordered, hselect, hproject, hrows⟩ := answer_eq_ok.mp h
  obtain ⟨heval, hselected⟩ := Filter.select_eq_ok.mp hselect
  rw [← matching] at hselected
  subst hselected
  obtain ⟨hknown, hkeys, hgroups⟩ := (project_grouped_eq_ok ht).mp hproject
  obtain ⟨hlength, hzip⟩ := List.forall₂_iff_zip.mp hgroups
  obtain ⟨sorted, hperm, hsorted⟩ :=
    Order.exists_sorted q.order ((t.distinctKeys (q.matching d)).zip unordered)
  refine ⟨_, sorted, ⟨heval, hknown, hkeys, List.map_fst_zip hlength.le, fun _ hp => hzip hp,
    hperm, hsorted⟩, ?_⟩
  have hall := hsorted fun _ => true
  rw [List.filter_true, List.filter_true, List.map_snd_zip hlength.ge] at hall
  rw [hrows, hall]

namespace IsGrouped

variable {grouped sorted : List (List String × Row)} (h : q.IsGrouped t d grouped sorted)
include h

/-- The names of grouped fields are qualified with the id of the dataset. -/
theorem exists_split? {field : String} (hf : field ∈ t.group) :
    ∃ a, FieldName.split? field = some (d.id, a) := by
  obtain ⟨a, ha⟩ := h.known field (List.mem_append_left _ hf)
  exact ⟨a, (Dataset.attributeOf_eq_ok.mp ha).1⟩

theorem not_mem_id (hcheck : t.check q.columns = .ok ()) : '_' ∉ d.id.toList := by
  obtain ⟨field, hf⟩ := List.exists_mem_of_ne_nil _ (Transform.check_eq_ok.mp hcheck).1
  obtain ⟨a, ha⟩ := h.exists_split? hf
  exact FieldName.not_mem_of_split? ha

theorem isKeyed (hcheck : t.check q.columns = .ok ()) :
    t.IsKeyed q.columns (q.matching d) sorted where
  keys := h.keys ▸ h.perm.map (·.1)
  row p hp := by
    apply Transform.isRow_of_groupRow hcheck
    · intro field hf
      obtain ⟨a, ha⟩ := h.exists_split? hf
      exact FieldName.mem_of_split? ha
    · exact h.row p (h.perm.mem_iff.mp hp)

end IsGrouped

end Query

end CampusQuery
