import CampusQuery.Proofs.Dataset.Typing
import CampusQuery.Proofs.Query.Grouping
import CampusQuery.Proofs.Query.Run
import CampusQuery.Proofs.Query.Scope
import CampusQuery.Proofs.Query.Validity

namespace CampusQuery

open Outcome

def Kind.HasField (k : Kind) (id field : String) (t : CellType) : Prop :=
  ∃ a, field = FieldName.qualify id a ∧ (a, t) ∈ k.attributes

inductive Filter.WellTyped (k : Kind) (id : String) : Filter → Prop
  | all : WellTyped k id .all
  | connect {op : Connective} {operands : List Filter}
      (h : ∀ f ∈ operands, WellTyped k id f) : WellTyped k id (.connect op operands)
  | compare {op : Comparison} {field : String} {literal : Binary64}
      (h : k.HasField id field .number) : WellTyped k id (.compare op field literal)
  | like {field : String} {pattern : Pattern}
      (h : k.HasField id field .text) : WellTyped k id (.like field pattern)
  | not {operand : Filter} (h : WellTyped k id operand) : WellTyped k id (.not operand)

def Rule.WellTyped (k : Kind) (id : String) (r : Rule) : Prop :=
  match r.token with
  | .count | .unknown _ => ∃ t, k.HasField id r.field t
  | .max | .min | .avg | .sum => k.HasField id r.field .number

structure Query.WellTyped (k : Kind) (id : String) (q : Query) : Prop where
  filter : q.filter.WellTyped k id
  group : ∀ t, q.transform = some t → ∀ field ∈ t.group, ∃ type, k.HasField id field type
  apply : ∀ t, q.transform = some t → ∀ r ∈ t.apply, r.WellTyped k id
  columns : ∀ column ∈ q.columns, column ∉ q.transform.elim [] Transform.keys →
    ∃ type, k.HasField id column type

namespace Filter

theorem mem_fieldsOf {fs : List Filter} {field : String} :
    field ∈ fieldsOf fs ↔ ∃ f ∈ fs, field ∈ f.fields := by
  induction fs with
  | nil => simp [fieldsOf]
  | cons f fs ih =>
    rw [fieldsOf, List.mem_append, ih]
    simp only [List.mem_cons, exists_eq_or_imp]

end Filter

theorem Filter.WellTyped.mem_fields {k : Kind} {id : String} {f : Filter} (h : f.WellTyped k id)
    {field : String} (hf : field ∈ f.fields) : ∃ t, k.HasField id field t := by
  induction h with
  | all => simp [fields] at hf
  | connect _ ih =>
    rw [fields, mem_fieldsOf] at hf
    obtain ⟨f, hmem, hf⟩ := hf
    exact ih f hmem hf
  | compare h =>
    rw [fields, List.mem_singleton] at hf
    exact ⟨_, hf ▸ h⟩
  | like h =>
    rw [fields, List.mem_singleton] at hf
    exact ⟨_, hf ▸ h⟩
  | not _ ih =>
    rw [fields] at hf
    exact ih hf

theorem Rule.WellTyped.exists_field {k : Kind} {id : String} {r : Rule} (h : r.WellTyped k id) :
    ∃ t, k.HasField id r.field t := by
  unfold WellTyped at h
  split at h
  · exact h
  · exact h
  all_goals exact ⟨_, h⟩

section Fits

variable {k : Kind} {id : String} (hid : '_' ∉ id.toList)

include hid

theorem Kind.HasField.attributeOf {d : Dataset} (hd : d.id = id) {field : String} {t : CellType}
    (h : d.kind.HasField id field t) :
    ∃ a, d.attributeOf field = .ok a ∧ (a, t) ∈ d.kind.attributes := by
  obtain ⟨a, rfl, ha⟩ := h
  refine ⟨a, Dataset.attributeOf_eq_ok.mpr ⟨?_, ?_⟩, ha⟩
  · rw [FieldName.split?_qualify a hid, hd]
  · rw [Kind.hasAttribute, List.any_eq_true]
    exact ⟨_, ha, beq_self_eq_true a⟩

theorem Kind.HasField.dataset? {field : String} {t : CellType} (h : k.HasField id field t) :
    FieldName.dataset? field = some id := by
  obtain ⟨a, rfl, -⟩ := h
  exact FieldName.dataset?_qualify a hid

variable {r : Record} (hr : r.Fits k)

include hr

theorem Record.Fits.exists_cell {field : String} {t : CellType} (h : k.HasField id field t) :
    ∃ c, r (FieldName.attributeName field) = some c ∧ c.type = t := by
  obtain ⟨a, rfl, ha⟩ := h
  rw [FieldName.attributeName_qualify a hid]
  exact hr a t ha

theorem Record.Fits.exists_number {field : String} (h : k.HasField id field .number) :
    ∃ x, r.number field = .ok x := by
  obtain ⟨c, hc, ht⟩ := Record.Fits.exists_cell hid hr h
  cases c with
  | number x => exact ⟨x, Record.number_eq_ok.mpr hc⟩
  | text s => cases ht

theorem Record.Fits.exists_text {field : String} (h : k.HasField id field .text) :
    ∃ s, r.text field = .ok s := by
  obtain ⟨c, hc, ht⟩ := Record.Fits.exists_cell hid hr h
  cases c with
  | text s => exact ⟨s, Record.text_eq_ok.mpr hc⟩
  | number x => cases ht

theorem Filter.WellTyped.exists_eval {f : Filter} (h : f.WellTyped k id) :
    ∃ b, f.eval r = .ok b := by
  induction h with
  | all => exact ⟨true, by rw [eval]⟩
  | connect _ ih =>
    obtain ⟨b, hb, -⟩ := exists_evalOperands ih _
    exact ⟨b, by rw [eval, hb]⟩
  | @compare op _ literal h =>
    obtain ⟨x, hx⟩ := Record.Fits.exists_number hid hr h
    exact ⟨op.holds x literal, by rw [eval, hx]; rfl⟩
  | @like _ pattern h =>
    obtain ⟨s, hs⟩ := Record.Fits.exists_text hid hr h
    exact ⟨pattern.accepts s, by rw [eval, hs]; rfl⟩
  | not _ ih =>
    obtain ⟨b, hb⟩ := ih
    exact ⟨!b, by rw [eval, hb]; rfl⟩

theorem Transform.exists_key {t : Transform}
    (h : ∀ field ∈ t.group, ∃ type, k.HasField id field type) : ∃ key, t.key? r = some key := by
  have hkey : ∃ key, t.keyOf r = .ok key := exists_mapM_eq_ok fun field hf => by
    obtain ⟨type, htype⟩ := h field hf
    obtain ⟨c, hc, -⟩ := Record.Fits.exists_cell hid hr htype
    exact ⟨c.keyText, by rw [Record.cell_eq_ok.mpr hc]; rfl⟩
  obtain ⟨key, hkey⟩ := hkey
  exact ⟨key, keyOf_eq_ok.mp hkey⟩

omit hr

variable {group : List Record} (hfits : ∀ r ∈ group, r.Fits k)

include hfits

theorem Rule.exists_numbers {field : String} (h : k.HasField id field .number) :
    ∃ xs, numbers field group = .ok xs ∧ group.length = xs.length := by
  obtain ⟨xs, hxs⟩ : ∃ xs, numbers field group = .ok xs := exists_mapM_eq_ok fun r hr =>
    Record.Fits.exists_number hid (hfits r hr) h
  exact ⟨xs, hxs, (mapM_eq_ok.mp hxs).length_eq⟩

/-- A group that has a member has a first number. -/
theorem Rule.exists_reduce {rule : Rule} (h : k.HasField id rule.field .number) (hg : group ≠ [])
    (combine : Binary64 → List Binary64 → Binary64) :
    ∃ c, rule.reduce combine group = .ok c := by
  obtain ⟨xs, hxs, hlen⟩ := exists_numbers hid hfits h
  cases xs with
  | nil => exact absurd (List.eq_nil_of_length_eq_zero hlen) hg
  | cons x xs => exact ⟨.number (combine x xs), by rw [reduce, hxs]; rfl⟩

theorem Rule.WellTyped.exists_eval {rule : Rule} (h : rule.WellTyped k id)
    (hknown : rule.token.isUnknown = false) (hg : group ≠ []) :
    ∃ c, rule.eval group = .ok c := by
  have hfield := h.exists_field
  unfold WellTyped at h
  unfold eval
  cases ht : rule.token with
  | count =>
    obtain ⟨t, hfield⟩ := hfield
    obtain ⟨cells, hcells⟩ : ∃ cells, group.mapM (·.cell rule.field) = .ok cells :=
      exists_mapM_eq_ok fun r hr => by
        obtain ⟨c, hc, -⟩ := Record.Fits.exists_cell hid (hfits r hr) hfield
        exact ⟨c, Record.cell_eq_ok.mpr hc⟩
    exact ⟨_, by simp only [hcells]; rfl⟩
  | sum =>
    rw [ht] at h
    obtain ⟨xs, hxs, -⟩ := exists_numbers hid hfits h
    exact ⟨_, by simp only [hxs]; rfl⟩
  -- The other numeric rules start from the first number, and a group has one.
  | max =>
    rw [ht] at h
    exact exists_reduce hid hfits h hg _
  | min =>
    rw [ht] at h
    exact exists_reduce hid hfits h hg _
  | avg =>
    rw [ht] at h
    exact exists_reduce hid hfits h hg _
  | unknown name =>
    rw [ht] at hknown
    cases hknown

end Fits

theorem Row.exists_get? {r : Row} {column : String} (h : column ∈ r.columns) :
    ∃ c, r.get? column = some c := by
  obtain ⟨cell, hcell, rfl⟩ := List.mem_map.mp h
  apply Option.isSome_iff_exists.mp
  rw [get?, List.lookup_isSome_iff]
  exact ⟨cell, hcell, beq_self_eq_true _⟩

theorem Row.exists_project {r : Row} {columns : List String}
    (h : ∀ column ∈ columns, column ∈ r.columns) : ∃ row, r.project columns = .ok row := by
  obtain ⟨cells, hcells⟩ : ∃ cells : List (String × Cell),
      List.Forall₂ (fun column cell => cell.1 = column ∧ r.get? column = some cell.2)
        columns cells := exists_forall₂ fun column hc => by
    obtain ⟨c, hget⟩ := Row.exists_get? (h column hc)
    exact ⟨(column, c), rfl, hget⟩
  exact ⟨⟨cells⟩, Row.project_eq_ok.mpr hcells⟩

theorem Record.Fits.exists_project {k : Kind} {r : Record} (hr : r.Fits k)
    {columns : List (String × String)}
    (h : ∀ column ∈ columns, ∃ type, (column.2, type) ∈ k.attributes) :
    ∃ row, r.project columns = .ok row := by
  obtain ⟨cells, hcells⟩ : ∃ cells : List (String × Cell),
      List.Forall₂ (fun column cell => cell.1 = column.1 ∧ r column.2 = some cell.2)
        columns cells := exists_forall₂ fun column hc => by
    obtain ⟨type, hattr⟩ := h column hc
    obtain ⟨c, hcell, -⟩ := hr _ _ hattr
    exact ⟨(column.1, c), rfl, hcell⟩
  exact ⟨⟨cells⟩, Record.project_eq_ok.mpr hcells⟩

namespace Transform

variable {t : Transform}

theorem columns_rowOf {key : List String} {group : List Record} {row : Row}
    (hkey : t.group.length = key.length) (h : t.rowOf key group = .ok row) :
    row.columns = t.group ++ t.keys := by
  obtain ⟨values, hvalues, rfl⟩ := rowOf_eq_ok.mp h
  have hnames : List.Forall₂ (fun rule value => Rule.key rule = value.1) t.apply values :=
    hvalues.imp fun _ _ h => h.1.symm
  rw [← List.forall₂_map_right_iff, ← List.forall₂_map_left_iff, List.forall₂_eq_eq_eq] at hnames
  rw [Row.columns, List.map_append, ← hnames, keys, List.map_fst_zip]
  rw [List.length_map, hkey]

section Fits

variable {k : Kind} {id : String} (hid : '_' ∉ id.toList) {columns : List String}
  (hcheck : t.check columns = .ok ()) (happly : ∀ rule ∈ t.apply, rule.WellTyped k id)

include hid hcheck happly

theorem exists_rowOf {key : List String} (hkey : t.group.length = key.length)
    {group : List Record} (hg : group ≠ []) (hfits : ∀ r ∈ group, r.Fits k) :
    ∃ row, t.rowOf key group = .ok row ∧ row.columns = t.group ++ t.keys := by
  obtain ⟨-, -, hrules, -⟩ := check_eq_ok.mp hcheck
  obtain ⟨values, hvalues⟩ : ∃ values : List (String × Cell), List.Forall₂ (fun rule value =>
      value.1 = rule.key ∧ rule.eval group = .ok value.2) t.apply values :=
    exists_forall₂ fun rule hr => by
      obtain ⟨c, hc⟩ := (happly rule hr).exists_eval hid hfits (hrules rule hr).2 hg
      exact ⟨(rule.key, c), rfl, hc⟩
  have hrow : t.rowOf key group = .ok ⟨t.group.zip (key.map .text) ++ values⟩ :=
    rowOf_eq_ok.mpr ⟨values, hvalues, rfl⟩
  exact ⟨_, hrow, columns_rowOf hkey hrow⟩

/-- Groups have members, so every rule has a value. -/
theorem exists_rows (hgroup : ∀ field ∈ t.group, ∃ type, k.HasField id field type)
    {records : List Record} (hfits : ∀ r ∈ records, r.Fits k) :
    ∃ full, t.rows records = .ok full ∧ ∀ row ∈ full, row.columns = t.group ++ t.keys := by
  have hkeys : ∀ r ∈ records, ∃ key, t.key? r = some key := fun r hr =>
    exists_key hid (hfits r hr) hgroup
  have hrow : ∀ key ∈ t.distinctKeys records, ∃ row,
      t.rowOf key (t.members records key) = .ok row ∧ row.columns = t.group ++ t.keys := by
    intro key hkey
    obtain ⟨r, -, hr⟩ := mem_distinctKeys.mp hkey
    exact exists_rowOf hid hcheck happly (mapM_eq_some.mp hr).length_eq (members_ne_nil hkey)
      fun r hr => hfits r (mem_members.mp hr).1
  obtain ⟨full, hfull⟩ := exists_forall₂ hrow
  refine ⟨full, rows_eq_ok.mpr ⟨_, groups_eq_ok.mpr ⟨hkeys, rfl⟩, ?_⟩, ?_⟩
  · rw [List.forall₂_map_left_iff]
    exact hfull.imp fun _ _ h => h.1
  · intro row hmem
    obtain ⟨key, -, h⟩ := exists_of_mem_right hfull hmem
    exact h.2

end Fits

end Transform

theorem Dataset.exists_type {d : Dataset} {name a : String} (h : d.attributeOf name = .ok a) :
    ∃ type, (a, type) ∈ d.kind.attributes := by
  obtain ⟨⟨a', type⟩, hmem, heq⟩ := List.any_eq_true.mp (attributeOf_eq_ok.mp h).2
  exact ⟨type, beq_iff_eq.mp heq ▸ hmem⟩

theorem Dataset.hasField_of_attributeOf {d : Dataset} {name a : String}
    (h : d.attributeOf name = .ok a) : ∃ type, d.kind.HasField d.id name type := by
  obtain ⟨type, ha⟩ := exists_type h
  exact ⟨type, a, FieldName.eq_qualify_of_split? (attributeOf_eq_ok.mp h).1, ha⟩

namespace Query

/-- Attributes of the kind can be shown of all its records. -/
theorem exists_project_ungrouped {q : Query} {d : Dataset} (hq : q.transform = none)
    (hknown : ∀ column ∈ q.columns, ∃ a, d.attributeOf column = .ok a) {records : List Record}
    (hfits : ∀ r ∈ records, r.Fits d.kind) : ∃ rows, q.project d records = .ok rows := by
  obtain ⟨columns, hcolumns⟩ : ∃ columns : List (String × String),
      List.Forall₂ (fun name column => column.1 = name ∧ d.attributeOf name = .ok column.2)
        q.columns columns := exists_forall₂ fun name hn => by
    obtain ⟨a, ha⟩ := hknown name hn
    exact ⟨(name, a), rfl, ha⟩
  have htype : ∀ column ∈ columns, ∃ type, (column.2, type) ∈ d.kind.attributes := by
    intro column hc
    obtain ⟨_, -, -, ha⟩ := exists_of_mem_right hcolumns hc
    exact Dataset.exists_type ha
  obtain ⟨rows, hrows⟩ := exists_forall₂ fun r hr => (hfits r hr).exists_project htype
  exact ⟨rows, (project_eq_ok_of_ungrouped hq).mpr ⟨columns, hcolumns, hrows⟩⟩

/-- Known fields can be grouped by, and rules evaluated that are for the types of their fields. -/
theorem exists_project_of_transform {q : Query} {d : Dataset} {t : Transform}
    (hid : '_' ∉ d.id.toList) (hq : q.transform = some t) (hcheck : t.check q.columns = .ok ())
    (hgroup : ∀ field ∈ t.group, ∃ type, d.kind.HasField d.id field type)
    (happly : ∀ rule ∈ t.apply, rule.WellTyped d.kind d.id) {records : List Record}
    (hfits : ∀ r ∈ records, r.Fits d.kind) : ∃ rows, q.project d records = .ok rows := by
  have hfield : ∀ field ∈ t.fields, ∃ a, d.attributeOf field = .ok a := by
    intro field hf
    have hknown : ∃ type, d.kind.HasField d.id field type := by
      rw [Transform.fields, List.mem_append, List.mem_map] at hf
      rcases hf with hf | ⟨rule, hr, rfl⟩
      · exact hgroup field hf
      · exact (happly rule hr).exists_field
    obtain ⟨type, h⟩ := hknown
    obtain ⟨a, ha, -⟩ := h.attributeOf hid rfl
    exact ⟨a, ha⟩
  obtain ⟨full, hfull, hnames⟩ := Transform.exists_rows hid hcheck happly hgroup hfits
  have hrow : ∀ row ∈ full, ∃ row', row.project q.columns = .ok row' := by
    intro row hr
    apply Row.exists_project
    intro column hc
    rw [hnames row hr, List.mem_append]
    exact (Transform.check_eq_ok.mp hcheck).2.2.2 column hc
  obtain ⟨rows, hrows⟩ := exists_forall₂ hrow
  exact ⟨rows, (project_eq_ok_of_transform hq).mpr ⟨hfield, full, hfull, hrows⟩⟩

section Names

variable {k : Kind} {id : String} (hid : '_' ∉ id.toList) {q : Query} (typed : q.WellTyped k id)
  (valid : q.check = .ok ())

include hid typed valid

/-- A name is a field of the dataset or, without an underscore, the key of a rule. -/
theorem WellTyped.dataset?_name {name : String} (h : name ∈ q.names) :
    FieldName.dataset? name = some id ∨ FieldName.dataset? name = none := by
  obtain ⟨-, -, -, ht⟩ := check_eq_ok.mp valid
  have hfield : (∃ type, k.HasField id name type) →
      FieldName.dataset? name = some id ∨ FieldName.dataset? name = none := by
    rintro ⟨type, h⟩
    exact .inl (h.dataset? hid)
  rw [names, List.mem_append, List.mem_append] at h
  -- The name is in the condition, a column, or in the transformation.
  rcases h with (h | h) | h
  · exact hfield (typed.filter.mem_fields h)
  · by_cases hkey : name ∈ q.transform.elim [] Transform.keys
    · cases hq : q.transform with
      | none => simp [hq] at hkey
      | some t =>
        rw [hq, Option.elim_some, Transform.keys, List.mem_map] at hkey
        obtain ⟨rule, hr, rfl⟩ := hkey
        obtain ⟨-, -, hrules, -⟩ := Transform.check_eq_ok.mp (ht t hq)
        exact .inr (FieldName.dataset?_eq_none (Transform.isApplyKey_iff.mp (hrules rule hr).1).2)
    · exact hfield (typed.columns name h hkey)
  · cases hq : q.transform with
    | none => simp [hq] at h
    | some t =>
      rw [hq, Option.elim_some, Transform.fields, List.mem_append, List.mem_map] at h
      rcases h with h | ⟨rule, hr, rfl⟩
      · exact hfield (typed.group t hq name h)
      · exact hfield (typed.apply t hq rule hr).exists_field

theorem WellTyped.exists_name : ∃ name ∈ q.names, FieldName.dataset? name = some id := by
  obtain ⟨-, hne, -, ht⟩ := check_eq_ok.mp valid
  -- Columns may all be keys of rules, but then there is a field to group by.
  cases hq : q.transform with
  | none =>
    obtain ⟨column, hc⟩ := List.exists_mem_of_ne_nil _ hne
    obtain ⟨type, h⟩ := typed.columns column hc (by simp [hq])
    exact ⟨column, by simp [names, hc], h.dataset? hid⟩
  | some t =>
    obtain ⟨field, hf⟩ := List.exists_mem_of_ne_nil _ (Transform.check_eq_ok.mp (ht t hq)).1
    obtain ⟨type, h⟩ := typed.group t hq field hf
    exact ⟨field, by simp [names, hq, Transform.fields, hf], h.dataset? hid⟩

theorem WellTyped.datasetId : q.datasetId = .ok id := by
  rw [datasetId_eq_ok]
  intro other
  rw [List.mem_filterMap]
  constructor
  · rintro ⟨name, hn, h⟩
    rcases typed.dataset?_name hid valid hn with h' | h'
    · rw [h', Option.some.injEq] at h
      exact h.symm
    · rw [h'] at h
      cases h
  · rintro rfl
    exact typed.exists_name hid valid

variable {d : Dataset} (hd : d.id = id) (hk : d.kind = k) {records : List Record}
  (hfits : ∀ r ∈ records, r.Fits k)

include hd hk hfits

theorem WellTyped.exists_project_grouped {t : Transform} (hq : q.transform = some t) :
    ∃ rows, q.project d records = .ok rows := by
  subst hd hk
  exact exists_project_of_transform hid hq ((check_eq_ok.mp valid).2.2.2 t hq) (typed.group t hq)
    (typed.apply t hq) hfits

theorem WellTyped.exists_project : ∃ rows, q.project d records = .ok rows := by
  cases hq : q.transform with
  | none =>
    subst hk
    refine exists_project_ungrouped hq ?_ hfits
    intro column hc
    obtain ⟨type, h⟩ := typed.columns column hc (by simp [hq])
    obtain ⟨a, ha, -⟩ := h.attributeOf hid hd
    exact ⟨a, ha⟩
  | some t => exact typed.exists_project_grouped hid valid hd hk hfits hq

end Names

/-- Well-typed queries do not go wrong: all that can refuse an answer is the limit. -/
theorem execute_of_wellTyped {q : Query} {d : Dataset} {store : Store} (limit : Nat)
    (hid : '_' ∉ d.id.toList) (held : store.get d.id = .ok d) (valid : q.check = .ok ())
    (typed : q.WellTyped d.kind d.id) :
    (∃ rows, q.execute store limit = .ok rows) ∨
      ∃ n, limit < n ∧ q.execute store limit = .error (.tooManyRows n limit) := by
  have hresolve : q.resolve store = .ok d := by
    rw [resolve, typed.datasetId hid valid]
    simp [bind, Except.bind, held, Except.mapError]
  have hselect : q.filter.select d.records = .ok (d.records.filter q.filter.holds) :=
    Filter.select_eq_ok.mpr ⟨fun r hr => typed.filter.exists_eval hid (d.fits hr), rfl⟩
  obtain ⟨unordered, hproject⟩ := typed.exists_project hid valid rfl rfl
    (fun r hr => d.fits (List.mem_filter.mp hr).1)
  obtain ⟨rows, hrows⟩ : ∃ rows, q.answer d = .ok rows :=
    ⟨_, answer_eq_ok.mpr ⟨_, unordered, hselect, hproject, rfl⟩⟩
  by_cases hlimit : rows.length ≤ limit
  · exact .inl ⟨rows, execute_eq_ok.mpr ⟨d, hresolve, hrows, hlimit⟩⟩
  · exact .inr ⟨rows.length, Nat.not_le.mp hlimit,
      execute_eq_error hresolve hrows (Nat.not_le.mp hlimit)⟩

/-- The best passed average of each department but one, under a limit that the answer exceeds. -/
theorem execute_of_wellTyped_passed :
    let passed := Filter.connect .and [.compare .greater "c_avg" .zero, .not (.like "c_dept" ⟨"a"⟩)]
    let best : Transform := ⟨["c_dept"], [⟨"best", .max, "c_avg"⟩]⟩
    let q : Query := ⟨passed, ["c_dept", "best"], none, some best⟩
    let store := Store.ofGrades [("b", .infinite false), ("c", .infinite false)]
    (∃ rows, q.execute store 1 = .ok rows) ∨
      ∃ n, 1 < n ∧ q.execute store 1 = .error (.tooManyRows n 1) := by
  intro passed best q store
  have havg : Kind.sections.HasField "c" "c_avg" .number := ⟨"avg", rfl, by decide⟩
  have hdept : Kind.sections.HasField "c" "c_dept" .text := ⟨"dept", rfl, by decide⟩
  have typed : q.WellTyped .sections "c" := by
    refine ⟨.connect ?_, ?_, ?_, ?_⟩
    · intro f hf
      simp only [List.mem_cons, List.not_mem_nil, or_false] at hf
      rcases hf with rfl | rfl
      · exact .compare havg
      · exact .not (.like hdept)
    · rintro t ⟨⟩ field hf
      exact ⟨.text, List.mem_singleton.mp hf ▸ hdept⟩
    · rintro t ⟨⟩ rule hr
      exact List.mem_singleton.mp hr ▸ havg
    · intro column hc hkey
      rcases List.mem_cons.mp hc with rfl | hc
      · exact ⟨.text, hdept⟩
      · exact absurd hc hkey
  exact execute_of_wellTyped (d := .ofGrades [("b", .infinite false), ("c", .infinite false)]) 1
    (by decide) rfl rfl typed

end Query

end CampusQuery
