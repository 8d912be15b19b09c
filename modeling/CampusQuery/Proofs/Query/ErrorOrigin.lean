import CampusQuery.Proofs.Json.Finite
import CampusQuery.Proofs.Query.Grammar
import CampusQuery.Proofs.Query.Ungrouped
import Mathlib

namespace CampusQuery

open Outcome

/-- Rules that the shape of a document with finite numbers already makes a query keep. -/
def Flaw.breaksShape : Flaw → Bool
  | emptyConnective _ | nonFiniteLiteral _ | emptyColumns | emptyOrderKeys | emptyGroup => true
  | _ => false

def Token.isNumeric : Token → Bool
  | max | min | avg | sum => true
  | count | unknown _ => false

/-- The field was read of a record that does not have it, or not with the type asked for. -/
def Failure.IsAbout (field : String) : Failure → Prop
  | missingAttribute f | typeMismatch f _ _ => f = field
  | _ => False

def Failure.IsMismatch (field : String) : Failure → Prop
  | typeMismatch f _ _ => f = field
  | _ => False

def Failure.Concerns (q : Query) : Failure → Prop
  | missingAttribute field => field ∈ q.filter.fields
  | typeMismatch field _ _ => field ∈ q.filter.fields ∨ ∃ t, q.transform = some t ∧
      ∃ r ∈ t.apply, r.field = field ∧ r.token.isNumeric = true
  | unknownColumn name => name ∈ q.transform.elim q.columns Transform.fields
  | emptyGroup _ | unsupportedToken _ => False
  | noDataset | multipleDatasets _ | datasetNotFound _ | storage _ | tooManyRows .. => True

theorem Json.Finite.of_member? {v w : Json} {name : String} (h : v.Finite)
    (hw : v.member? name = some w) : w.Finite := by
  cases v with
  | object members => exact h.of_lookup hw
  | _ => cases hw

theorem Document.EncodesNumber.isFinite {v : Json} {x : Binary64} (h : EncodesNumber v x)
    (finite : v.Finite) : x.isFinite = true :=
  finite.isFinite (number?_eq_some.mpr h)

theorem Filter.failsOnly_checkAll {P : Flaw → Prop} {fs : List Filter}
    (h : ∀ f ∈ fs, FailsOnly P f.check) : FailsOnly P (checkAll fs) := by
  induction fs with
  | nil => exact .ok ()
  | cons f fs ih =>
    rw [List.forall_mem_cons] at h
    rw [checkAll]
    exact h.1.bind fun _ _ => ih h.2

theorem Document.EncodesFilter.failsOnly_check {v : Json} {f : Filter} (h : EncodesFilter v f)
    (finite : v.Finite) : FailsOnly (·.breaksShape = false) f.check := by
  induction f using Filter.induction generalizing v with
  | all => cases h
  | connect op fs ih =>
    cases h with
    | @connect _ items _ hne h =>
      cases fs with
      -- The document has an operand, so none of the flaws is that there is none.
      | nil => exact absurd (List.forall₂_nil_right_iff.mp h) hne
      | cons f fs =>
        rw [Filter.check]
        · apply Filter.failsOnly_checkAll
          intro g hg
          obtain ⟨w, hw, hwg⟩ := exists_of_mem_right h hg
          cases finite.of_single with
          | array hitems => exact ih g hg hwg (hitems w hw)
        · exact List.cons_ne_nil f fs
  | compare op field x =>
    cases h with
    | compare h =>
      have hx := h.isFinite finite.of_single.of_single
      rw [Filter.check, if_pos hx]
      split
      · exact .error rfl
      · exact .ok ()
  | like field pattern =>
    rw [Filter.check]
    split
    · exact .error rfl
    · exact .ok ()
  | not f ih =>
    cases h with
    | not h =>
      rw [Filter.check]
      exact ih h finite.of_single

theorem Order.failsOnly_check {o : Order} (hne : o.names ≠ []) (columns : List String) :
    FailsOnly (·.breaksShape = false) (o.check columns) := by
  unfold Order.check
  refine .guard (fun h => absurd (List.isEmpty_iff.mp h) hne) fun _ => ?_
  split
  · exact .error rfl
  · exact .ok ()

namespace Transform

theorem failsOnly_checkRules (used : List String) (rules : List Rule) :
    FailsOnly (·.breaksShape = false) (checkRules used rules) := by
  induction rules generalizing used with
  | nil => exact .ok ()
  | cons r rules ih =>
    rw [checkRules]
    refine .guard (fun _ => rfl) fun _ => ?_
    refine .guard (fun _ => rfl) fun _ => ?_
    exact .guard (fun _ => rfl) fun _ => ih (r.key :: used)

theorem failsOnly_check {t : Transform} (hne : t.group ≠ []) (columns : List String) :
    FailsOnly (·.breaksShape = false) (t.check columns) := by
  unfold check
  refine .guard (fun h => absurd (List.isEmpty_iff.mp h) hne) fun _ => ?_
  refine (failsOnly_checkRules [] t.apply).bind fun _ _ => ?_
  split
  · exact .error rfl
  · exact .ok ()

end Transform

theorem Document.EncodesOrder.names_ne {v : Json} {o : Order} (h : EncodesOrder v o) :
    o.names ≠ [] := by
  cases h with
  | column => exact List.cons_ne_nil _ _
  | keys _ hkeys => exact hkeys.2

theorem Document.Encodes.failsOnly_check {v : Json} {q : Query} (h : Encodes v q)
    (finite : v.Finite) : FailsOnly (·.breaksShape = false) q.check := by
  obtain ⟨⟨w, hw, hcondition⟩, ⟨w', -, hcolumns, horder⟩, htransform⟩ := h
  have hfilter : FailsOnly (·.breaksShape = false) q.filter.check := by
    rcases hcondition with ⟨-, hall⟩ | hfilter
    · rw [hall, Filter.check]
      exact .ok ()
    · exact hfilter.failsOnly_check (finite.of_member? hw)
  unfold Query.check
  refine hfilter.bind fun _ _ => ?_
  refine .guard (fun h => absurd (List.isEmpty_iff.mp h) hcolumns.2) fun _ => ?_
  refine FailsOnly.bind ?_ fun _ _ => ?_
  · cases ho : q.order with
    | none => exact .ok ()
    | some o =>
      rw [ho] at horder
      obtain ⟨v, -, h⟩ := Outcome.exists_of_rel_some horder
      exact Order.failsOnly_check h.names_ne q.columns
  · cases ht : q.transform with
    | none => exact .ok ()
    | some t =>
      rw [ht] at htransform
      obtain ⟨v, -, h⟩ := Outcome.exists_of_rel_some htransform
      exact Transform.failsOnly_check h.1.2 q.columns

namespace Record

variable (r : Record) (field : String)

theorem failsOnly_cell : FailsOnly (· = .missingAttribute field) (r.cell field) := by
  unfold cell
  split
  · exact .ok _
  · exact .error rfl

theorem failsOnly_number : FailsOnly (·.IsAbout field) (r.number field) := by
  refine FailsOnly.bind ((r.failsOnly_cell field).imp ?_) fun c _ => ?_
  · rintro e rfl
    rfl
  · cases c with
    | number x => exact .ok x
    | text s => exact .error rfl

theorem failsOnly_text : FailsOnly (·.IsAbout field) (r.text field) := by
  refine FailsOnly.bind ((r.failsOnly_cell field).imp ?_) fun c _ => ?_
  · rintro e rfl
    rfl
  · cases c with
    | number x => exact .error rfl
    | text s => exact .ok s

variable {r field}

theorem failsOnly_number_of_cell (h : ∃ c, r (FieldName.attributeName field) = some c) :
    FailsOnly (·.IsMismatch field) (r.number field) := by
  obtain ⟨c, hc⟩ := h
  refine FailsOnly.bind (.of_exists ⟨c, cell_eq_ok.mpr hc⟩) fun c' _ => ?_
  cases c' with
  | number x => exact .ok x
  | text s => exact .error rfl

end Record

namespace Filter

theorem failsOnly_evalOperands {P : Failure → Prop} {r : Record} {op : Connective}
    {fs : List Filter} (h : ∀ f ∈ fs, FailsOnly P (f.eval r)) :
    FailsOnly P (evalOperands r op fs) := by
  induction fs with
  | nil => exact .ok _
  | cons f fs ih =>
    rw [List.forall_mem_cons] at h
    rw [evalOperands]
    refine h.1.bind fun b _ => ?_
    split
    · exact .ok op.decisive
    · exact ih h.2

theorem failsOnly_eval (f : Filter) (r : Record) :
    FailsOnly (fun e => ∃ field ∈ f.fields, e.IsAbout field) (f.eval r) := by
  induction f using Filter.induction with
  | all => exact .ok true
  | connect op fs ih =>
    rw [eval]
    refine failsOnly_evalOperands fun f hf => (ih f hf).imp ?_
    rintro e ⟨field, hfield, he⟩
    exact ⟨field, mem_fieldsOf.mpr ⟨f, hf, hfield⟩, he⟩
  | compare op field x =>
    rw [eval]
    refine ((r.failsOnly_number field).imp ?_).bind fun y _ => .ok (op.holds y x)
    intro e he
    exact ⟨field, List.mem_singleton_self field, he⟩
  | like field pattern =>
    rw [eval]
    refine ((r.failsOnly_text field).imp ?_).bind fun s _ => .ok (pattern.accepts s)
    intro e he
    exact ⟨field, List.mem_singleton_self field, he⟩
  | not f ih =>
    rw [eval_not]
    exact ih.map

theorem failsOnly_select (f : Filter) (records : List Record) :
    FailsOnly (fun e => ∃ field ∈ f.fields, e.IsAbout field) (f.select records) := by
  induction records with
  | nil => exact .ok []
  | cons r rs ih =>
    rw [select]
    refine (f.failsOnly_eval r).bind fun b _ => ?_
    split
    · exact ih.bind fun rest _ => .ok (r :: rest)
    · exact ih

end Filter

theorem Dataset.failsOnly_attributeOf (d : Dataset) (name : String) :
    FailsOnly (· = .unknownColumn name) (d.attributeOf name) := by
  unfold attributeOf
  split
  · split
    · exact .ok _
    · exact .error rfl
  · exact .error rfl

/-- A record has every field that its dataset knows. -/
theorem Record.Fits.exists_cell_of_attributeOf {d : Dataset} {r : Record} (hr : r.Fits d.kind)
    {field a : String} (h : d.attributeOf field = .ok a) :
    ∃ c, r (FieldName.attributeName field) = some c := by
  obtain ⟨type, htype⟩ := Dataset.exists_type h
  obtain ⟨c, hc, -⟩ := hr a type htype
  exact ⟨c, Dataset.attributeName_of_attributeOf h ▸ hc⟩

namespace Rule

variable {group : List Record}

theorem failsOnly_numbers {field : String}
    (known : ∀ r ∈ group, ∃ c, r (FieldName.attributeName field) = some c) :
    FailsOnly (·.IsMismatch field) (numbers field group) :=
  .mapM fun r hr => Record.failsOnly_number_of_cell (known r hr)

variable {rule : Rule} (known : ∀ r ∈ group, ∃ c, r (FieldName.attributeName rule.field) = some c)
  (hg : group ≠ [])

include known hg

theorem failsOnly_reduce (combine : Binary64 → List Binary64 → Binary64) :
    FailsOnly (·.IsMismatch rule.field) (rule.reduce combine group) := by
  refine FailsOnly.bind (failsOnly_numbers known) fun xs hxs => ?_
  cases xs with
  | nil =>
    have hlen := (mapM_eq_ok.mp hxs).length_eq
    exact absurd (List.eq_nil_of_length_eq_zero hlen) hg
  | cons x xs => exact .ok _

theorem failsOnly_eval (htoken : rule.token.isUnknown = false) :
    FailsOnly (fun e => rule.token.isNumeric = true ∧ e.IsMismatch rule.field)
      (rule.eval group) := by
  unfold eval
  cases ht : rule.token with
  | count =>
    refine FailsOnly.bind (.mapM fun r hr => .of_exists ?_) fun cells _ => .ok _
    obtain ⟨c, hc⟩ := known r hr
    exact ⟨c, Record.cell_eq_ok.mpr hc⟩
  | sum => exact FailsOnly.bind ((failsOnly_numbers known).imp fun _ he => ⟨rfl, he⟩) fun _ _ => .ok _
  | max => exact (failsOnly_reduce known hg _).imp fun _ he => ⟨rfl, he⟩
  | min => exact (failsOnly_reduce known hg _).imp fun _ he => ⟨rfl, he⟩
  | avg => exact (failsOnly_reduce known hg _).imp fun _ he => ⟨rfl, he⟩
  | unknown name =>
    rw [ht] at htoken
    cases htoken

end Rule

namespace Transform

variable {t : Transform} {records : List Record}
  (known : ∀ field ∈ t.fields, ∀ r ∈ records, ∃ c, r (FieldName.attributeName field) = some c)

include known

theorem exists_key_of_known {r : Record} (hr : r ∈ records) : ∃ key, t.key? r = some key := by
  have hkey : ∃ key, t.keyOf r = .ok key := exists_mapM_eq_ok fun field hf => by
    obtain ⟨c, hc⟩ := known field (List.mem_append_left _ hf) r hr
    exact ⟨c.keyText, by rw [Record.cell_eq_ok.mpr hc]; rfl⟩
  obtain ⟨key, hkey⟩ := hkey
  exact ⟨key, keyOf_eq_ok.mp hkey⟩

theorem failsOnly_rows (htokens : ∀ rule ∈ t.apply, rule.token.isUnknown = false) :
    FailsOnly (fun e => ∃ rule ∈ t.apply, rule.token.isNumeric = true ∧ e.IsMismatch rule.field)
      (t.rows records) := by
  have hgroups : ∃ groups, t.groups records = .ok groups :=
    ⟨_, groups_eq_ok.mpr ⟨fun r hr => exists_key_of_known known hr, rfl⟩⟩
  refine FailsOnly.bind (.of_exists hgroups) fun groups h => .mapM fun g hg => ?_
  obtain ⟨-, rfl⟩ := groups_eq_ok.mp h
  obtain ⟨key, hkey, rfl⟩ := List.mem_map.mp hg
  refine FailsOnly.bind (.mapM fun rule hr => ?_) fun values _ => .ok _
  have hfield : rule.field ∈ t.fields := List.mem_append_right _ (List.mem_map_of_mem hr)
  have hvalue := Rule.failsOnly_eval
    (fun r hm => known rule.field hfield r (mem_members.mp hm).1) (members_ne_nil hkey)
    (htokens rule hr)
  exact FailsOnly.bind (hvalue.imp fun e he => ⟨rule, hr, he⟩) fun value _ => .ok _

omit known

/-- The row of a group has the grouped fields and the keys of the rules. -/
theorem columns_of_rows {full : List Row} (h : t.rows records = .ok full) {row : Row}
    (hrow : row ∈ full) : row.columns = t.group ++ t.keys := by
  obtain ⟨groups, hgroups, hrows⟩ := rows_eq_ok.mp h
  obtain ⟨-, rfl⟩ := groups_eq_ok.mp hgroups
  obtain ⟨g, hg, hof⟩ := exists_of_mem_right hrows hrow
  obtain ⟨key, hkey, rfl⟩ := List.mem_map.mp hg
  obtain ⟨r, -, hr⟩ := mem_distinctKeys.mp hkey
  exact columns_rowOf (mapM_eq_some.mp hr).length_eq hof

end Transform

theorem Row.columns_eq {f : String → Option Cell} {columns : List String} {row : Row}
    (h : List.Forall₂ (fun column cell => cell.1 = column ∧ f column = some cell.2)
      columns row.cells) : row.columns = columns := by
  have hnames : List.Forall₂ (fun column (cell : String × Cell) => column = cell.1)
      columns row.cells := h.imp fun _ _ h => h.1.symm
  rw [← List.forall₂_map_right_iff, List.forall₂_eq_eq_eq] at hnames
  exact hnames.symm

namespace Query

variable {q : Query} {d : Dataset} {records : List Record}

theorem columns_of_project {rows : List Row} (h : q.project d records = .ok rows) {row : Row}
    (hrow : row ∈ rows) : row.columns = q.columns := by
  cases ht : q.transform with
  | none =>
    obtain ⟨columns, hcolumns, hrows⟩ := (project_eq_ok_of_ungrouped ht).mp h
    obtain ⟨r, -, hr⟩ := exists_of_mem_right hrows hrow
    exact Row.columns_eq (Record.isRow_of_project hcolumns hr)
  | some t =>
    obtain ⟨-, full, -, hrows⟩ := (project_eq_ok_of_transform ht).mp h
    obtain ⟨r, -, hr⟩ := exists_of_mem_right hrows hrow
    exact Row.columns_eq (Row.project_eq_ok.mp hr)

theorem failsOnly_project (valid : q.check = .ok ()) (hfits : ∀ r ∈ records, r.Fits d.kind) :
    FailsOnly (·.Concerns q) (q.project d records) := by
  unfold project
  cases ht : q.transform with
  | none =>
    have hname : ∀ column ∈ q.columns, FailsOnly (·.Concerns q) (d.attributeOf column) := by
      intro column hc
      refine (d.failsOnly_attributeOf column).imp ?_
      rintro e rfl
      show column ∈ q.transform.elim q.columns Transform.fields
      rw [ht]
      exact hc
    refine FailsOnly.bind (.mapM fun column hc => (hname column hc).bind fun a _ => .ok _) ?_
    intro columns hcolumns
    simp only [mapM_eq_ok, pair_eq_ok] at hcolumns
    refine .mapM fun r hr => .of_exists ((hfits r hr).exists_project ?_)
    intro column hc
    obtain ⟨_, -, -, ha⟩ := exists_of_mem_right hcolumns hc
    exact Dataset.exists_type ha
  | some t =>
    obtain ⟨-, -, htokens, hcolumns⟩ :=
      Transform.check_eq_ok.mp ((check_eq_ok.mp valid).2.2.2 t ht)
    have hname : ∀ field ∈ t.fields, FailsOnly (·.Concerns q) (d.attributeOf field) := by
      intro field hf
      refine (d.failsOnly_attributeOf field).imp ?_
      rintro e rfl
      show field ∈ q.transform.elim q.columns Transform.fields
      rw [ht]
      exact hf
    refine FailsOnly.bind (.forM fun field hf => (hname field hf).map) fun ⟨⟩ hknown => ?_
    simp only [forM_eq_ok, discard_eq_ok] at hknown
    -- All fields are attributes of the kind, so every record has them.
    have hcell : ∀ field ∈ t.fields, ∀ r ∈ records,
        ∃ c, r (FieldName.attributeName field) = some c := by
      intro field hf r hr
      obtain ⟨a, ha⟩ := hknown field hf
      exact (hfits r hr).exists_cell_of_attributeOf ha
    have hrows := Transform.failsOnly_rows hcell fun rule hr => (htokens rule hr).2
    refine FailsOnly.bind (hrows.imp ?_) fun full hfull => .mapM fun row hrow => .of_exists ?_
    · rintro e ⟨rule, hr, hnumeric, he⟩
      cases e with
      | typeMismatch field found expected => exact .inr ⟨t, ht, rule, hr, he.symm, hnumeric⟩
      | _ => cases he
    · apply Row.exists_project
      intro column hc
      rw [Transform.columns_of_rows hfull hrow, List.mem_append]
      exact hcolumns column hc

theorem failsOnly_answer (valid : q.check = .ok ()) (d : Dataset) :
    FailsOnly (·.Concerns q) (q.answer d) := by
  refine FailsOnly.bind ((q.filter.failsOnly_select d.records).imp ?_) fun matching h => ?_
  · rintro e ⟨field, hf, he⟩
    cases e with
    | missingAttribute field' => exact he ▸ hf
    | typeMismatch field' found expected => exact .inl (he ▸ hf)
    | _ => cases he
  · obtain ⟨-, rfl⟩ := Filter.select_eq_ok.mp h
    refine (failsOnly_project valid ?_).bind fun rows _ => .ok _
    intro r hr
    exact d.fits (List.mem_filter.mp hr).1

theorem failsOnly_resolve (q : Query) (store : Store) :
    FailsOnly (·.Concerns q) (q.resolve store) := by
  refine FailsOnly.bind ?_ fun id _ => .mapError ?_
  · unfold datasetId
    split
    · exact .error trivial
    · exact .ok _
    · exact .error trivial
  · intro e _
    split <;> trivial

theorem failsOnly_execute (valid : q.check = .ok ()) (store : Store) (limit : Nat) :
    FailsOnly (·.Concerns q) (q.execute store limit) := by
  refine (q.failsOnly_resolve store).bind fun d _ => ?_
  exact (failsOnly_answer valid d).bind fun rows _ => .guard (fun _ => trivial) fun _ => .ok rows

def Unordered (q : Query) (store : Store) (rows : List Row) : Prop :=
  ∃ d matching, q.resolve store = .ok d ∧ q.filter.select d.records = .ok matching ∧
    q.project d matching = .ok rows

/-- Sort keys are columns, and every row has all columns. -/
theorem Unordered.exists_get? {store : Store} {rows : List Row} (h : q.Unordered store rows)
    (valid : q.check = .ok ()) {o : Order} (ho : q.order = some o) {row : Row} (hrow : row ∈ rows)
    {key : String} (hkey : key ∈ o.names) : ∃ c, row.get? key = some c := by
  obtain ⟨d, matching, -, -, hproject⟩ := h
  have hcolumn := (Order.check_eq_ok.mp ((check_eq_ok.mp valid).2.2.1 o ho)).2 key hkey
  apply Row.exists_get?
  rw [columns_of_project hproject hrow]
  exact hcolumn

/-- What the errors of a document can be. -/
def ComesFrom (document : Json) : QueryError → Prop
  | .document _ => True
  | .flaw flaw => flaw.breaksShape = false
  | .failure failure => ∃ q, ofJson document = .ok q ∧ q.check = .ok () ∧ failure.Concerns q

/-- A document whose numbers are finite never has a flaw that its shape leaves out, its failures are
only about names that are looked up unchecked, and no row that is put in order lacks a key. -/
theorem perform_error_origin {document : Json} (finite : document.Finite) (store : Store)
    (limit : Nat) :
    (∀ flaw, perform document store limit = .error (.flaw flaw) → flaw.breaksShape = false) ∧
    (∀ failure, perform document store limit = .error (.failure failure) →
      ∃ q, ofJson document = .ok q ∧ q.check = .ok () ∧ failure.Concerns q) ∧
    ∀ q o rows, ofJson document = .ok q → q.check = .ok () → q.order = some o →
      q.Unordered store rows → ∀ row ∈ rows, ∀ key ∈ o.names, ∃ c, row.get? key = some c := by
  have horigin : FailsOnly (ComesFrom document) (perform document store limit) := by
    refine FailsOnly.bind (.mapError fun _ _ => trivial) fun q hq => ?_
    have hq' := mapError_eq_ok.mp hq
    refine FailsOnly.bind (.mapError ?_) fun _ hvalid => .mapError ?_
    · exact (Document.ofJson_eq_ok.mp hq').failsOnly_check finite
    · have valid := mapError_eq_ok.mp hvalid
      exact (failsOnly_execute valid store limit).imp fun _ he => ⟨q, hq', valid, he⟩
  refine ⟨fun flaw h => horigin _ h, fun failure h => horigin _ h, ?_⟩
  intro q o rows _ valid ho hrows row hrow key hkey
  exact hrows.exists_get? valid ho hrow hkey

def greatestDocument (field : String) : Json :=
  .object
    [("OPTIONS", .object
      [("COLUMNS", .array [.string "c_dept", .string "best"]), ("ORDER", .string "best")]),
     ("TRANSFORMATIONS", .object
      [("APPLY", .array [.object [("best", .object [("MAX", .string field)])]]),
       ("GROUP", .array [.string "c_dept"])]),
     ("WHERE", .object [])]

theorem finite_greatestDocument (field : String) : (greatestDocument field).Finite := by
  have hnames : ∀ names : List String, (Json.ofTexts names).Finite := fun names =>
    .array fun v hv => by
      obtain ⟨s, -, rfl⟩ := List.mem_map.mp hv
      exact .string
  have hrule : Json.Finite (.object [("best", .object [("MAX", .string field)])]) :=
    .object (by simpa using .object (by simpa using .string))
  have hoptions : Json.Finite (.object
      [("COLUMNS", .array [.string "c_dept", .string "best"]), ("ORDER", .string "best")]) :=
    .object (by simpa using ⟨hnames ["c_dept", "best"], .string⟩)
  have htransform : Json.Finite (.object
      [("APPLY", .array [.object [("best", .object [("MAX", .string field)])]]),
       ("GROUP", .array [.string "c_dept"])]) :=
    .object (by simpa using ⟨.array (by simpa using hrule), hnames ["c_dept"]⟩)
  exact .object (by simpa using ⟨hoptions, htransform, .object (by simp)⟩)

/-- The greatest department is asked for in vain, and the rows of the greatest averages have the
column that they are ordered by. -/
theorem perform_error_origin_greatest :
    let store := Store.ofGrades [("b", .infinite false), ("a", .zero)]
    (∃ q, ofJson (greatestDocument "c_dept") = .ok q ∧ q.check = .ok () ∧
      (Failure.typeMismatch "c_dept" .text .number).Concerns q) ∧
    ∃ q rows, ofJson (greatestDocument "c_avg") = .ok q ∧ q.Unordered store rows ∧
      rows.length = 2 ∧ ∀ row ∈ rows, ∃ c, row.get? "best" = some c := by
  intro store
  constructor
  · have h : perform (greatestDocument "c_dept") store 2 =
        .error (.failure (.typeMismatch "c_dept" .text .number)) := by cbv
    exact (perform_error_origin (finite_greatestDocument "c_dept") store 2).2.1 _ h
  · have hq : ofJson (greatestDocument "c_avg") =
        .ok ⟨.all, ["c_dept", "best"], some (.column "best"),
          some ⟨["c_dept"], [⟨"best", .max, "c_avg"⟩]⟩⟩ := by cbv
    let d := Dataset.ofGrades [("b", .infinite false), ("a", .zero)]
    have hrows : Unordered ⟨.all, ["c_dept", "best"], some (.column "best"),
        some ⟨["c_dept"], [⟨"best", .max, "c_avg"⟩]⟩⟩ store
        [⟨[("c_dept", .text "b"), ("best", .number (.infinite false))]⟩,
         ⟨[("c_dept", .text "a"), ("best", .number .zero)]⟩] :=
      ⟨d, d.records, by cbv, by rfl, by cbv⟩
    refine ⟨_, _, hq, hrows, rfl, fun row hrow => ?_⟩
    exact (perform_error_origin (finite_greatestDocument "c_avg") store 2).2.2 _ _ _ hq (by cbv)
      rfl hrows row hrow "best" List.mem_cons_self

end Query

end CampusQuery
