import CampusQuery.Proofs.Query.Grammar

namespace CampusQuery

/-- An infinity or a NaN is no number of JSON and becomes null. -/
def Json.ofLiteral (x : Binary64) : Json := if x.isFinite then .double x else .null

mutual

def Filter.toJson : Filter → Json
  | .all => .object []
  | .connect op operands => .object [(op.name, .array (Filter.toJsonAll operands))]
  | .compare op field literal => .object [(op.name, .object [(field, .ofLiteral literal)])]
  | .like field pattern => .object [("IS", .object [(field, .string pattern.raw)])]
  | .not operand => .object [("NOT", Filter.toJson operand)]

def Filter.toJsonAll : List Filter → List Json
  | [] => []
  | f :: fs => Filter.toJson f :: Filter.toJsonAll fs

end

def Order.toJson : Order → Json
  | column name => .string name
  | keys d names => .object [("dir", .string d.name), ("keys", .ofTexts names)]

def Rule.toJson (r : Rule) : Json :=
  .object [(r.key, .object [(r.token.name, .string r.field)])]

def Transform.toJson (t : Transform) : Json :=
  .object [("APPLY", .array (t.apply.map Rule.toJson)), ("GROUP", .ofTexts t.group)]

namespace Query

def optionsJson (q : Query) : Json :=
  .object (("COLUMNS", .ofTexts q.columns) :: (q.order.map fun o => ("ORDER", o.toJson)).toList)

def toJson (q : Query) : Json :=
  .object (("OPTIONS", q.optionsJson) ::
    ((q.transform.map fun t => ("TRANSFORMATIONS", t.toJson)).toList ++
      [("WHERE", q.filter.toJson)]))

end Query

/-- A condition that has no empty one inside, with operands for each connective. -/
inductive Filter.Writable : Filter → Prop
  | connect {op : Connective} {operands : List Filter} (hne : operands ≠ [])
      (h : ∀ f ∈ operands, Writable f) : Writable (.connect op operands)
  | compare {op : Comparison} {field : String} {literal : Binary64}
      (h : literal.isFinite = true) : Writable (.compare op field literal)
  | like {field : String} {pattern : Pattern} : Writable (.like field pattern)
  | not {operand : Filter} (h : Writable operand) : Writable (.not operand)

structure Query.Writable (q : Query) : Prop where
  filter : q.filter = .all ∨ q.filter.Writable
  columns : q.columns ≠ []
  order : ∀ o ∈ q.order, o.names ≠ []
  group : ∀ t ∈ q.transform, t.group ≠ []
  tokens : ∀ t ∈ q.transform, ∀ r ∈ t.apply, r.token.IsProper

namespace Document

theorem toJsonAll_eq_map (fs : List Filter) : Filter.toJsonAll fs = fs.map Filter.toJson := by
  induction fs with
  | nil => rfl
  | cons f fs ih => rw [Filter.toJsonAll, ih, List.map_cons]

theorem encodesNumber_ofLiteral {x : Binary64} :
    EncodesNumber (.ofLiteral x) x ↔ x.isFinite = true := by
  rw [Json.ofLiteral]
  constructor
  · intro h
    by_contra hx
    rw [if_neg hx] at h
    cases h
  · intro hx
    rw [if_pos hx]
    exact .double

theorem encodesFilter_toJson {f : Filter} : EncodesFilter f.toJson f ↔ f.Writable := by
  induction f using Filter.induction with
  -- An empty condition is neither a filter nor writable inside another.
  | all => exact ⟨nofun, nofun⟩
  | connect op fs ih =>
    rw [Filter.toJson, toJsonAll_eq_map, EncodesFilter.connect_iff]
    constructor
    · rintro ⟨items, hitems, hne, h⟩
      cases hitems
      rw [List.forall₂_map_left_iff, List.forall₂_same] at h
      exact .connect (mt List.map_eq_nil_iff.mpr hne) fun f hf => (ih f hf).mp (h f hf)
    · intro h
      cases h with
      | connect hne h =>
        refine ⟨_, rfl, mt List.map_eq_nil_iff.mp hne, ?_⟩
        rw [List.forall₂_map_left_iff, List.forall₂_same]
        exact fun f hf => (ih f hf).mpr (h f hf)
  | compare op field literal =>
    rw [Filter.toJson, EncodesFilter.compare_iff]
    constructor
    · rintro ⟨w, hw, h⟩
      cases hw
      exact .compare (encodesNumber_ofLiteral.mp h)
    · intro h
      cases h with
      | compare h => exact ⟨_, rfl, encodesNumber_ofLiteral.mpr h⟩
  | like field pattern => exact ⟨fun _ => .like, fun _ => .like⟩
  | not f ih =>
    rw [Filter.toJson, EncodesFilter.not_iff]
    constructor
    · rintro ⟨w, hw, h⟩
      cases hw
      exact .not (ih.mp h)
    · intro h
      cases h with
      | not h => exact ⟨_, rfl, ih.mpr h⟩

theorem encodesCondition_toJson {f : Filter} :
    EncodesCondition f.toJson f ↔ f = .all ∨ f.Writable := by
  rw [EncodesCondition, encodesFilter_toJson]
  constructor
  · rintro (⟨-, hf⟩ | h)
    · exact .inl hf
    · exact .inr h
  · rintro (rfl | h)
    · exact .inl ⟨rfl, rfl⟩
    · exact .inr h

theorem encodesNames_ofTexts {names : List String} :
    EncodesNames (some (.ofTexts names)) names ↔ names ≠ [] :=
  and_iff_right rfl

theorem encodesOrder_toJson {o : Order} : EncodesOrder o.toJson o ↔ o.names ≠ [] := by
  cases o with
  | column name => exact ⟨fun _ => List.cons_ne_nil _ _, fun _ => .column⟩
  | keys d names =>
    constructor
    · intro h
      cases h with
      | keys _ hnames => exact hnames.2
    · exact fun h => .keys rfl ⟨rfl, h⟩

theorem encodesTransform_toJson {t : Transform} :
    EncodesTransform t.toJson t ↔ t.group ≠ [] ∧ ∀ r ∈ t.apply, r.token.IsProper := by
  have hrules : List.Forall₂ EncodesRule (t.apply.map Rule.toJson) t.apply ↔
      ∀ r ∈ t.apply, r.token.IsProper := by
    rw [List.forall₂_map_left_iff, List.forall₂_same]
    exact forall₂_congr fun r _ => and_iff_right rfl
  rw [← hrules]
  constructor
  · rintro ⟨hgroup, rules, happly, h⟩
    cases happly
    exact ⟨hgroup.2, h⟩
  · rintro ⟨hgroup, h⟩
    exact ⟨⟨rfl, hgroup⟩, _, rfl, h⟩

/-- An optional clause is the value of an optional member. -/
theorem rel_map_iff {α : Type} {R : Json → α → Prop} {write : α → Json} {x : Option α} :
    Option.Rel R (x.map write) x ↔ ∀ a ∈ x, R (write a) a := by
  cases x with
  | none => exact ⟨fun _ => nofun, fun _ => .none⟩
  | some a =>
    simp only [Option.map_some, Option.mem_some_iff, forall_eq']
    exact ⟨fun | .some h => h, .some⟩

theorem encodesOptions_optionsJson {q : Query} :
    EncodesOptions q.optionsJson q.columns q.order ↔
      q.columns ≠ [] ∧ ∀ o ∈ q.order, o.names ≠ [] := by
  have hcolumns : q.optionsJson.member? "COLUMNS" = some (.ofTexts q.columns) := rfl
  have horder : q.optionsJson.member? "ORDER" = q.order.map Order.toJson := by
    rw [Query.optionsJson]
    cases q.order <;> rfl
  rw [EncodesOptions, hcolumns, encodesNames_ofTexts, horder, rel_map_iff]
  simp only [encodesOrder_toJson]

theorem encodes_toJson {q : Query} : Encodes q.toJson q ↔ q.Writable := by
  have hfilter : q.toJson.member? "WHERE" = some q.filter.toJson := by
    rw [Query.toJson]
    cases q.transform <;> rfl
  have hoptions : q.toJson.member? "OPTIONS" = some q.optionsJson := rfl
  have htransform : q.toJson.member? "TRANSFORMATIONS" = q.transform.map Transform.toJson := by
    rw [Query.toJson]
    cases q.transform <;> rfl
  constructor
  · rintro ⟨⟨_, hw, hf⟩, ⟨_, hw', ho⟩, ht⟩
    cases hfilter.symm.trans hw
    cases hoptions.symm.trans hw'
    rw [htransform, rel_map_iff] at ht
    obtain ⟨hcolumns, horder⟩ := encodesOptions_optionsJson.mp ho
    exact ⟨encodesCondition_toJson.mp hf, hcolumns, horder,
      fun t h => (encodesTransform_toJson.mp (ht t h)).1,
      fun t h => (encodesTransform_toJson.mp (ht t h)).2⟩
  · intro h
    refine ⟨⟨_, hfilter, encodesCondition_toJson.mpr h.filter⟩,
      ⟨_, hoptions, encodesOptions_optionsJson.mpr ⟨h.columns, h.order⟩⟩, ?_⟩
    rw [htransform, rel_map_iff]
    exact fun t ht => encodesTransform_toJson.mpr ⟨h.group t ht, h.tokens t ht⟩

end Document

/-- Documents are read by the grammar, and the queries that are read back from the documents
written for them are those that can be written. -/
theorem Query.ofJson_grammar :
    (∀ (v : Json) (q : Query), ofJson v = .ok q ↔ Document.Encodes v q) ∧
    ∀ q : Query, ofJson q.toJson = .ok q ↔ q.Writable := by
  refine ⟨fun v q => Document.ofJson_eq_ok, fun q => ?_⟩
  rw [Document.ofJson_eq_ok, Document.encodes_toJson]

end CampusQuery
