import CampusQuery.Proofs.Outcome
import CampusQuery.Query.Document

namespace CampusQuery

open Outcome

def Token.IsProper : Token → Prop
  | unknown name => ∀ t : Token, t.isUnknown = false → name ≠ t.name
  | _ => True

theorem Token.isProper_ofName (s : String) : (ofName s).IsProper := by
  unfold ofName
  split
  case h_6 =>
    intro t ht
    cases t with
    | unknown => cases ht
    | _ => assumption
  all_goals trivial

theorem Token.ofName_eq_iff {s : String} {t : Token} : ofName s = t ↔ s = t.name ∧ t.IsProper := by
  constructor
  · rintro rfl
    exact ⟨(name_ofName s).symm, isProper_ofName s⟩
  · rintro ⟨rfl, h⟩
    cases t with
    | unknown name =>
      have hname : (ofName name).name = name := name_ofName name
      show ofName name = unknown name
      cases ht : ofName name with
      | unknown s =>
        rw [ht] at hname
        exact congrArg unknown hname
      | _ =>
        rw [ht] at hname
        exact absurd hname.symm (h _ rfl)
    | _ => rfl

namespace Json

def member? (name : String) : Json → Option Json
  | object members => members.lookup name
  | _ => none

def ofTexts (texts : List String) : Json := .array (texts.map .string)

theorem text?_eq_some {v : Json} {s : String} : v.text? = some s ↔ v = .string s := by
  cases v <;> simp [text?]

theorem texts?_eq_some {v : Json} {texts : List String} :
    v.texts? = some texts ↔ v = ofTexts texts := by
  cases v with
  | array items =>
    rw [texts?, mapM_eq_some, ofTexts, array.injEq]
    simp only [text?_eq_some]
    rw [← List.forall₂_eq_eq_eq, List.forall₂_map_right_iff]
  | _ => simp [texts?, ofTexts]

end Json

namespace Document

inductive EncodesNumber : Json → Binary64 → Prop
  | int {n : Int} : EncodesNumber (.int n) (.ofInt n)
  | double {x : Binary64} : EncodesNumber (.double x) x

inductive EncodesFilter : Json → Filter → Prop
  | connect {op : Connective} {items : List Json} {operands : List Filter} (hne : items ≠ [])
      (h : List.Forall₂ EncodesFilter items operands) :
      EncodesFilter (.object [(op.name, .array items)]) (.connect op operands)
  | compare {op : Comparison} {field : String} {v : Json} {x : Binary64} (h : EncodesNumber v x) :
      EncodesFilter (.object [(op.name, .object [(field, v)])]) (.compare op field x)
  | like {field s : String} :
      EncodesFilter (.object [("IS", .object [(field, .string s)])]) (.like field ⟨s⟩)
  | not {v : Json} {f : Filter} (h : EncodesFilter v f) :
      EncodesFilter (.object [("NOT", v)]) (.not f)

/-- Only a whole condition may be empty. -/
def EncodesCondition (v : Json) (f : Filter) : Prop :=
  v = .object [] ∧ f = .all ∨ EncodesFilter v f

def EncodesNames (v : Option Json) (names : List String) : Prop :=
  v = some (.ofTexts names) ∧ names ≠ []

inductive EncodesOrder : Json → Order → Prop
  | column {name : String} : EncodesOrder (.string name) (.column name)
  | keys {v : Json} {d : Direction} {names : List String}
      (hdir : v.member? "dir" = some (.string d.name))
      (hkeys : EncodesNames (v.member? "keys") names) : EncodesOrder v (.keys d names)

def EncodesOptions (v : Json) (columns : List String) (order : Option Order) : Prop :=
  EncodesNames (v.member? "COLUMNS") columns ∧ Option.Rel EncodesOrder (v.member? "ORDER") order

def EncodesRule (v : Json) (r : Rule) : Prop :=
  v = .object [(r.key, .object [(r.token.name, .string r.field)])] ∧ r.token.IsProper

def EncodesTransform (v : Json) (t : Transform) : Prop :=
  EncodesNames (v.member? "GROUP") t.group ∧
    ∃ rules, v.member? "APPLY" = some (.array rules) ∧ List.Forall₂ EncodesRule rules t.apply

/-- Members of other names do not matter, here and in the clauses. -/
structure Encodes (v : Json) (q : Query) : Prop where
  filter : ∃ w, v.member? "WHERE" = some w ∧ EncodesCondition w q.filter
  options : ∃ w, v.member? "OPTIONS" = some w ∧ EncodesOptions w q.columns q.order
  transform : Option.Rel EncodesTransform (v.member? "TRANSFORMATIONS") q.transform

def FilterKey.name : FilterKey → String
  | connect op => op.name
  | compare op => op.name
  | like => "IS"
  | not => "NOT"

theorem FilterKey.ofName?_eq_some {s : String} {k : FilterKey} :
    ofName? s = some k ↔ s = k.name := by
  constructor
  · intro h
    unfold ofName? at h
    split at h <;> cases h <;> rfl
  · rintro rfl
    cases k with
    | connect op => cases op <;> rfl
    | compare op => cases op <;> rfl
    | like => rfl
    | not => rfl

theorem nested_eq_ok {context : String} {f g : Filter} :
    nested context f = .ok g ↔ f = g ∧ f ≠ .all := by
  cases f <;> simp [nested, Filter.isAll]

theorem operands_eq_ok {context : String} {vs : List Json} {fs : List Filter} :
    operands context vs = .ok fs ↔
      List.Forall₂ (fun v f => filter v = .ok f ∧ f ≠ .all) vs fs := by
  induction vs generalizing fs with
  | nil => simp [operands, eq_comm]
  | cons v vs ih =>
    rw [operands]
    simp only [bind_eq_ok, pure_eq_ok, nested_eq_ok, ih, List.forall₂_cons_left_iff]
    constructor
    · rintro ⟨f, hf, _, ⟨rfl, hall⟩, fs, hfs, rfl⟩
      exact ⟨f, fs, ⟨hf, hall⟩, hfs, rfl⟩
    · rintro ⟨f, fs, ⟨hf, hall⟩, hfs, rfl⟩
      exact ⟨f, hf, f, ⟨rfl, hall⟩, fs, hfs, rfl⟩

/-- A condition is empty or has one of the known keys. -/
theorem exists_key_of_filter {v : Json} {f : Filter} (h : filter v = .ok f) :
    v = .object [] ∧ f = .all ∨ ∃ (k : FilterKey) (body : Json), v = .object [(k.name, body)] := by
  unfold filter at h
  split at h
  · cases h
    exact .inl ⟨rfl, rfl⟩
  · rename_i key body
    cases hkey : FilterKey.ofName? key with
    | none =>
      rw [hkey] at h
      cases h
    | some k => exact .inr ⟨k, body, by rw [FilterKey.ofName?_eq_some.mp hkey]⟩
  · cases h
  · cases h

/-- A document with one known key is read by what stands under it. -/
theorem filter_of_key {key : String} {k : FilterKey} (hkey : FilterKey.ofName? key = some k)
    (body : Json) : filter (.object [(key, body)]) =
      match k, body with
      | .connect op, .array (item :: items) => do
        return .connect op (← operands op.name (item :: items))
      | .connect op, _ => .error (.invalidFilter s!"{op.name} must be a non-empty array")
      | .compare op, body => comparison op body
      | .like, body => likeness body
      | .not, .object members => do return .not (← nested "NOT" (← filter (.object members)))
      | .not, _ => .error (.invalidFilter "NOT value must be a filter object") := by
  -- Only the whole condition is opened, not those inside.
  conv_lhs =>
    unfold filter
    simp only [hkey]
  cases k with
  | connect op =>
    cases body with
    | array items => cases items <;> rfl
    | _ => rfl
  | compare op => rfl
  | like => rfl
  | not => cases body <;> rfl

theorem filter_connect_eq_ok {op : Connective} {body : Json} {f : Filter} :
    filter (.object [(op.name, body)]) = .ok f ↔
      ∃ items fs, body = .array items ∧ items ≠ [] ∧ f = .connect op fs ∧
        List.Forall₂ (fun v f => filter v = .ok f ∧ f ≠ .all) items fs := by
  have hkey : FilterKey.ofName? op.name = some (.connect op) := FilterKey.ofName?_eq_some.mpr rfl
  rw [filter_of_key hkey]
  cases body with
  | array items =>
    cases items with
    | nil => simp
    | cons item items =>
      simp only [bind_eq_ok, pure_eq_ok, operands_eq_ok]
      constructor
      · rintro ⟨fs, hfs, rfl⟩
        exact ⟨_, fs, rfl, List.cons_ne_nil _ _, rfl, hfs⟩
      · rintro ⟨_, fs, hitems, -, rfl, hfs⟩
        cases hitems
        exact ⟨fs, hfs, rfl⟩
  | _ => simp

theorem fieldAndValue_eq_ok {name : String} {body : Json} {p : String × Json} :
    fieldAndValue name body = .ok p ↔ body = .object [p] := by
  unfold fieldAndValue
  split
  · simp [Prod.ext_iff]
  · rename_i hne
    simp only [reduceCtorEq, false_iff]
    exact hne p.1 p.2

theorem number?_eq_some {v : Json} {x : Binary64} : v.number? = some x ↔ EncodesNumber v x := by
  constructor
  · intro h
    unfold Json.number? at h
    split at h
    · cases h
      exact .int
    · cases h
      exact .double
    · cases h
  · rintro (_ | _) <;> rfl

theorem filter_compare_eq_ok {op : Comparison} {body : Json} {f : Filter} :
    filter (.object [(op.name, body)]) = .ok f ↔
      ∃ field v x, body = .object [(field, v)] ∧ EncodesNumber v x ∧ f = .compare op field x := by
  have hkey : FilterKey.ofName? op.name = some (.compare op) := FilterKey.ofName?_eq_some.mpr rfl
  rw [filter_of_key hkey]
  simp only [comparison, bind_eq_ok, fieldAndValue_eq_ok]
  constructor
  · rintro ⟨⟨field, v⟩, rfl, h⟩
    split at h
    · rename_i x hx
      exact ⟨field, v, x, rfl, number?_eq_some.mp hx, (pure_eq_ok.mp h).symm⟩
    · exact (throw_ne_ok h).elim
  · rintro ⟨field, v, x, rfl, hx, rfl⟩
    refine ⟨(field, v), rfl, ?_⟩
    simp only [number?_eq_some.mpr hx, pure_eq_ok]

theorem filter_like_eq_ok {body : Json} {f : Filter} :
    filter (.object [("IS", body)]) = .ok f ↔
      ∃ field s, body = .object [(field, .string s)] ∧ f = .like field ⟨s⟩ := by
  have hkey : FilterKey.ofName? "IS" = some .like := rfl
  rw [filter_of_key hkey]
  simp only [likeness, bind_eq_ok, fieldAndValue_eq_ok]
  constructor
  · rintro ⟨⟨field, v⟩, rfl, h⟩
    split at h
    · rename_i s hs
      obtain rfl := Json.text?_eq_some.mp hs
      exact ⟨field, s, rfl, (pure_eq_ok.mp h).symm⟩
    · exact (throw_ne_ok h).elim
  · rintro ⟨field, s, rfl, rfl⟩
    exact ⟨(field, .string s), rfl, rfl⟩

theorem filter_not_eq_ok {body : Json} {f : Filter} :
    filter (.object [("NOT", body)]) = .ok f ↔
      ∃ g, f = .not g ∧ filter body = .ok g ∧ g ≠ .all := by
  have hkey : FilterKey.ofName? "NOT" = some .not := rfl
  rw [filter_of_key hkey]
  cases body with
  | object members =>
    simp only [bind_eq_ok, pure_eq_ok, nested_eq_ok]
    constructor
    · rintro ⟨g, hg, _, ⟨rfl, hne⟩, rfl⟩
      exact ⟨g, rfl, hg, hne⟩
    · rintro ⟨g, rfl, hg, hne⟩
      exact ⟨g, hg, g, ⟨rfl, hne⟩, rfl⟩
  | _ =>
    simp only [reduceCtorEq, false_iff]
    rintro ⟨g, -, hg, -⟩
    rcases exists_key_of_filter hg with ⟨hv, -⟩ | ⟨k, body, hv⟩ <;> cases hv

theorem EncodesCondition.of_ne_all {v : Json} {f : Filter} (h : EncodesCondition v f)
    (hne : f ≠ .all) : EncodesFilter v f :=
  h.resolve_left fun hempty => hne hempty.2

theorem encodesCondition_of_filter {v : Json} {f : Filter} (h : filter v = .ok f) :
    EncodesCondition v f := by
  -- What the conditions inside are read from is smaller than the whole document.
  rcases exists_key_of_filter h with hempty | ⟨k, body, hv⟩
  · exact .inl hempty
  rw [hv] at h ⊢
  refine .inr ?_
  cases k with
  | connect op =>
    obtain ⟨items, fs, rfl, hitems, rfl, hfs⟩ := filter_connect_eq_ok.mp h
    refine .connect hitems ?_
    rw [List.forall₂_iff_zip] at hfs ⊢
    refine ⟨hfs.1, fun {w g} hmem => ?_⟩
    obtain ⟨hg, hne⟩ := hfs.2 hmem
    exact (encodesCondition_of_filter hg).of_ne_all hne
  | compare op =>
    obtain ⟨field, w, x, rfl, hx, rfl⟩ := filter_compare_eq_ok.mp h
    exact .compare hx
  | like =>
    obtain ⟨field, s, rfl, rfl⟩ := filter_like_eq_ok.mp h
    exact .like
  | not =>
    obtain ⟨g, rfl, hg, hne⟩ := filter_not_eq_ok.mp h
    exact .not ((encodesCondition_of_filter hg).of_ne_all hne)
termination_by sizeOf v
decreasing_by
  · have := List.sizeOf_lt_of_mem (List.of_mem_zip hmem).1
    simp only [hv, Json.object.sizeOf_spec, Json.array.sizeOf_spec, List.cons.sizeOf_spec,
      Prod.mk.sizeOf_spec]
    omega
  · simp only [hv, Json.object.sizeOf_spec, List.cons.sizeOf_spec, Prod.mk.sizeOf_spec]
    omega

theorem EncodesFilter.connect_iff {v : Json} {op : Connective} {fs : List Filter} :
    EncodesFilter v (.connect op fs) ↔ ∃ items, v = .object [(op.name, .array items)] ∧
      items ≠ [] ∧ List.Forall₂ EncodesFilter items fs := by
  constructor
  · intro h
    cases h with
    | connect hne h => exact ⟨_, rfl, hne, h⟩
  · rintro ⟨items, rfl, hne, h⟩
    exact .connect hne h

theorem EncodesFilter.compare_iff {v : Json} {op : Comparison} {field : String} {x : Binary64} :
    EncodesFilter v (.compare op field x) ↔
      ∃ w, v = .object [(op.name, .object [(field, w)])] ∧ EncodesNumber w x := by
  constructor
  · intro h
    cases h with
    | compare h => exact ⟨_, rfl, h⟩
  · rintro ⟨w, rfl, h⟩
    exact .compare h

theorem EncodesFilter.not_iff {v : Json} {f : Filter} :
    EncodesFilter v (.not f) ↔ ∃ w, v = .object [("NOT", w)] ∧ EncodesFilter w f := by
  constructor
  · intro h
    cases h with
    | not h => exact ⟨_, rfl, h⟩
  · rintro ⟨w, rfl, h⟩
    exact .not h

theorem EncodesFilter.ne_all {v : Json} {f : Filter} (h : EncodesFilter v f) : f ≠ .all := by
  cases h <;> simp

theorem EncodesFilter.filter_eq {v : Json} {f : Filter} (h : EncodesFilter v f) :
    filter v = .ok f := by
  induction f using Filter.induction generalizing v with
  | all => cases h
  | connect op fs ih =>
    cases h with
    | @connect _ items _ hitems h =>
      refine filter_connect_eq_ok.mpr ⟨items, fs, rfl, hitems, rfl, ?_⟩
      rw [List.forall₂_iff_zip] at h ⊢
      refine ⟨h.1, fun {w g} hmem => ?_⟩
      exact ⟨ih g (List.of_mem_zip hmem).2 (h.2 hmem), (h.2 hmem).ne_all⟩
  | compare =>
    cases h with
    | compare h => exact filter_compare_eq_ok.mpr ⟨_, _, _, rfl, h, rfl⟩
  | like =>
    cases h with
    | like => exact filter_like_eq_ok.mpr ⟨_, _, rfl, rfl⟩
  | not f ih =>
    cases h with
    | not h => exact filter_not_eq_ok.mpr ⟨f, rfl, ih h, h.ne_all⟩

theorem filter_eq_ok {v : Json} {f : Filter} : filter v = .ok f ↔ EncodesCondition v f := by
  constructor
  · exact encodesCondition_of_filter
  · rintro (⟨rfl, rfl⟩ | h)
    · rfl
    · exact h.filter_eq

theorem condition_eq_ok {v : Json} {f : Filter} : condition v = .ok f ↔ EncodesCondition v f := by
  rw [← filter_eq_ok]
  cases v with
  | object members => rfl
  | _ => simp [condition, filter]

theorem names?_eq_some {v : Option Json} {names : List String} :
    names? v = some names ↔ EncodesNames v names := by
  rw [names?, EncodesNames, Option.filter_eq_some_iff, Option.bind_eq_some_iff]
  simp only [Json.texts?_eq_some]
  cases names <;> simp

theorem direction?_eq_some {v : Option Json} {d : Direction} :
    direction? v = some d ↔ v = some (.string d.name) := by
  constructor
  · intro h
    unfold direction? at h
    split at h <;> cases h <;> rfl
  · rintro rfl
    cases d <;> rfl

theorem order_eq_ok {v : Json} {o : Order} : order v = .ok o ↔ EncodesOrder v o := by
  constructor
  · intro h
    unfold order at h
    split at h
    · cases h
      exact .column
    · split at h
      · rename_i members _ _ d names hdir hkeys
        cases h
        exact .keys (direction?_eq_some.mp hdir) (names?_eq_some.mp hkeys)
      · cases h
      · cases h
    · cases h
  · intro h
    cases h with
    | column => rfl
    | @keys v d names hdir hkeys =>
      cases v with
      | object members =>
        have hd : direction? (members.lookup "dir") = some d := direction?_eq_some.mpr hdir
        have hnames : names? (members.lookup "keys") = some names := names?_eq_some.mpr hkeys
        rw [order, hd, hnames]
      | _ => cases hdir

theorem options_eq_ok {v : Json} {columns : List String} {o : Option Order} :
    options v = .ok (columns, o) ↔ EncodesOptions v columns o := by
  cases v with
  | object members =>
    have horder (given : List String) : (do return (given, ← (members.lookup "ORDER").mapM order)) =
        Except.ok (columns, o) ↔
          columns = given ∧ Option.Rel EncodesOrder (members.lookup "ORDER") o := by
      simp only [pair_eq_ok, option_mapM_eq_ok, order_eq_ok]
    rw [EncodesOptions, ← names?_eq_some]
    simp only [options, Json.member?]
    cases hgiven : members.lookup "COLUMNS" with
    | none => simp [names?]
    | some given =>
      cases hnames : names? (some given) with
      | none => simp [hnames]
      | some names =>
        simp only [hnames, horder, Option.some.injEq]
        rw [eq_comm]
  | _ => simp [options, EncodesOptions, EncodesNames, Json.member?]

theorem rule_eq_ok {v : Json} {r : Rule} : rule v = .ok r ↔ EncodesRule v r := by
  constructor
  · intro h
    unfold rule at h
    split at h
    · rename_i key token field
      cases h
      obtain ⟨htoken, hproper⟩ := Token.ofName_eq_iff.mp (rfl : Token.ofName token = _)
      exact ⟨by rw [← htoken], hproper⟩
    · cases h
  · rintro ⟨rfl, h⟩
    have htoken : Token.ofName r.token.name = r.token := Token.ofName_eq_iff.mpr ⟨rfl, h⟩
    rw [rule, htoken]

theorem transform_eq_ok {v : Json} {t : Transform} :
    transform v = .ok t ↔ EncodesTransform v t := by
  cases v with
  | object members =>
    rw [EncodesTransform, ← names?_eq_some]
    simp only [transform, Json.member?]
    cases hgroup : names? (members.lookup "GROUP") with
    | none => simp
    | some group =>
      cases hrules : members.lookup "APPLY" with
      | none => simp
      | some w =>
        cases w with
        | array rules =>
          simp only [bind_eq_ok, pure_eq_ok, mapM_eq_ok, rule_eq_ok, Option.some.injEq,
            Json.array.injEq, exists_eq_left']
          constructor
          · rintro ⟨apply, happly, rfl⟩
            exact ⟨rfl, happly⟩
          · rintro ⟨rfl, happly⟩
            exact ⟨t.apply, happly, rfl⟩
        | _ => simp
  | _ => simp [transform, EncodesTransform, EncodesNames, Json.member?]

theorem ofJson_eq_ok {v : Json} {q : Query} : Query.ofJson v = .ok q ↔ Encodes v q := by
  cases v with
  | object members =>
    simp only [Query.ofJson]
    cases hfilter : members.lookup "WHERE" with
    | none =>
      simp only [throw_ne_ok, false_iff]
      rintro ⟨⟨w, hw, -⟩, -, -⟩
      cases hfilter.symm.trans hw
    | some w =>
      cases hoptions : members.lookup "OPTIONS" with
      | none =>
        simp only [bind_eq_ok, throw_ne_ok, and_false, exists_false, false_iff]
        rintro ⟨-, ⟨w, hw, -⟩, -⟩
        cases hoptions.symm.trans hw
      | some w' =>
        simp only [bind_eq_ok, pure_eq_ok, condition_eq_ok, Prod.exists, options_eq_ok,
          option_mapM_eq_ok, transform_eq_ok]
        constructor
        · rintro ⟨f, hf, columns, o, ho, t, ht, rfl⟩
          exact ⟨⟨w, hfilter, hf⟩, ⟨w', hoptions, ho⟩, ht⟩
        · rintro ⟨⟨_, hw, hf⟩, ⟨_, hw', ho⟩, ht⟩
          cases hfilter.symm.trans hw
          cases hoptions.symm.trans hw'
          exact ⟨q.filter, hf, q.columns, q.order, ho, q.transform, ht, rfl⟩
  | _ =>
    simp only [Query.ofJson, reduceCtorEq, false_iff]
    rintro ⟨⟨w, hw, -⟩, -, -⟩
    cases hw

end Document

end CampusQuery
