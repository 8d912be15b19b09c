import CampusQuery.Proofs.Query.Algebra
import CampusQuery.Proofs.Query.Validity

namespace CampusQuery

namespace Outcome

variable {ε α : Type}

def firstOf : List ε → Except ε Unit
  | [] => .ok ()
  | e :: _ => .error e

theorem firstOf_eq_ok {es : List ε} : firstOf es = .ok () ↔ es = [] := by
  cases es <;> simp [firstOf]

theorem firstOf_eq_error {es : List ε} {e : ε} : firstOf es = .error e ↔ es.head? = some e := by
  cases es <;> simp [firstOf]

theorem firstOf_append (es es' : List ε) :
    firstOf (es ++ es') = (firstOf es >>= fun _ => firstOf es') := by
  cases es <;> rfl

def errorIf (c : Prop) [Decidable c] (e : ε) : List ε := if c then [e] else []

theorem errorIf_eq_nil {c : Prop} [Decidable c] {e : ε} : errorIf c e = [] ↔ ¬c := by
  by_cases hc : c <;> simp [errorIf, hc]

/-- A guard in front of further checks is a possible error in front of theirs. -/
theorem firstOf_errorIf_append {c : Prop} [Decidable c] {e : ε} {es : List ε} :
    firstOf (errorIf c e ++ es) = if c then .error e else firstOf es := by
  by_cases hc : c <;> simp [errorIf, firstOf, hc]

theorem firstOf_errorIf {c : Prop} [Decidable c] {e : ε} :
    firstOf (errorIf c e) = if c then .error e else .ok () := by
  by_cases hc : c <;> simp [errorIf, firstOf, hc]

theorem firstOf_map_filter (p : α → Bool) (f : α → ε) (xs : List α) :
    firstOf ((xs.filter p).map f) = (xs.find? p).elim (.ok ()) fun x => .error (f x) := by
  rw [← List.head?_filter]
  cases xs.filter p <;> rfl

theorem forM_eq_firstOf {f : α → Except ε Unit} {errors : α → List ε}
    (h : ∀ a, f a = firstOf (errors a)) (x : Option α) :
    x.forM f = firstOf (x.elim [] errors) := by
  cases x with
  | none => rfl
  | some a => exact h a

end Outcome

open Outcome

namespace Filter

def ownFlaws : Filter → List Flaw
  | connect op operands => errorIf (operands.isEmpty = true) (.emptyConnective op)
  | compare _ field literal =>
    errorIf (field = "") .emptyField ++ errorIf (¬literal.isFinite) (.nonFiniteLiteral field)
  | like field _ => errorIf (field = "") .emptyField
  | all | not _ => []

/-- A node comes before its operands, and these from left to right. -/
def flaws (f : Filter) : List Flaw := f.subtrees.flatMap ownFlaws

def IsSound : Filter → Prop
  | connect _ operands => operands ≠ []
  | compare _ field literal => field ≠ "" ∧ literal.isFinite = true
  | like field _ => field ≠ ""
  | all | not _ => True

theorem ownFlaws_eq_nil {f : Filter} : f.ownFlaws = [] ↔ f.IsSound := by
  cases f <;> simp [ownFlaws, IsSound, errorIf_eq_nil]

theorem flaws_eq_nil {f : Filter} : f.flaws = [] ↔ ∀ g ∈ f.subtrees, g.IsSound := by
  simp only [flaws, List.flatMap_eq_nil_iff, ownFlaws_eq_nil]

theorem checkAll_eq_firstOf {fs : List Filter} (h : ∀ f ∈ fs, f.check = firstOf f.flaws) :
    checkAll fs = firstOf ((subtreesOf fs).flatMap ownFlaws) := by
  induction fs with
  | nil => rfl
  | cons f fs ih =>
    rw [List.forall_mem_cons] at h
    rw [checkAll, h.1, ih h.2, subtreesOf, List.flatMap_append, firstOf_append, flaws]

theorem check_eq_firstOf (f : Filter) : f.check = firstOf f.flaws := by
  induction f using Filter.induction with
  | all => rfl
  | compare op field literal =>
    rw [flaws, subtrees, List.flatMap_singleton, ownFlaws, firstOf_errorIf_append,
      firstOf_errorIf, check]
    simp only [ite_not]
  | like field pattern =>
    rw [flaws, subtrees, List.flatMap_singleton, ownFlaws, firstOf_errorIf, check]
  | not f ih =>
    rw [check, ih, flaws, flaws, subtrees, List.flatMap_cons, ownFlaws, List.nil_append]
  | connect op fs ih =>
    rw [flaws, subtrees, List.flatMap_cons, ownFlaws, firstOf_errorIf_append]
    cases fs with
    | nil => rfl
    | cons f fs =>
      have hcheck : (connect op (f :: fs)).check = checkAll (f :: fs) := by
        rw [check]
        simp
      rw [hcheck, checkAll_eq_firstOf ih, List.isEmpty_cons, if_neg (by simp)]

end Filter

def Order.flaws (o : Order) (columns : List String) : List Flaw :=
  errorIf (o.names = []) .emptyOrderKeys ++
    (o.names.filter (· ∉ columns)).map .orderNotInColumns

theorem Order.check_eq_firstOf (o : Order) (columns : List String) :
    o.check columns = firstOf (o.flaws columns) := by
  rw [flaws, firstOf_errorIf_append, firstOf_map_filter, check]
  simp only [List.isEmpty_iff, List.contains_eq_mem, decide_not]
  by_cases h : o.names = []
  · rw [if_pos h, if_pos h]
    rfl
  · rw [if_neg h, if_neg h]
    cases o.names.find? fun key => !decide (key ∈ columns) <;> rfl

/-- The flaws of a rule behind others that use the keys `earlier`. -/
def Rule.flaws (earlier : List String) (r : Rule) : List Flaw :=
  errorIf (r.key ∈ earlier) (.duplicateApplyKey r.key) ++
    (errorIf (r.key = "" ∨ '_' ∈ r.key.toList) (.invalidApplyKey r.key) ++
      errorIf (r.token.isUnknown = true) (.invalidApplyToken r.token.name))

theorem Rule.flaws_congr {earlier earlier' : List String} {r : Rule}
    (h : r.key ∈ earlier ↔ r.key ∈ earlier') : r.flaws earlier = r.flaws earlier' := by
  simp only [flaws, h]

namespace Transform

def ruleFlaws (rules : List Rule) : List Flaw :=
  (rules.mapIdx fun i r => r.flaws ((rules.take i).map Rule.key)).flatten

def flaws (t : Transform) (columns : List String) : List Flaw :=
  errorIf (t.group = []) .emptyGroup ++ (ruleFlaws t.apply ++
    (columns.filter fun c => c ∉ t.group ∧ c ∉ t.keys).map .columnNotGrouped)

theorem checkRules_cons {used : List String} {r : Rule} {rules : List Rule} :
    checkRules used (r :: rules) =
      (firstOf (r.flaws used) >>= fun _ => checkRules (r.key :: used) rules) := by
  have hkey : (!isApplyKey r.key) = true ↔ r.key = "" ∨ '_' ∈ r.key.toList := by
    rw [Bool.not_eq_true', ← Bool.not_eq_true, isApplyKey_iff, not_and_or, not_not, not_not]
  rw [Rule.flaws, firstOf_errorIf_append, firstOf_errorIf_append, firstOf_errorIf, checkRules]
  simp only [List.contains_eq_mem, decide_eq_true_eq, hkey]
  -- Each guard throws or leaves the rest to those behind it.
  split
  · rfl
  split
  · rfl
  split <;> rfl

/-- The check gathers the keys from the last rule to the first. -/
theorem checkRules_eq_firstOf (used : List String) (rules : List Rule) :
    checkRules used rules = firstOf (rules.mapIdx fun i r =>
      r.flaws (((rules.take i).map Rule.key).reverse ++ used)).flatten := by
  induction rules generalizing used with
  | nil => rfl
  | cons r rules ih =>
    rw [checkRules_cons, ih, List.mapIdx_cons, List.flatten_cons, firstOf_append]
    simp

theorem checkRules_nil (rules : List Rule) : checkRules [] rules = firstOf (ruleFlaws rules) := by
  rw [checkRules_eq_firstOf, ruleFlaws]
  congr 3
  funext i r
  exact Rule.flaws_congr (by simp)

theorem check_eq_firstOf (t : Transform) (columns : List String) :
    t.check columns = firstOf (t.flaws columns) := by
  rw [flaws, firstOf_errorIf_append, firstOf_append, firstOf_map_filter, check, checkRules_nil]
  simp only [List.isEmpty_iff, List.contains_eq_mem, Bool.decide_and, decide_not]
  by_cases h : t.group = []
  · rw [if_pos h, if_pos h]
    rfl
  · rw [if_neg h, if_neg h]
    cases columns.find? fun c => !decide (c ∈ t.group) && !decide (c ∈ t.keys) <;> rfl

end Transform

namespace Query

/-- WHERE, then OPTIONS, then TRANSFORMATIONS. -/
def flaws (q : Query) : List Flaw :=
  q.filter.flaws ++ (errorIf (q.columns = []) .emptyColumns ++
    (q.order.elim [] (·.flaws q.columns) ++ q.transform.elim [] (·.flaws q.columns)))

structure IsValid (q : Query) : Prop where
  nodes : ∀ f ∈ q.filter.subtrees, f.IsSound
  columns : q.columns ≠ []
  sortKeys : ∀ o, q.order = some o → o.names ≠ [] ∧ ∀ key ∈ o.names, key ∈ q.columns
  group : ∀ t, q.transform = some t → t.group ≠ []
  keys_nodup : ∀ t, q.transform = some t → t.keys.Nodup
  keys : ∀ t, q.transform = some t → ∀ r ∈ t.apply, r.key ≠ "" ∧ '_' ∉ r.key.toList
  tokens : ∀ t, q.transform = some t → ∀ r ∈ t.apply, r.token.isUnknown = false
  grouped : ∀ t, q.transform = some t → ∀ c ∈ q.columns, c ∈ t.group ∨ c ∈ t.keys

theorem check_eq_firstOf (q : Query) : q.check = firstOf q.flaws := by
  rw [flaws, firstOf_append, firstOf_errorIf_append, firstOf_append, check,
    q.filter.check_eq_firstOf, forM_eq_firstOf (·.check_eq_firstOf q.columns),
    forM_eq_firstOf (·.check_eq_firstOf q.columns)]
  simp only [List.isEmpty_iff]
  rfl

theorem check_eq_ok_iff_isValid (q : Query) : q.check = .ok () ↔ q.IsValid := by
  rw [check_eq_ok, Filter.check_eq_firstOf, firstOf_eq_ok, Filter.flaws_eq_nil]
  simp only [Order.check_eq_ok, Transform.check_eq_ok, Transform.isApplyKey_iff]
  constructor
  · rintro ⟨hnodes, hcolumns, horder, ht⟩
    exact ⟨hnodes, hcolumns, horder, fun t h => (ht t h).1, fun t h => (ht t h).2.1,
      fun t h r hr => ((ht t h).2.2.1 r hr).1, fun t h r hr => ((ht t h).2.2.1 r hr).2,
      fun t h => (ht t h).2.2.2⟩
  · intro h
    exact ⟨h.nodes, h.columns, h.sortKeys, fun t ht => ⟨h.group t ht, h.keys_nodup t ht,
      fun r hr => ⟨h.keys t ht r hr, h.tokens t ht r hr⟩, h.grouped t ht⟩⟩

/-- The error of a check is the first flaw. It accepts a query without flaws, and this is one that
keeps every rule at every node, sort key, rule and column. -/
theorem check_reports_first_flaw (q : Query) :
    (∀ flaw, q.check = .error flaw ↔ q.flaws.head? = some flaw) ∧
    (q.check = .ok () ↔ q.flaws = []) ∧
    (q.check = .ok () ↔ q.IsValid) := by
  refine ⟨?_, ?_, q.check_eq_ok_iff_isValid⟩
  · intro flaw
    rw [check_eq_firstOf, firstOf_eq_error]
  · rw [check_eq_firstOf, firstOf_eq_ok]

end Query

end CampusQuery
