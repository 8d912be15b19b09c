import CampusQuery.Proofs.Query.Evaluation
import Mathlib

namespace CampusQuery

open Outcome Relation

def Connective.dual : Connective → Connective
  | and => or
  | or => and

theorem Connective.decisive_dual (op : Connective) : op.dual.decisive = !op.decisive := by
  cases op <;> rfl

namespace Filter

variable {r : Record} {op : Connective} {f g : Filter} {fs gs : List Filter}

theorem evalOperands_append (fs gs : List Filter) :
    evalOperands r op (fs ++ gs) = (evalOperands r op fs >>= fun b =>
      if b = op.decisive then .ok b else evalOperands r op gs) := by
  induction fs with
  | nil =>
    rw [List.nil_append, evalOperands, ok_bind, if_neg (by simp)]
  | cons f fs ih =>
    cases hf : f.eval r with
    | error e =>
      rw [List.cons_append, evalOperands_cons_of_error hf, evalOperands_cons_of_error hf]
      rfl
    | ok b =>
      rw [List.cons_append, evalOperands_cons_of_ok hf, evalOperands_cons_of_ok hf]
      by_cases hb : b = op.decisive
      · rw [if_pos hb, if_pos hb, ok_bind, if_pos rfl]
      · rw [if_neg hb, if_neg hb, ih]

theorem evalOperands_map_not (op : Connective) (fs : List Filter) :
    evalOperands r op.dual (fs.map not) = (evalOperands r op fs).map (!·) := by
  induction fs with
  | nil =>
    rw [List.map_nil, evalOperands, evalOperands, op.decisive_dual]
    rfl
  | cons f fs ih =>
    rw [List.map_cons]
    cases hf : f.eval r with
    | error e =>
      rw [evalOperands_cons_of_error hf, evalOperands_cons_of_error (by rw [eval_not, hf]; rfl)]
      rfl
    | ok b =>
      rw [evalOperands_cons_of_ok hf, evalOperands_cons_of_ok (by rw [eval_not, hf]; rfl), ih,
        op.decisive_dual]
      by_cases hb : b = op.decisive
      · rw [if_pos (congrArg (!·) hb), if_pos hb]
        rfl
      · rw [if_neg (mt Bool.not_inj hb), if_neg hb]

/-- One step, anywhere in a condition: a double negation goes, a negation moves to the operands, or
a connective directly in the same one gives its operands in its place. -/
inductive Rewrite : Filter → Filter → Prop
  | notNot {f : Filter} : Rewrite (.not (.not f)) f
  | notConnect {op : Connective} {fs : List Filter} :
      Rewrite (.not (.connect op fs)) (.connect op.dual (fs.map .not))
  | splice {op : Connective} {before inner behind : List Filter} :
      Rewrite (.connect op (before ++ .connect op inner :: behind))
        (.connect op (before ++ (inner ++ behind)))
  | operand {op : Connective} {before behind : List Filter} {f g : Filter} (h : Rewrite f g) :
      Rewrite (.connect op (before ++ f :: behind)) (.connect op (before ++ g :: behind))
  | not {f g : Filter} (h : Rewrite f g) : Rewrite (.not f) (.not g)

abbrev Rewrites : Filter → Filter → Prop := ReflTransGen Rewrite

theorem Rewrite.eval_eq (h : Rewrite f g) (r : Record) : g.eval r = f.eval r := by
  induction h with
  | @notNot f =>
    rw [eval_not, eval_not]
    cases f.eval r <;> simp [Except.map]
  | @notConnect op fs => rw [eval, eval_not, evalOperands_map_not, eval]
  | @splice op before inner behind =>
    -- The inner operands decide for the inner connective, and with it for the outer one.
    have hinner : evalOperands r op (.connect op inner :: behind) =
        evalOperands r op (inner ++ behind) := by
      rw [evalOperands_append]
      cases hi : evalOperands r op inner with
      | error e =>
        rw [evalOperands_cons_of_error (by rw [eval, hi])]
        rfl
      | ok b =>
        rw [evalOperands_cons_of_ok (by rw [eval, hi]), ok_bind]
        split
        · rename_i hb
          rw [hb]
        · rfl
    rw [eval, eval, evalOperands_append before, evalOperands_append before, hinner]
  | @operand op before behind f g _ ih =>
    rw [eval, eval, evalOperands_append, evalOperands_append, evalOperands, evalOperands, ih]
  | not _ ih => rw [eval_not, eval_not, ih]

theorem Rewrites.eval_eq (h : Rewrites f g) (r : Record) : g.eval r = f.eval r := by
  induction h with
  | refl => rfl
  | tail _ hstep ih => rw [hstep.eval_eq, ih]

theorem Rewrites.connect (h : List.Forall₂ Rewrites fs gs) (op : Connective)
    (before : List Filter) :
    Rewrites (.connect op (before ++ fs)) (.connect op (before ++ gs)) := by
  induction h generalizing before with
  | nil => exact .refl
  | @cons f g fs gs hf _ ih =>
    have hhead : Rewrites (.connect op (before ++ f :: fs)) (.connect op (before ++ g :: fs)) :=
      hf.lift (fun x => Filter.connect op (before ++ x :: fs)) fun _ _ => .operand
    have htail := ih (before ++ [g])
    rw [List.append_assoc, List.append_assoc] at htail
    exact hhead.trans htail

theorem Rewrites.connect_map {φ : Filter → Filter} (h : ∀ f ∈ fs, Rewrites f (φ f))
    (op : Connective) : Rewrites (.connect op fs) (.connect op (fs.map φ)) := by
  have hall : List.Forall₂ Rewrites fs (fs.map φ) := by
    rw [List.forall₂_map_right_iff, List.forall₂_same]
    exact h
  exact Rewrites.connect hall op []

mutual

/-- The condition, or its negation, with the negations moved to the comparisons. -/
def nnf (negated : Bool) : Filter → Filter
  | all => if negated then .not .all else .all
  | connect op operands => .connect (if negated then op.dual else op) (nnfAll negated operands)
  | compare op field literal =>
    if negated then .not (.compare op field literal) else .compare op field literal
  | like field pattern => if negated then .not (.like field pattern) else .like field pattern
  | not operand => nnf (!negated) operand

def nnfAll (negated : Bool) : List Filter → List Filter
  | [] => []
  | f :: fs => nnf negated f :: nnfAll negated fs

end

def parts (op : Connective) : Filter → List Filter
  | connect op' operands => if op' = op then operands else [.connect op' operands]
  | f => [f]

mutual

def flatten : Filter → Filter
  | all => .all
  | connect op operands => .connect op (flattenAll op operands)
  | compare op field literal => .compare op field literal
  | like field pattern => .like field pattern
  | not operand => .not (flatten operand)

def flattenAll (op : Connective) : List Filter → List Filter
  | [] => []
  | f :: fs => (flatten f).parts op ++ flattenAll op fs

end

def normalForm (f : Filter) : Filter := (f.nnf false).flatten

def IsLeaf : Filter → Prop
  | connect .. | not _ => False
  | _ => True

inductive IsNnf : Filter → Prop
  | leaf {f : Filter} (h : f.IsLeaf) : IsNnf f
  | notLeaf {f : Filter} (h : f.IsLeaf) : IsNnf (.not f)
  | connect {op : Connective} {fs : List Filter} (h : ∀ f ∈ fs, IsNnf f) : IsNnf (.connect op fs)

/-- Negations stand on leaves only, and no connective directly in the same one. -/
inductive IsNormal : Filter → Prop
  | leaf {f : Filter} (h : f.IsLeaf) : IsNormal f
  | notLeaf {f : Filter} (h : f.IsLeaf) : IsNormal (.not f)
  | connect {op : Connective} {fs : List Filter} (h : ∀ f ∈ fs, IsNormal f)
      (hop : ∀ f ∈ fs, ∀ inner, f ≠ .connect op inner) : IsNormal (.connect op fs)

theorem nnfAll_eq_map (negated : Bool) (fs : List Filter) :
    nnfAll negated fs = fs.map (nnf negated) := by
  induction fs with
  | nil => rw [nnfAll, List.map_nil]
  | cons f fs ih => rw [nnfAll, List.map_cons, ih]

theorem flattenAll_eq_flatMap (op : Connective) (fs : List Filter) :
    flattenAll op fs = (fs.map flatten).flatMap (parts op) := by
  induction fs with
  | nil => rw [flattenAll, List.map_nil, List.flatMap_nil]
  | cons f fs ih => rw [flattenAll, List.map_cons, List.flatMap_cons, ih]

theorem rewrites_nnf (f : Filter) : Rewrites f (f.nnf false) ∧ Rewrites (.not f) (f.nnf true) := by
  induction f using Filter.induction with
  | all => exact ⟨.refl, .refl⟩
  | compare => exact ⟨.refl, .refl⟩
  | like => exact ⟨.refl, .refl⟩
  | not f ih =>
    rw [nnf, nnf]
    exact ⟨ih.2, .trans (.single .notNot) ih.1⟩
  | connect op fs ih =>
    rw [nnf, nnf, nnfAll_eq_map, nnfAll_eq_map]
    have hnot : Rewrites (.connect op.dual (fs.map .not))
        (.connect op.dual (fs.map (nnf true))) := by
      have hall : List.Forall₂ Rewrites (fs.map .not) (fs.map (nnf true)) := by
        rw [List.forall₂_map_left_iff, List.forall₂_map_right_iff, List.forall₂_same]
        exact fun f hf => (ih f hf).2
      exact Rewrites.connect hall _ []
    exact ⟨Rewrites.connect_map (fun f hf => (ih f hf).1) op, .trans (.single .notConnect) hnot⟩

theorem rewrites_flatMap_parts (op : Connective) (before fs : List Filter) :
    Rewrites (.connect op (before ++ fs)) (.connect op (before ++ fs.flatMap (parts op))) := by
  induction fs generalizing before with
  | nil => exact .refl
  | cons f fs ih =>
    have hparts : Rewrites (.connect op (before ++ f :: fs))
        (.connect op (before ++ (f.parts op ++ fs))) := by
      unfold parts
      split
      · split
        · rename_i hop
          rw [hop]
          exact .single .splice
        · exact .refl
      · exact .refl
    have hrest := ih (before ++ f.parts op)
    rw [List.append_assoc, List.append_assoc] at hrest
    rw [List.flatMap_cons]
    exact hparts.trans hrest

theorem rewrites_flatten (f : Filter) : Rewrites f f.flatten := by
  induction f using Filter.induction with
  | all => exact .refl
  | compare => exact .refl
  | like => exact .refl
  | not f ih =>
    rw [flatten]
    exact ih.lift Filter.not fun _ _ => .not
  | connect op fs ih =>
    rw [flatten, flattenAll_eq_flatMap]
    exact (Rewrites.connect_map ih op).trans (rewrites_flatMap_parts op [] _)

theorem isNnf_nnf (f : Filter) : ∀ negated, (f.nnf negated).IsNnf := by
  induction f using Filter.induction with
  | all =>
    rintro (_ | _)
    · exact .leaf trivial
    · exact .notLeaf trivial
  | compare =>
    rintro (_ | _)
    · exact .leaf trivial
    · exact .notLeaf trivial
  | like =>
    rintro (_ | _)
    · exact .leaf trivial
    · exact .notLeaf trivial
  | not f ih =>
    intro negated
    rw [nnf]
    exact ih _
  | connect op fs ih =>
    intro negated
    rw [nnf, nnfAll_eq_map]
    refine .connect ?_
    intro g hg
    obtain ⟨f, hf, rfl⟩ := List.mem_map.mp hg
    exact ih f hf negated

theorem parts_eq_singleton (h : ∀ inner, f ≠ .connect op inner) : f.parts op = [f] := by
  unfold parts
  split
  · rename_i op' inner
    apply if_neg
    rintro rfl
    exact h inner rfl
  · rfl

theorem IsNormal.of_mem_parts (h : f.IsNormal) (hg : g ∈ f.parts op) :
    g.IsNormal ∧ ∀ inner, g ≠ .connect op inner := by
  by_cases hf : ∃ inner, f = .connect op inner
  · obtain ⟨inner, rfl⟩ := hf
    rw [parts, if_pos rfl] at hg
    cases h with
    | leaf hleaf => exact hleaf.elim
    | connect h hop => exact ⟨h g hg, hop g hg⟩
  · rw [parts_eq_singleton (not_exists.mp hf), List.mem_singleton] at hg
    rw [hg]
    exact ⟨h, not_exists.mp hf⟩

theorem flatten_of_isLeaf (h : f.IsLeaf) : f.flatten = f := by
  cases f with
  | all => rfl
  | compare => rfl
  | like => rfl
  | connect => exact h.elim
  | not => exact h.elim

theorem IsNnf.isNormal_flatten (h : f.IsNnf) : f.flatten.IsNormal := by
  induction h with
  | leaf h =>
    rw [flatten_of_isLeaf h]
    exact .leaf h
  | notLeaf h =>
    rw [flatten, flatten_of_isLeaf h]
    exact .notLeaf h
  | @connect op fs _ ih =>
    rw [flatten, flattenAll_eq_flatMap]
    have hparts : ∀ g ∈ (fs.map flatten).flatMap (parts op),
        g.IsNormal ∧ ∀ inner, g ≠ .connect op inner := by
      intro g hg
      obtain ⟨_, hmem, hg⟩ := List.mem_flatMap.mp hg
      obtain ⟨f, hf, rfl⟩ := List.mem_map.mp hmem
      exact (ih f hf).of_mem_parts hg
    exact .connect (fun g hg => (hparts g hg).1) fun g hg => (hparts g hg).2

theorem rewrites_normalForm (f : Filter) : Rewrites f f.normalForm :=
  (rewrites_nnf f).1.trans (rewrites_flatten _)

theorem isNormal_normalForm (f : Filter) : f.normalForm.IsNormal :=
  (isNnf_nnf f false).isNormal_flatten

/-- What a condition says of a record, with no regard to what is looked at first. -/
def Meets (r : Record) : Filter → Prop
  | all => True
  | connect .and operands => ∀ f ∈ operands, Meets r f
  | connect .or operands => ∃ f, ∃ _ : f ∈ operands, Meets r f
  | compare op field literal => ∃ x,
      r (FieldName.attributeName field) = some (.number x) ∧ op.holds x literal = true
  | like field pattern => ∃ s,
      r (FieldName.attributeName field) = some (.text s) ∧ pattern.accepts s = true
  | not operand => ¬Meets r operand

mutual

def subtrees : Filter → List Filter
  | all => [.all]
  | connect op operands => .connect op operands :: subtreesOf operands
  | compare op field literal => [.compare op field literal]
  | like field pattern => [.like field pattern]
  | not operand => .not operand :: subtrees operand

def subtreesOf : List Filter → List Filter
  | [] => []
  | f :: fs => subtrees f ++ subtreesOf fs

end

/-- Evaluation succeeds on every subtree. -/
def Settled (r : Record) (f : Filter) : Prop := ∀ g ∈ f.subtrees, ∃ b, g.eval r = .ok b

theorem mem_subtrees_self (f : Filter) : f ∈ f.subtrees := by
  cases f <;> simp [subtrees]

theorem mem_subtreesOf : g ∈ subtreesOf fs ↔ ∃ f ∈ fs, g ∈ f.subtrees := by
  induction fs with
  | nil => simp [subtreesOf]
  | cons f fs ih =>
    rw [subtreesOf, List.mem_append, ih]
    simp only [List.mem_cons, exists_eq_or_imp]

theorem Settled.exists_eval (h : f.Settled r) : ∃ b, f.eval r = .ok b := h f (mem_subtrees_self f)

theorem settled_not : (not f).Settled r ↔ f.Settled r := by
  rw [Settled, subtrees, List.forall_mem_cons]
  constructor
  · exact And.right
  · intro h
    obtain ⟨b, hb⟩ := h.exists_eval
    exact ⟨⟨!b, by rw [eval_not, hb]; rfl⟩, h⟩

theorem settled_connect : (connect op fs).Settled r ↔ ∀ f ∈ fs, f.Settled r := by
  rw [Settled, subtrees, List.forall_mem_cons]
  constructor
  · rintro ⟨-, h⟩ f hf g hg
    exact h g (mem_subtreesOf.mpr ⟨f, hf, hg⟩)
  · intro h
    obtain ⟨b, hb, -⟩ := exists_evalOperands (fun f hf => (h f hf).exists_eval) op
    refine ⟨⟨b, by rw [eval, hb]⟩, ?_⟩
    intro g hg
    obtain ⟨f, hf, hg⟩ := mem_subtreesOf.mp hg
    exact h f hf g hg

theorem eval_iff_of_ok {b : Bool} (h : f.eval r = .ok b) (hb : b = true ↔ f.Meets r) :
    (f.eval r = .ok true ↔ f.Meets r) ∧ (f.eval r = .ok false ↔ ¬f.Meets r) := by
  rw [h, ← hb]
  simp

/-- Where nothing fails, evaluation finds out what the condition says. -/
theorem Settled.eval_iff (h : f.Settled r) :
    (f.eval r = .ok true ↔ f.Meets r) ∧ (f.eval r = .ok false ↔ ¬f.Meets r) := by
  induction f using Filter.induction with
  | all => exact eval_iff_of_ok (by rw [eval]) (by simp [Meets])
  | compare op field literal =>
    obtain ⟨b, hb⟩ := h.exists_eval
    refine eval_iff_of_ok hb ?_
    rw [eval, bind_eq_ok] at hb
    obtain ⟨x, hx, hb⟩ := hb
    rw [Record.number_eq_ok] at hx
    rw [Meets, ← pure_eq_ok.mp hb, hx]
    simp
  | like field pattern =>
    obtain ⟨b, hb⟩ := h.exists_eval
    refine eval_iff_of_ok hb ?_
    rw [eval, bind_eq_ok] at hb
    obtain ⟨s, hs, hb⟩ := hb
    rw [Record.text_eq_ok] at hs
    rw [Meets, ← pure_eq_ok.mp hb, hs]
    simp
  | not f ih =>
    obtain ⟨b, hb⟩ := (settled_not.mp h).exists_eval
    refine eval_iff_of_ok (b := !b) (by rw [eval_not, hb]; rfl) ?_
    rw [Meets, ← (ih (settled_not.mp h)).2, hb]
    simp
  | connect op fs ih =>
    have hfs := settled_connect.mp h
    obtain ⟨b, hb, hdecisive⟩ := exists_evalOperands (fun f hf => (hfs f hf).exists_eval) op
    refine eval_iff_of_ok (by rw [eval, hb]) ?_
    cases op with
    | or =>
      rw [Meets]
      simp only [exists_prop]
      exact hdecisive.trans (exists_congr fun f => and_congr_right fun hf => (ih f hf (hfs f hf)).1)
    | and =>
      -- The conjunction is false if one operand is.
      rw [Meets, ← Bool.not_eq_false]
      refine (not_congr hdecisive).trans ?_
      push Not
      exact forall₂_congr fun f hf => (not_congr (ih f hf (hfs f hf)).2).trans not_not

/-- One step, anywhere in a condition: the operands of a connective change places, or one of them is
written once more. -/
inductive Rearrangement : Filter → Filter → Prop
  | permute {op : Connective} {fs gs : List Filter} (h : fs.Perm gs) :
      Rearrangement (.connect op fs) (.connect op gs)
  | duplicate {op : Connective} {f : Filter} {fs : List Filter} (h : f ∈ fs) :
      Rearrangement (.connect op fs) (.connect op (f :: fs))
  | operand {op : Connective} {before behind : List Filter} {f g : Filter}
      (h : Rearrangement f g) :
      Rearrangement (.connect op (before ++ f :: behind)) (.connect op (before ++ g :: behind))
  | not {f g : Filter} (h : Rearrangement f g) : Rearrangement (.not f) (.not g)

/-- What holds of a connective by which operands it has. -/
theorem meets_connect_congr (h : (∀ f ∈ fs, f.Meets r) ↔ ∀ g ∈ gs, g.Meets r)
    (h' : (∃ f ∈ fs, f.Meets r) ↔ ∃ g ∈ gs, g.Meets r) :
    (connect op fs).Meets r ↔ (connect op gs).Meets r := by
  cases op with
  | and => rw [Meets, Meets, h]
  | or =>
    rw [Meets, Meets]
    simp only [exists_prop]
    exact h'

theorem Rearrangement.settled_iff (h : Rearrangement f g) : f.Settled r ↔ g.Settled r := by
  induction h with
  | permute h => simp only [settled_connect, h.mem_iff]
  | @duplicate op f fs h =>
    simp only [settled_connect, List.forall_mem_cons]
    exact ⟨fun hfs => ⟨hfs f h, hfs⟩, And.right⟩
  | operand _ ih => simp only [settled_connect, List.forall_mem_append, List.forall_mem_cons, ih]
  | not _ ih => rw [settled_not, settled_not, ih]

theorem Rearrangement.meets_iff (h : Rearrangement f g) : f.Meets r ↔ g.Meets r := by
  induction h with
  | permute h => exact meets_connect_congr (by simp only [h.mem_iff]) (by simp only [h.mem_iff])
  | @duplicate op f fs h =>
    apply meets_connect_congr
    · rw [List.forall_mem_cons]
      exact ⟨fun hfs => ⟨hfs f h, hfs⟩, And.right⟩
    · simp only [List.mem_cons, exists_eq_or_imp]
      exact ⟨.inr, fun hf => hf.elim (fun hf => ⟨f, h, hf⟩) id⟩
  | operand _ ih =>
    apply meets_connect_congr
    · simp only [List.forall_mem_append, List.forall_mem_cons, ih]
    · simp [or_and_right, exists_or, ih]
  | not _ ih => rw [Meets, Meets, ih]

theorem settled_and_meets_iff (h : EqvGen Rearrangement f g) :
    (f.Settled r ↔ g.Settled r) ∧ (f.Meets r ↔ g.Meets r) := by
  induction h with
  | rel _ _ h => exact ⟨h.settled_iff, h.meets_iff⟩
  | refl _ => exact ⟨.rfl, .rfl⟩
  | symm _ _ _ ih => exact ⟨ih.1.symm, ih.2.symm⟩
  | trans _ _ _ _ _ ih ih' => exact ⟨ih.1.trans ih'.1, ih.2.trans ih'.2⟩

theorem Settled.eval_eq (h : f.Settled r) (hg : EqvGen Rearrangement f g) :
    g.eval r = f.eval r := by
  obtain ⟨hsettled, hmeets⟩ := settled_and_meets_iff hg
  have hf := h.eval_iff
  have hg := (hsettled.mp h).eval_iff
  rw [← hmeets] at hg
  by_cases hm : f.Meets r
  · rw [hf.1.mpr hm, hg.1.mpr hm]
  · rw [hf.2.mpr hm, hg.2.mpr hm]

/-- Rewriting leaves the outcome as it is, be it an error, and leads to a normal form. Where no
subtree fails, the outcome is the classical meaning, which no rearrangement changes. -/
theorem eval_algebra (r : Record) (f : Filter) :
    (∀ g, Rewrites f g → g.eval r = f.eval r) ∧
    (Rewrites f f.normalForm ∧ f.normalForm.IsNormal) ∧
    (f.Settled r →
      ((f.eval r = .ok true ↔ f.Meets r) ∧ (f.eval r = .ok false ↔ ¬f.Meets r)) ∧
      ∀ g, EqvGen Rearrangement f g → g.eval r = f.eval r) := by
  refine ⟨fun g hg => hg.eval_eq r, ⟨rewrites_normalForm f, isNormal_normalForm f⟩, ?_⟩
  intro h
  exact ⟨h.eval_iff, fun g hg => h.eval_eq hg⟩

def graded : Record := fun name =>
  match name with
  | "avg" => some (.number (.ofNat 97))
  | "dept" => some (.text "phys")
  | _ => none

def outstanding : Filter :=
  .not (.connect .or [.like "c_dept" ⟨"phil*"⟩,
    .connect .or [.compare .less "c_avg" (.ofNat 90), .like "c_dept" ⟨"phil*"⟩]])

theorem eval_algebra_outstanding :
    outstanding.Settled graded ∧
    outstanding.normalForm.eval graded = outstanding.eval graded ∧
    (outstanding.eval graded = .ok true ↔ outstanding.Meets graded) ∧
    (Filter.not (.connect .or [.connect .or [.compare .less "c_avg" (.ofNat 90),
      .like "c_dept" ⟨"phil*"⟩], .like "c_dept" ⟨"phil*"⟩])).eval graded =
        outstanding.eval graded := by
  obtain ⟨hrewrites, ⟨hnormal, -⟩, hsettled⟩ := eval_algebra graded outstanding
  have h : outstanding.Settled graded := by
    simp only [Settled, outstanding, subtrees, subtreesOf, List.cons_append, List.nil_append,
      List.forall_mem_cons]
    exact ⟨⟨true, by cbv⟩, ⟨false, by cbv⟩, ⟨false, by cbv⟩, ⟨false, by cbv⟩, ⟨false, by cbv⟩,
      ⟨false, by cbv⟩, List.forall_mem_nil _⟩
  obtain ⟨⟨htrue, -⟩, hsame⟩ := hsettled h
  exact ⟨h, hrewrites _ hnormal, htrue, hsame _ (.rel _ _ (.not (.permute (.swap ..))))⟩

end Filter

end CampusQuery
