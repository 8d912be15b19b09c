import Mathlib.Data.List.Forall2

namespace CampusQuery.Outcome

variable {ε α β : Type}

theorem bind_eq_ok {x : Except ε α} {f : α → Except ε β} {b : β} :
    x >>= f = .ok b ↔ ∃ a, x = .ok a ∧ f a = .ok b := by
  cases x <;> simp [bind, Except.bind]

theorem ok_bind {a : α} {f : α → Except ε β} : (Except.ok a >>= f) = f a := rfl

theorem ok_mapError {ε' : Type} {a : α} {f : ε → ε'} : (Except.ok a).mapError f = .ok a := rfl

@[simp] theorem pure_eq_ok {a b : α} : (pure a : Except ε α) = .ok b ↔ a = b := by
  simp [pure, Except.pure]

@[simp] theorem throw_ne_ok {e : ε} {a : α} : (throw e : Except ε α) ≠ .ok a := by
  simp [throw, throwThe, MonadExceptOf.throw]

theorem check_bind_eq_ok {x : Except ε Unit} {f : Unit → Except ε β} {b : β} :
    x >>= f = .ok b ↔ x = .ok () ∧ f () = .ok b := by
  rw [bind_eq_ok]
  constructor
  · rintro ⟨⟨⟩, hx, hf⟩
    exact ⟨hx, hf⟩
  · rintro ⟨hx, hf⟩
    exact ⟨(), hx, hf⟩

/-- A condition that must not hold in front of a computation. -/
theorem guard_eq_ok {c : Prop} [Decidable c] {e : ε} {f : Unit → Except ε β} {b : β} :
    (if c then throw e >>= f else f ()) = .ok b ↔ ¬c ∧ f () = .ok b := by
  by_cases hc : c
  · simp [hc, bind_eq_ok]
  · simp [hc]

theorem map_eq_ok {x : Except ε α} {f : α → β} {b : β} :
    x.map f = .ok b ↔ ∃ a, x = .ok a ∧ f a = b := by
  cases x <;> simp [Except.map]

theorem map_eq_error {x : Except ε α} {f : α → β} {e : ε} : x.map f = .error e ↔ x = .error e := by
  cases x <;> simp [Except.map]

theorem exists_map_eq_ok {x : Except ε α} {f : α → β} : (∃ b, x.map f = .ok b) ↔ ∃ a, x = .ok a := by
  cases x <;> simp [Except.map]

theorem mapError_eq_ok {ε' : Type} {x : Except ε α} {f : ε → ε'} {a : α} :
    x.mapError f = .ok a ↔ x = .ok a := by
  cases x <;> simp [Except.mapError]

theorem toOption_eq_some {x : Except ε α} {a : α} : x.toOption = some a ↔ x = .ok a := by
  cases x <;> simp [Except.toOption]

theorem pair_eq_ok {a : α} {x : Except ε β} {p : α × β} :
    (do return (a, ← x)) = Except.ok p ↔ p.1 = a ∧ x = .ok p.2 := by
  obtain ⟨a', b⟩ := p
  simp only [bind_eq_ok, pure_eq_ok, Prod.mk.injEq]
  constructor
  · rintro ⟨_, h, rfl, rfl⟩
    exact ⟨rfl, h⟩
  · rintro ⟨rfl, h⟩
    exact ⟨b, h, rfl, rfl⟩

theorem mapM_eq_ok {f : α → Except ε β} {xs : List α} {ys : List β} :
    xs.mapM f = .ok ys ↔ List.Forall₂ (fun x y => f x = .ok y) xs ys := by
  induction xs generalizing ys with
  | nil => cases ys <;> simp
  | cons x xs ih =>
    rw [List.mapM_cons]
    simp only [bind_eq_ok, pure_eq_ok, ih, List.forall₂_cons_left_iff]
    constructor
    · rintro ⟨y, hy, ys', hys, rfl⟩
      exact ⟨y, ys', hy, hys, rfl⟩
    · rintro ⟨y, ys', hy, hys, rfl⟩
      exact ⟨y, hy, ys', hys, rfl⟩

theorem exists_of_mem_right {R : α → β → Prop} {xs : List α} {ys : List β}
    (h : List.Forall₂ R xs ys) {y : β} (hy : y ∈ ys) : ∃ x ∈ xs, R x y := by
  induction h with
  | nil => cases hy
  | @cons x y' xs ys hxy _ ih =>
    rcases List.mem_cons.mp hy with rfl | hy
    · exact ⟨x, List.mem_cons_self, hxy⟩
    · obtain ⟨x', hx', hR⟩ := ih hy
      exact ⟨x', List.mem_cons_of_mem _ hx', hR⟩

/-- Two passes, one behind the other. -/
theorem forall₂_comp {γ : Type} {R : α → β → Prop} {S : β → γ → Prop} {xs : List α} {ys : List β}
    {zs : List γ} (hR : List.Forall₂ R xs ys) (hS : List.Forall₂ S ys zs) :
    List.Forall₂ (fun x z => ∃ y, R x y ∧ S y z) xs zs := by
  induction hR generalizing zs with
  | nil =>
    cases hS
    exact .nil
  | cons hxy _ ih =>
    cases hS with
    | cons hyz hS => exact .cons ⟨_, hxy, hyz⟩ (ih hS)

theorem exists_forall₂_of_comp {γ : Type} {R : α → β → Prop} {S : β → γ → Prop} {xs : List α}
    {zs : List γ} (h : List.Forall₂ (fun x z => ∃ y, R x y ∧ S y z) xs zs) :
    ∃ ys, List.Forall₂ R xs ys ∧ List.Forall₂ S ys zs := by
  induction h with
  | nil => exact ⟨[], .nil, .nil⟩
  | cons hxz _ ih =>
    obtain ⟨y, hxy, hyz⟩ := hxz
    obtain ⟨ys, hR, hS⟩ := ih
    exact ⟨y :: ys, .cons hxy hR, .cons hyz hS⟩

theorem mapM_eq_some {f : α → Option β} {xs : List α} {ys : List β} :
    xs.mapM f = some ys ↔ List.Forall₂ (fun x y => f x = some y) xs ys := by
  induction xs generalizing ys with
  | nil => cases ys <;> simp
  | cons x xs ih =>
    rw [List.mapM_cons]
    simp only [Option.bind_eq_bind, Option.bind_eq_some_iff, Option.pure_def, Option.some.injEq, ih,
      List.forall₂_cons_left_iff]
    constructor
    · rintro ⟨y, hy, ys', hys, rfl⟩
      exact ⟨y, ys', hy, hys, rfl⟩
    · rintro ⟨y, ys', hy, hys, rfl⟩
      exact ⟨y, hy, ys', hys, rfl⟩

/-- Functions that give one list of results agree on each element. -/
theorem mapM_eq_some_congr {f g : α → Option β} {xs : List α} {ys : List β}
    (h : xs.mapM f = some ys) : xs.mapM g = some ys ↔ ∀ x ∈ xs, g x = f x := by
  rw [mapM_eq_some] at *
  induction h with
  | nil => simp
  | cons hx _ ih => rw [List.forall₂_cons, ih, List.forall_mem_cons, hx]

theorem option_mapM_eq_ok {f : α → Except ε β} {x : Option α} {y : Option β} :
    x.mapM f = .ok y ↔ Option.Rel (fun a b => f a = .ok b) x y := by
  constructor
  · intro h
    cases x with
    | none =>
      cases h
      exact .none
    | some a =>
      rw [Option.mapM_some] at h
      obtain ⟨b, hb, rfl⟩ := map_eq_ok.mp h
      exact .some hb
  · rintro (h | _)
    · rw [Option.mapM_some]
      exact map_eq_ok.mpr ⟨_, h, rfl⟩
    · rfl

theorem exists_of_rel_some {R : α → β → Prop} {x : Option α} {b : β}
    (h : Option.Rel R x (some b)) : ∃ a, x = some a ∧ R a b := by
  cases h with
  | some h => exact ⟨_, rfl, h⟩

theorem exists_forall₂ {R : α → β → Prop} {xs : List α} (h : ∀ x ∈ xs, ∃ y, R x y) :
    ∃ ys, List.Forall₂ R xs ys := by
  induction xs with
  | nil => exact ⟨[], .nil⟩
  | cons x xs ih =>
    obtain ⟨y, hy⟩ := h x List.mem_cons_self
    obtain ⟨ys, hys⟩ := ih fun z hz => h z (List.mem_cons_of_mem _ hz)
    exact ⟨y :: ys, .cons hy hys⟩

theorem exists_mapM_eq_ok {f : α → Except ε β} {xs : List α}
    (h : ∀ x ∈ xs, ∃ y, f x = .ok y) : ∃ ys, xs.mapM f = .ok ys := by
  simp only [mapM_eq_ok]
  exact exists_forall₂ h

theorem forM_eq_ok {f : α → Except ε Unit} {xs : List α} :
    xs.forM f = .ok () ↔ ∀ x ∈ xs, f x = .ok () := by
  induction xs with
  | nil => simp
  | cons x xs ih =>
    rw [List.forM_eq_forM] at ih ⊢
    rw [List.forM_cons, check_bind_eq_ok, List.forall_mem_cons, ih]

/-- Of steps that do not all give results one is the first to fail. -/
theorem exists_first_error {f : α → Except ε β} {xs : List α}
    (h : ∃ x ∈ xs, ∃ e, f x = .error e) :
    ∃ before x behind e, xs = before ++ x :: behind ∧ (∀ y ∈ before, ∃ b, f y = .ok b) ∧
      f x = .error e := by
  induction xs with
  | nil =>
    obtain ⟨x, hx, -⟩ := h
    cases hx
  | cons y xs ih =>
    cases hy : f y with
    | error e => exact ⟨[], y, xs, e, rfl, by simp, hy⟩
    | ok b =>
      have hrest : ∃ x ∈ xs, ∃ e, f x = .error e := by
        obtain ⟨x, hx, e, he⟩ := h
        rcases List.mem_cons.mp hx with rfl | hx
        · rw [hy] at he
          cases he
        · exact ⟨x, hx, e, he⟩
      obtain ⟨before, x, behind, e, rfl, hbefore, he⟩ := ih hrest
      exact ⟨y :: before, x, behind, e, rfl, List.forall_mem_cons.mpr ⟨⟨b, hy⟩, hbefore⟩, he⟩

/-- Behind the first step that fails nothing counts. -/
theorem mapM_of_first_error {f : α → Except ε β} {before : List α} {x : α} {e : ε}
    (hbefore : ∀ y ∈ before, ∃ b, f y = .ok b) (hx : f x = .error e) (behind : List α) :
    (before ++ x :: behind).mapM f = .error e := by
  induction before with
  | nil =>
    rw [List.nil_append, List.mapM_cons, hx]
    rfl
  | cons y before ih =>
    rw [List.forall_mem_cons] at hbefore
    obtain ⟨⟨b, hb⟩, hbefore⟩ := hbefore
    rw [List.cons_append, List.mapM_cons, hb, ok_bind, ih hbefore]
    rfl

theorem forM_of_first_error {f : α → Except ε Unit} {before : List α} {x : α} {e : ε}
    (hbefore : ∀ y ∈ before, f y = .ok ()) (hx : f x = .error e) (behind : List α) :
    (before ++ x :: behind).forM f = .error e := by
  induction before with
  | nil =>
    rw [List.nil_append, List.forM_eq_forM, List.forM_cons, hx]
    rfl
  | cons y before ih =>
    rw [List.forall_mem_cons] at hbefore
    rw [List.forM_eq_forM] at ih ⊢
    rw [List.cons_append, List.forM_cons, hbefore.1, ok_bind, ih hbefore.2]

/-- Fails, if at all, with an error of which `P` holds. -/
def FailsOnly (P : ε → Prop) (x : Except ε α) : Prop := ∀ e, x = .error e → P e

namespace FailsOnly

variable {P Q : ε → Prop} {x : Except ε α}

theorem ok (a : α) : FailsOnly P (.ok a) := by
  intro e h
  cases h

theorem error {e : ε} (h : P e) : FailsOnly P (.error e : Except ε α) := by
  intro e' h'
  cases h'
  exact h

theorem of_exists (h : ∃ a, x = .ok a) : FailsOnly P x := by
  obtain ⟨a, rfl⟩ := h
  exact ok a

theorem imp (h : FailsOnly P x) (hPQ : ∀ e, P e → Q e) : FailsOnly Q x :=
  fun e he => hPQ e (h e he)

/-- What comes behind a step need only be looked at where the step succeeds. -/
theorem bind {f : α → Except ε β} (hx : FailsOnly P x) (hf : ∀ a, x = .ok a → FailsOnly P (f a)) :
    FailsOnly P (x >>= f) := by
  cases x with
  | error e => exact error (hx e rfl)
  | ok a => exact hf a rfl

theorem map {f : α → β} (hx : FailsOnly P x) : FailsOnly P (x.map f) := by
  cases x with
  | error e => exact error (hx e rfl)
  | ok a => exact ok (f a)

theorem mapError {ε' : Type} {P : ε' → Prop} {f : ε → ε'} (h : FailsOnly (fun e => P (f e)) x) :
    FailsOnly P (x.mapError f) := by
  cases x with
  | error e => exact error (h e rfl)
  | ok a => exact ok a

theorem guard {c : Prop} [Decidable c] {e : ε} {f : Unit → Except ε β} (hc : c → P e)
    (hf : ¬c → FailsOnly P (f ())) : FailsOnly P (if c then throw e >>= f else f ()) := by
  by_cases h : c
  · rw [if_pos h]
    exact error (hc h)
  · rw [if_neg h]
    exact hf h

theorem mapM {f : α → Except ε β} {xs : List α} (h : ∀ x ∈ xs, FailsOnly P (f x)) :
    FailsOnly P (xs.mapM f) := by
  induction xs with
  | nil => exact ok []
  | cons x xs ih =>
    rw [List.forall_mem_cons] at h
    rw [List.mapM_cons]
    exact h.1.bind fun y _ => (ih h.2).bind fun ys _ => ok (y :: ys)

theorem forM {f : α → Except ε Unit} {xs : List α} (h : ∀ x ∈ xs, FailsOnly P (f x)) :
    FailsOnly P (xs.forM f) := by
  induction xs with
  | nil => exact ok ()
  | cons x xs ih =>
    rw [List.forall_mem_cons] at h
    rw [List.forM_eq_forM] at ih ⊢
    rw [List.forM_cons]
    exact h.1.bind fun _ _ => ih h.2

end FailsOnly

end CampusQuery.Outcome
