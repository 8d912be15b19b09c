import CampusQuery.Number.Binary64
import Mathlib.Data.List.Basic

namespace CampusQuery.Binary64

theorem relates_iff {r : Int → Int → Bool} {x y : Binary64} :
    relates r x y = true ↔ ∃ i j, x.level? = some i ∧ y.level? = some j ∧ r i j = true := by
  unfold relates
  cases x.level? <;> cases y.level? <;> simp

theorem relates_swap (r : Int → Int → Bool) (x y : Binary64) :
    relates r x y = relates (fun i j => r j i) y x := by
  unfold relates
  cases x.level? <;> cases y.level? <;> rfl

theorem lt_iff {x y : Binary64} :
    x.lt y = true ↔ ∃ i j, x.level? = some i ∧ y.level? = some j ∧ i < j := by
  simp only [lt, relates_iff, decide_eq_true_eq]

theorem same_iff {x y : Binary64} :
    x.same y = true ↔ ∃ i, x.level? = some i ∧ y.level? = some i := by
  simp only [same, relates_iff, beq_iff_eq]
  constructor
  · rintro ⟨i, _, hi, hj, rfl⟩
    exact ⟨i, hi, hj⟩
  · rintro ⟨i, hi, hj⟩
    exact ⟨i, i, hi, hj, rfl⟩

theorem level?_eq_none {x : Binary64} : x.level? = none ↔ x.isNaN = true := by
  cases x <;> simp [level?, isNaN]

theorem exists_level {x : Binary64} (h : x.isNaN = false) : ∃ i, x.level? = some i := by
  rw [← Option.ne_none_iff_exists']
  intro hn
  rw [level?_eq_none, h] at hn
  cases hn

theorem isNaN_of_isFinite {x : Binary64} (h : x.isFinite = true) : x.isNaN = false := by
  cases x with
  | finite s m => rfl
  | infinite s => cases h
  | quietNaN s p => cases h

theorem same_iff_level?_eq {x y : Binary64} (h : x.isNaN = false) :
    x.same y = true ↔ x.level? = y.level? := by
  obtain ⟨i, hi⟩ := exists_level h
  rw [same_iff, hi]
  constructor
  · rintro ⟨_, hx, hy⟩
    rw [hx, hy]
  · intro hy
    exact ⟨i, rfl, hy.symm⟩

theorem eq_of_bits {x y : Binary64} (hsign : x.isNegative = y.isNegative)
    (hbits : x.magnitudeBits = y.magnitudeBits) : x = y := by
  -- The bits of finite numbers, infinities and NaNs lie in ranges of their own.
  cases x with
  | finite s m =>
    have hm := m.isLt
    cases y with
    | finite t n =>
      have hmn : m = n := Fin.ext hbits
      rw [hmn]
      exact congrArg (finite · n) hsign
    | infinite t =>
      simp only [magnitudeBits] at hbits
      omega
    | quietNaN t p =>
      simp only [magnitudeBits] at hbits
      omega
  | infinite s =>
    cases y with
    | finite t n =>
      have hn := n.isLt
      simp only [magnitudeBits] at hbits
      omega
    | infinite t => exact congrArg infinite hsign
    | quietNaN t p =>
      simp only [magnitudeBits] at hbits
      omega
  | quietNaN s p =>
    cases y with
    | finite t n =>
      have hn := n.isLt
      simp only [magnitudeBits] at hbits
      omega
    | infinite t =>
      simp only [magnitudeBits] at hbits
      omega
    | quietNaN t q =>
      have hp : p = q := Fin.ext (Nat.add_left_cancel hbits)
      rw [hp]
      exact congrArg (quietNaN · q) hsign

theorem rank_injective : Function.Injective rank := by
  intro x y h
  unfold rank at h
  split at h
  · split at h
    · exact eq_of_bits (by simp [*]) (by omega)
    · omega
  · split at h
    · omega
    · exact eq_of_bits (by simp [*]) (by omega)

/-- Below zero the rank is one less than the place, and nothing else sets them apart. -/
theorem rank_of_level {x : Binary64} {i : Int} (h : x.level? = some i) :
    (x.isNegative = true ∧ x.rank = i - 1 ∧ i ≤ 0) ∨
      (x.isNegative = false ∧ x.rank = i ∧ 0 ≤ i) := by
  cases x with
  | finite s m =>
    rw [level?, Option.some.injEq] at h
    subst h
    cases s <;> simp [isNegative, rank, magnitudeBits]
  | infinite s =>
    rw [level?, Option.some.injEq] at h
    subst h
    cases s <;> simp [isNegative, rank, magnitudeBits]
  | quietNaN s p => cases h

theorem rank_lt_of_lt {x y : Binary64} (h : x.lt y = true) : x.rank < y.rank := by
  obtain ⟨i, j, hi, hj, hij⟩ := lt_iff.mp h
  have hx := rank_of_level hi
  have hy := rank_of_level hj
  omega

theorem eq_zero_of_level {x : Binary64} (h : x.level? = some 0) :
    x = if x.isNegative then zero.neg else zero := by
  cases x with
  | finite s m =>
    rw [level?, Option.some.injEq] at h
    have hm : m = Magnitude.zero := by
      apply Fin.ext
      show m.val = 0
      split at h <;> omega
    subst hm
    cases s <;> rfl
  | infinite s => cases s <;> simp [level?] at h
  | quietNaN s p => cases h

/-- Numbers at one place are equal but for the two zeros. -/
theorem eq_or_zeros_of_same {x y : Binary64} (h : x.same y = true) :
    x = y ∨ (x = zero.neg ∧ y = zero) ∨ (x = zero ∧ y = zero.neg) := by
  obtain ⟨i, hi, hj⟩ := same_iff.mp h
  have hzero : i = 0 → x = (if x.isNegative then zero.neg else zero) ∧
      y = if y.isNegative then zero.neg else zero := by
    rintro rfl
    exact ⟨eq_zero_of_level hi, eq_zero_of_level hj⟩
  rcases rank_of_level hi with ⟨hx, hrx, hix⟩ | ⟨hx, hrx, hix⟩ <;>
    rcases rank_of_level hj with ⟨hy, hry, hiy⟩ | ⟨hy, hry, hiy⟩
  · exact .inl (rank_injective (by omega))
  · obtain ⟨h, h'⟩ := hzero (by omega)
    rw [hx] at h
    rw [hy] at h'
    exact .inr (.inl ⟨h, h'⟩)
  · obtain ⟨h, h'⟩ := hzero (by omega)
    rw [hx] at h
    rw [hy] at h'
    exact .inr (.inr ⟨h, h'⟩)
  · exact .inl (rank_injective (by omega))

/-- One of the numbers, exceeded by none of them; it is a NaN only if all are. -/
structure IsExtreme (exceeds : Binary64 → Binary64 → Bool) (x : Binary64) (xs : List Binary64) :
    Prop where
  mem : x ∈ xs
  not_exceeded : ∀ y ∈ xs, exceeds y x = false
  isNaN : x.isNaN = true → ∀ y ∈ xs, y.isNaN = true

def IsMax : Binary64 → List Binary64 → Prop := IsExtreme fun y x => x.lt y

def IsMin : Binary64 → List Binary64 → Prop := IsExtreme fun y x => y.lt x

/-- Of two numbers the second, unless the first beats it; a NaN gives way. -/
def choose (beats : Int → Int → Bool) (x y : Binary64) : Binary64 :=
  if x.isNaN || relates (fun i j => !beats i j) x y then y else x

theorem max_eq_choose : Binary64.max = choose fun i j => decide (j < i) := by
  funext x y
  have hle : (fun i j : Int => !decide (j < i)) = fun i j => decide (i ≤ j) := by
    funext i j
    rw [← decide_not, decide_eq_decide]
    omega
  rw [Binary64.max, choose, hle, le]

theorem min_eq_choose : Binary64.min = choose fun i j => decide (i < j) := by
  funext x y
  have hle : (fun i j : Int => !decide (i < j)) = fun i j => decide (j ≤ i) := by
    funext i j
    rw [← decide_not, decide_eq_decide]
    omega
  rw [Binary64.min, choose, hle, le, relates_swap]

section Choose

variable {beats : Int → Int → Bool}

theorem choose_eq_or (x y : Binary64) : choose beats x y = x ∨ choose beats x y = y := by
  unfold choose
  split <;> simp

theorem isNaN_choose {x y : Binary64} (h : (choose beats x y).isNaN = true) :
    x.isNaN = true ∧ y.isNaN = true := by
  unfold choose at h
  split at h
  · rename_i hc
    rcases Bool.or_eq_true_iff.mp hc with hx | hle
    · exact ⟨hx, h⟩
    · obtain ⟨_, j, _, hj, _⟩ := relates_iff.mp hle
      rw [level?_eq_none.mpr h] at hj
      cases hj
  · rename_i hc
    exact absurd (Bool.or_eq_true_iff.mpr (.inl h)) hc

theorem beats_choose_left
    (cotrans : ∀ i j k, beats i k = true → beats i j = true ∨ beats j k = true)
    {x y z : Binary64} (h : relates beats x z = true) :
    relates beats (choose beats x y) z = true := by
  obtain ⟨i, k, hi, hk, hik⟩ := relates_iff.mp h
  unfold choose
  split
  · rename_i hc
    rcases Bool.or_eq_true_iff.mp hc with hx | hle
    · rw [level?_eq_none.mpr hx] at hi
      cases hi
    · obtain ⟨i', j, hi', hj, hij⟩ := relates_iff.mp hle
      rw [hi, Option.some.injEq] at hi'
      subst hi'
      rw [Bool.not_eq_true'] at hij
      have hjk := (cotrans i j k hik).resolve_left (by simp [hij])
      exact relates_iff.mpr ⟨j, k, hj, hk, hjk⟩
  · exact h

theorem beats_choose_right
    (trans : ∀ i j k, beats i j = true → beats j k = true → beats i k = true)
    {x y z : Binary64} (h : relates beats y z = true) :
    relates beats (choose beats x y) z = true := by
  obtain ⟨j, k, hj, hk, hjk⟩ := relates_iff.mp h
  unfold choose
  split
  · exact h
  · rename_i hc
    rw [Bool.not_eq_true, Bool.or_eq_false_iff] at hc
    obtain ⟨i, hi⟩ := exists_level hc.1
    have hij : beats i j = true := by simpa [relates, hi, hj] using hc.2
    exact relates_iff.mpr ⟨i, k, hi, hk, trans i j k hij hjk⟩

theorem isExtreme_foldl (irrefl : ∀ i, beats i i = false)
    (trans : ∀ i j k, beats i j = true → beats j k = true → beats i k = true)
    (cotrans : ∀ i j k, beats i k = true → beats i j = true ∨ beats j k = true)
    (x : Binary64) (xs : List Binary64) :
    IsExtreme (relates beats) (xs.foldl (choose beats) x) (x :: xs) := by
  induction xs generalizing x with
  | nil =>
    refine ⟨List.mem_singleton_self x, ?_, ?_⟩
    · intro y hy
      rw [List.mem_singleton.mp hy, List.foldl_nil]
      cases hx : x.level? <;> simp [relates, hx, irrefl]
    · intro hx y hy
      rwa [List.mem_singleton.mp hy]
  | cons y ys ih =>
    -- The fold goes on from the choice among the first two, which stands for both of them.
    obtain ⟨hmem, hle, hnan⟩ := ih (choose beats x y)
    rw [List.foldl_cons]
    have hchosen := hle _ List.mem_cons_self
    refine ⟨?_, ?_, ?_⟩
    · rcases List.mem_cons.mp hmem with h | h
      · rw [h]
        rcases @choose_eq_or beats x y with h' | h' <;> simp [h']
      · exact List.mem_cons_of_mem _ (List.mem_cons_of_mem _ h)
    · intro z hz
      rw [Bool.eq_false_iff] at hchosen ⊢
      intro h
      rcases List.mem_cons.mp hz with rfl | hz
      · exact hchosen (beats_choose_left cotrans h)
      · rcases List.mem_cons.mp hz with rfl | hz
        · exact hchosen (beats_choose_right trans h)
        · rw [hle z (List.mem_cons_of_mem _ hz)] at h
          cases h
    · intro h z hz
      have hxy := isNaN_choose (hnan h _ List.mem_cons_self)
      rcases List.mem_cons.mp hz with rfl | hz
      · exact hxy.1
      · rcases List.mem_cons.mp hz with rfl | hz
        · exact hxy.2
        · exact hnan h z (List.mem_cons_of_mem _ hz)

end Choose

theorem isMax_foldl (x : Binary64) (xs : List Binary64) :
    IsMax (xs.foldl Binary64.max x) (x :: xs) := by
  have hbeats : (fun y x : Binary64 => x.lt y) = relates fun i j => decide (j < i) := by
    funext y x
    exact relates_swap _ x y
  rw [IsMax, hbeats, max_eq_choose]
  apply isExtreme_foldl <;> simp only [decide_eq_true_eq, decide_eq_false_iff_not] <;> omega

theorem isMin_foldl (x : Binary64) (xs : List Binary64) :
    IsMin (xs.foldl Binary64.min x) (x :: xs) := by
  have hbeats : (fun y x : Binary64 => y.lt x) = relates fun i j => decide (i < j) := rfl
  rw [IsMin, hbeats, min_eq_choose]
  apply isExtreme_foldl <;> simp only [decide_eq_true_eq, decide_eq_false_iff_not] <;> omega

end CampusQuery.Binary64
