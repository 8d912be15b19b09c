import CampusQuery.Number.Binary64
import Mathlib

namespace CampusQuery

namespace Tie

def nearest (tie : Tie) (q : ℚ) : ℕ :=
  if tie = .even ∧ q = ⌊q⌋₊ + 1 / 2 ∧ Even ⌊q⌋₊ then ⌊q⌋₊ else ⌊q + 1 / 2⌋₊

/-- `q` rounded to decimal places, with its sign. -/
def roundTo (tie : Tie) (places : ℕ) (q : ℚ) : ℚ :=
  SignType.sign q * (tie.nearest (|q| * 10 ^ places) / 10 ^ places)

variable {tie : Tie} {q p : ℚ}

/-- Below the half the whole part, above it the next number, and on it what the tie says. -/
theorem nearest_add (tie : Tie) (n : ℕ) {f : ℚ} (h0 : 0 ≤ f) (h1 : f < 1) :
    tie.nearest (n + f) =
      if f < 1 / 2 ∨ f = 1 / 2 ∧ tie = .even ∧ Even n then n else n + 1 := by
  have hfloor : ⌊(n : ℚ) + f⌋₊ = n := by
    rw [Nat.floor_eq_iff (by positivity)]
    constructor <;> linarith
  have hup : ⌊(n : ℚ) + f + 1 / 2⌋₊ = if f < 1 / 2 then n else n + 1 := by
    rw [Nat.floor_eq_iff (by positivity)]
    split <;> push_cast <;> constructor <;> linarith
  simp only [nearest, hfloor, hup, add_right_inj]
  rcases lt_trichotomy f (1 / 2) with h | h | h
  · rw [if_neg (fun hc => h.ne hc.2.1), if_pos h, if_pos (.inl h)]
  · simp only [h, lt_self_iff_false, true_and, false_or, if_false]
  · rw [if_neg (fun hc => h.ne' hc.2.1), if_neg h.asymm, if_neg]
    rintro (hlt | ⟨heq, -⟩)
    · exact h.asymm hlt
    · exact h.ne' heq

theorem exists_add (hq : 0 ≤ q) : ∃ (n : ℕ) (f : ℚ), 0 ≤ f ∧ f < 1 ∧ q = n + f :=
  ⟨⌊q⌋₊, q - ⌊q⌋₊, by linarith [Nat.floor_le hq], by linarith [Nat.lt_floor_add_one q], by ring⟩

theorem nearest_natCast (tie : Tie) (n : ℕ) : tie.nearest n = n := by
  have h := tie.nearest_add n le_rfl one_pos
  rwa [add_zero, if_pos (.inl (by norm_num))] at h

theorem abs_sub_nearest_le (tie : Tie) (hq : 0 ≤ q) : |q - tie.nearest q| ≤ 1 / 2 := by
  obtain ⟨n, f, h0, h1, rfl⟩ := exists_add hq
  rw [tie.nearest_add n h0 h1, abs_le]
  split
  · rename_i h
    have hf : f ≤ 1 / 2 := h.elim le_of_lt fun h => h.1.le
    constructor <;> linarith
  · rename_i h
    have hf : 1 / 2 ≤ f := not_lt.mp fun hlt => h (.inl hlt)
    constructor <;> push_cast <;> linarith

theorem nearest_mono (tie : Tie) (hq : 0 ≤ q) (h : q ≤ p) : tie.nearest q ≤ tie.nearest p := by
  rcases h.eq_or_lt with rfl | hlt
  · exact le_rfl
  · by_contra hgt
    have hle : (tie.nearest p : ℚ) + 1 ≤ tie.nearest q := by exact_mod_cast not_le.mp hgt
    have hnq := abs_le.mp (tie.abs_sub_nearest_le hq)
    have hnp := abs_le.mp (tie.abs_sub_nearest_le (hq.trans h))
    linarith

theorem le_nearest (tie : Tie) {n : ℕ} (h : (n : ℚ) ≤ q) : n ≤ tie.nearest q := by
  rw [← tie.nearest_natCast n]
  exact tie.nearest_mono n.cast_nonneg h

theorem nearest_le (tie : Tie) {n : ℕ} (hq : 0 ≤ q) (h : q ≤ n) : tie.nearest q ≤ n := by
  rw [← tie.nearest_natCast n]
  exact tie.nearest_mono hq h

/-- Halves go up, so numbers part at the midpoints, and each midpoint belongs to the upper side. -/
theorem nearest_away_eq_iff (hq : 0 ≤ q) (h : q ≤ p) :
    away.nearest q = away.nearest p ↔ ¬∃ n : ℕ, q < n + 1 / 2 ∧ (n : ℚ) + 1 / 2 ≤ p := by
  have hfloor (x : ℚ) : away.nearest x = ⌊x + 1 / 2⌋₊ := if_neg fun hc => nomatch hc.1
  have hmono : ⌊q + 1 / 2⌋₊ ≤ ⌊p + 1 / 2⌋₊ := Nat.floor_mono (by linarith)
  rw [hfloor, hfloor, not_exists]
  constructor
  · rintro heq n ⟨hn, hnp⟩
    have hlow : ⌊q + 1 / 2⌋₊ < n + 1 := by
      rw [Nat.floor_lt (by linarith)]
      push_cast
      linarith
    have hhigh : n + 1 ≤ ⌊p + 1 / 2⌋₊ := by
      apply Nat.le_floor
      push_cast
      linarith
    omega
  · intro hnone
    refine hmono.antisymm (not_lt.mp fun hlt => hnone ⌊q + 1 / 2⌋₊ ⟨?_, ?_⟩)
    · linarith [Nat.lt_floor_add_one (q + 1 / 2)]
    · have hle : ((⌊q + 1 / 2⌋₊ + 1 : ℕ) : ℚ) ≤ p + 1 / 2 :=
        (Nat.le_floor_iff (by linarith)).mp hlt
      push_cast at hle
      linarith

theorem roundTo_of_nonneg (tie : Tie) (places : ℕ) (hq : 0 ≤ q) :
    tie.roundTo places q = tie.nearest (q * 10 ^ places) / 10 ^ places := by
  rcases hq.eq_or_lt with rfl | hpos
  · have hzero : tie.nearest 0 = 0 := by exact_mod_cast tie.nearest_natCast 0
    simp [roundTo, hzero]
  · rw [roundTo, sign_pos hpos, abs_of_pos hpos, SignType.coe_one, one_mul]

theorem roundTo_neg (tie : Tie) (places : ℕ) (q : ℚ) :
    tie.roundTo places (-q) = -tie.roundTo places q := by
  rw [roundTo, roundTo, Left.sign_neg, abs_neg, SignType.coe_neg, neg_mul]

/-- What has no more places is kept. -/
theorem roundTo_of_places (tie : Tie) {places n : ℕ} (hq : |q| * 10 ^ places = n) :
    tie.roundTo places q = q := by
  rw [roundTo, hq, nearest_natCast, ← hq, mul_div_cancel_right₀ _ (by positivity), sign_mul_abs]

theorem roundTo_away_eq_iff_of_nonneg {places : ℕ} (hq : 0 ≤ q) (hp : 0 ≤ p) :
    away.roundTo places q = away.roundTo places p ↔
      ¬∃ n : ℕ, min q p * 10 ^ places < n + 1 / 2 ∧ (n : ℚ) + 1 / 2 ≤ max q p * 10 ^ places := by
  have hpow : (0 : ℚ) < 10 ^ places := by positivity
  rw [roundTo_of_nonneg _ _ hq, roundTo_of_nonneg _ _ hp, div_left_inj' hpow.ne', Nat.cast_inj]
  rcases le_total q p with h | h
  · rw [min_eq_left h, max_eq_right h]
    exact nearest_away_eq_iff (by positivity) (by gcongr)
  · rw [min_eq_right h, max_eq_left h, eq_comm]
    exact nearest_away_eq_iff (by positivity) (by gcongr)

/-- Values of one sign are rounded half away from zero to the same number unless a midpoint parts
them. -/
theorem roundTo_away_eq_iff {places : ℕ} (hsign : 0 ≤ q * p) :
    away.roundTo places q = away.roundTo places p ↔
      ¬∃ n : ℕ, min |q| |p| * 10 ^ places < n + 1 / 2 ∧
        (n : ℚ) + 1 / 2 ≤ max |q| |p| * 10 ^ places := by
  rcases mul_nonneg_iff.mp hsign with ⟨hq, hp⟩ | ⟨hq, hp⟩
  · rw [abs_of_nonneg hq, abs_of_nonneg hp]
    exact roundTo_away_eq_iff_of_nonneg hq hp
  · rw [abs_of_nonpos hq, abs_of_nonpos hp, ← neg_inj, ← roundTo_neg, ← roundTo_neg]
    exact roundTo_away_eq_iff_of_nonneg (neg_nonneg.mpr hq) (neg_nonneg.mpr hp)

end Tie

theorem roundDiv_eq_nearest (tie : Tie) (num : ℕ) {den : ℕ} (hd : 0 < den) :
    roundDiv tie num den = tie.nearest (num / den) := by
  have hden : (0 : ℚ) < den := by exact_mod_cast hd
  have hrest : (num % den : ℕ) < (den : ℚ) := by exact_mod_cast Nat.mod_lt num hd
  have hsplit : (num / den : ℚ) = (num / den : ℕ) + (num % den : ℕ) / den := by
    rw [div_eq_iff hden.ne', add_mul, div_mul_cancel₀ _ hden.ne']
    exact_mod_cast (Nat.div_add_mod' num den).symm
  have hhalf : ((num % den : ℕ) : ℚ) / den < 1 / 2 ↔ 2 * (num % den) < den := by
    rw [div_lt_iff₀ hden, one_div_mul_eq_div, lt_div_iff₀ two_pos, mul_comm]
    exact_mod_cast Iff.rfl
  have htie : ((num % den : ℕ) : ℚ) / den = 1 / 2 ↔ 2 * (num % den) = den := by
    rw [div_eq_iff hden.ne', one_div_mul_eq_div, eq_div_iff two_ne_zero, mul_comm]
    exact_mod_cast Iff.rfl
  rw [hsplit, tie.nearest_add _ (by positivity) ((div_lt_one hden).mpr hrest), roundDiv]
  simp only [hhalf, htie]
  rcases Nat.lt_trichotomy (2 * (num % den)) den with h | h | h
  · simp only [Nat.compare_eq_lt.mpr h, h, true_or, if_true]
  · have heq : compare den den = .eq := Nat.compare_eq_eq.mpr rfl
    simp only [h, heq, lt_self_iff_false, false_or, true_and, Nat.even_iff]
  · simp only [Nat.compare_eq_gt.mpr h, h.not_gt, h.ne', false_and, or_self, if_false]

end CampusQuery
