import CampusQuery.Proofs.Number.Interval
import CampusQuery.Proofs.Number.Nearest
import CampusQuery.Proofs.Number.Whole
import Mathlib

namespace CampusQuery

namespace Magnitude

variable {m n : Magnitude} {num den : ℕ}

def maxValue : ℕ := (2 ^ 53 - 1) * 2 ^ 971

theorem value_nonneg (m : Magnitude) : 0 ≤ m.value := by
  rw [value]
  positivity

theorem value_le_value (h : m.val ≤ n.val) : m.value ≤ n.value := by
  have hm := m.exponent_mul_add_mantissa
  have hn := n.exponent_mul_add_mantissa
  have hmant := m.mantissa_lt
  have hmant' := n.mantissa_lt
  have hexp := m.exponent_ge
  have hexp' := n.exponent_ge
  rw [value, value]
  rcases lt_trichotomy m.exponent n.exponent with hlt | heq | hgt
  · -- A larger exponent outweighs fifty-three bits of mantissa.
    have hnormal : 2 ^ 52 ≤ n.mantissa := by
      rw [mantissa_of_le (by omega)]
      omega
    calc (m.mantissa : ℚ) * 2 ^ m.exponent ≤ 2 ^ 53 * 2 ^ m.exponent := by
          gcongr
          exact_mod_cast hmant.le
      _ = 2 ^ 52 * 2 ^ (m.exponent + 1) := by
          rw [zpow_add_one₀ two_ne_zero]
          ring
      _ ≤ n.mantissa * 2 ^ n.exponent := by
          gcongr
          · exact_mod_cast hnormal
          · exact one_le_two
          · omega
  · have hle : m.mantissa ≤ n.mantissa := by omega
    rw [heq]
    gcongr
  · have hnormal : 2 ^ 52 ≤ m.mantissa := by
      rw [mantissa_of_le (by omega)]
      omega
    omega

theorem value_le_maxValue (m : Magnitude) : m.value ≤ maxValue := by
  have hmant : (m.mantissa : ℚ) ≤ (2 ^ 53 - 1 : ℕ) := by
    exact_mod_cast Nat.le_sub_one_of_lt m.mantissa_lt
  have hpow : (2 : ℚ) ^ m.exponent ≤ 2 ^ (971 : ℤ) := zpow_le_zpow_right₀ one_le_two m.exponent_le
  rw [value, maxValue, Nat.cast_mul, Nat.cast_pow, Nat.cast_ofNat]
  exact mul_le_mul hmant (by exact_mod_cast hpow) (by positivity) (by positivity)

theorem two_pow_le_maxValue {k : ℕ} (hk : k ≤ 1023) : (2 : ℚ) ^ k ≤ maxValue := by
  have hmax : 2 ^ 1023 ≤ maxValue := by decide +kernel
  calc (2 : ℚ) ^ k ≤ 2 ^ 1023 := pow_le_pow_right₀ one_le_two hk
    _ ≤ maxValue := by exact_mod_cast hmax

/-- A mantissa of fifty-three bits, or fewer at the least exponent, may be carried over once. -/
theorem value_of_bits {q : ℤ} {n : ℕ} (hq : -1074 ≤ q) (hn : n ≤ 2 ^ 53)
    (hlow : q = -1074 ∨ 2 ^ 52 ≤ n)
    (hm : m.val = (q + 1074).toNat * 0x10_0000_0000_0000 + n) : m.value = n * 2 ^ q := by
  rw [value]
  rcases Nat.lt_or_ge n (2 ^ 52) with hsmall | hlarge
  · obtain rfl : q = -1074 := by omega
    have hval : m.val < 0x10_0000_0000_0000 := by omega
    rw [mantissa_of_lt hval, exponent_of_lt hval, show m.val = n by omega]
  · have hval : 0x10_0000_0000_0000 ≤ m.val := by omega
    rw [mantissa_of_le hval, exponent_of_le hval]
    rcases Nat.lt_or_eq_of_le hn with hlt | rfl
    · rw [show 0x10_0000_0000_0000 + m.val % 0x10_0000_0000_0000 = n by omega,
        show ((m.val / 0x10_0000_0000_0000 : ℕ) : ℤ) - 1075 = q by omega]
    · rw [show m.val % 0x10_0000_0000_0000 = 0 by omega,
        show ((m.val / 0x10_0000_0000_0000 : ℕ) : ℤ) - 1075 = q + 1 by omega,
        zpow_add_one₀ two_ne_zero]
      push_cast
      ring

/-- A ratio in units of its last place has at most fifty-three bits in front of the point, and fewer
only at the least place. -/
theorem ratio_at_lastPlace (hn : 0 < num) (hd : 0 < den) :
    (num / den : ℚ) / 2 ^ lastPlace num den ≤ 2 ^ 53 ∧
      (lastPlace num den = -1074 ∨ 2 ^ 52 ≤ (num / den : ℚ) / 2 ^ lastPlace num den) := by
  have hpos : (0 : ℚ) < num / den := by positivity
  have hpow : (0 : ℚ) < 2 ^ lastPlace num den := by positivity
  have hplace := lastPlace_eq hn hd
  have hlow := Int.zpow_log_le_self one_lt_two hpos
  have hhigh := Int.lt_zpow_succ_log_self one_lt_two (num / den : ℚ)
  rw [Nat.cast_ofNat] at hlow hhigh
  rw [div_le_iff₀ hpow, le_div_iff₀ hpow, ← zpow_natCast, ← zpow_natCast, ← zpow_add₀ two_ne_zero,
    ← zpow_add₀ two_ne_zero]
  constructor
  · exact hhigh.le.trans (zpow_le_zpow_right₀ one_le_two (by omega))
  · rcases le_or_gt (Int.log 2 (num / den : ℚ) - 52) (-1074) with hle | hgt
    · exact .inl (by omega)
    · exact .inr ((zpow_le_zpow_right₀ one_le_two (by omega)).trans hlow)

/-- The bits that a ratio is rounded to: the nearest number of its last places. -/
theorem ofRatio?_eq (hn : 0 < num) (hd : 0 < den) :
    ∃ n : ℕ, n = Tie.even.nearest ((num / den : ℚ) / 2 ^ lastPlace num den) ∧ n ≤ 2 ^ 53 ∧
      (lastPlace num den = -1074 ∨ 2 ^ 52 ≤ n) ∧ ofRatio? num den =
        if h : (lastPlace num den + 1074).toNat * 0x10_0000_0000_0000 + n < 0x7ff0_0000_0000_0000 then
          some ⟨_, h⟩ else none := by
  obtain ⟨hhigh, hlow⟩ := ratio_at_lastPlace hn hd
  have hden : 0 < den <<< (lastPlace num den).toNat := by
    rw [Nat.shiftLeft_eq]
    positivity
  refine ⟨_, rfl, Tie.even.nearest_le (by positivity) (by exact_mod_cast hhigh),
    hlow.imp_right fun h => Tie.even.le_nearest (by exact_mod_cast h), ?_⟩
  rw [ofRatio?, if_neg hn.ne', ← scaled_div, ← roundDiv_eq_nearest _ _ hden]

theorem value_of_ofRatio? (hn : 0 < num) (hd : 0 < den) (h : ofRatio? num den = some m) :
    m.value = Tie.even.nearest ((num / den : ℚ) / 2 ^ lastPlace num den) *
      2 ^ lastPlace num den := by
  obtain ⟨n, hnearest, hhigh, hlow, heq⟩ := ofRatio?_eq hn hd
  rw [h] at heq
  rw [← hnearest]
  split at heq
  · cases heq
    exact value_of_bits (by rw [lastPlace_eq hn hd]; exact le_max_left _ _) hhigh hlow rfl
  · cases heq

theorem lastPlace_le {e : ℕ} (hn : 0 < num) (hd : 0 < den) (h : (num / den : ℚ) < 2 ^ e) :
    lastPlace num den ≤ e - 53 := by
  have hlog := (Int.lt_zpow_iff_log_lt one_lt_two (x := e) (by positivity : (0 : ℚ) < num / den)).mp
    (by exact_mod_cast h)
  rw [lastPlace_eq hn hd]
  omega

/-- Up to the largest double a ratio is rounded to a double. -/
theorem exists_ofRatio? (hd : 0 < den) (h : (num / den : ℚ) ≤ maxValue) :
    ∃ m, ofRatio? num den = some m := by
  rcases Nat.eq_zero_or_pos num with rfl | hn
  · exact ⟨zero, rfl⟩
  obtain ⟨n, hnearest, hhigh, -, heq⟩ := ofRatio?_eq hn hd
  have hmax : maxValue < 2 ^ 1024 := by decide +kernel
  have hplace := lastPlace_le (e := 1024) hn hd (h.trans_lt (by exact_mod_cast hmax))
  have hbits : (lastPlace num den + 1074).toNat * 0x10_0000_0000_0000 + n < 0x7ff0_0000_0000_0000 := by
    rcases (show lastPlace num den ≤ 971 by omega).lt_or_eq with hlt | hlast
    · omega
    · have hn' : n ≤ 2 ^ 53 - 1 := by
        rw [hnearest, hlast]
        refine Tie.even.nearest_le (by positivity) ?_
        rw [div_le_iff₀ (by positivity)]
        exact_mod_cast h
      omega
  rw [heq, dif_pos hbits]
  exact ⟨_, rfl⟩

/-- Powers of two are doubles, so rounding does not pass them. -/
theorem value_le_of_ofRatio? {k : ℕ} (hd : 0 < den) (h : (num / den : ℚ) ≤ 2 ^ k)
    (hm : ofRatio? num den = some m) : m.value ≤ 2 ^ k := by
  rcases Nat.eq_zero_or_pos num with rfl | hn
  · cases hm
    rw [value_zero]
    positivity
  have hplace :=
    lastPlace_le (e := k + 1) hn hd (h.trans_lt (pow_lt_pow_right₀ one_lt_two k.lt_succ_self))
  rw [value_of_ofRatio? hn hd hm]
  generalize lastPlace num den = q at *
  have hpow : (0 : ℚ) < 2 ^ q := by positivity
  have hunits : ((2 ^ (k - q).toNat : ℕ) : ℚ) * 2 ^ q = 2 ^ k := by
    rw [Nat.cast_pow, Nat.cast_ofNat, ← zpow_natCast, ← zpow_natCast, ← zpow_add₀ two_ne_zero]
    congr 1
    omega
  have hnearest := Tie.even.nearest_le (q := (num / den : ℚ) / 2 ^ q) (n := 2 ^ (k - q).toNat)
    (by positivity) (by rw [div_le_iff₀ hpow, hunits]; exact h)
  rw [← hunits]
  gcongr

theorem two_pow_le_value_of_ofRatio? {k : ℕ} (hd : 0 < den) (h : 2 ^ k ≤ (num / den : ℚ))
    (hm : ofRatio? num den = some m) : 2 ^ k ≤ m.value := by
  have hn : 0 < num := by
    apply Nat.pos_of_ne_zero
    rintro rfl
    rw [Nat.cast_zero, zero_div] at h
    exact absurd h (not_le.mpr (by positivity))
  have hplace : k - 52 ≤ lastPlace num den := by
    have hlog : (k : ℤ) ≤ Int.log 2 (num / den : ℚ) :=
      (Int.zpow_le_iff_le_log one_lt_two (by positivity)).mp (by exact_mod_cast h)
    rw [lastPlace_eq hn hd]
    omega
  obtain ⟨n, hnearest, -, hlow, -⟩ := ofRatio?_eq hn hd
  have hn' : (2 ^ 52 : ℚ) ≤ n := by exact_mod_cast hlow.resolve_left (by omega)
  rw [value_of_ofRatio? hn hd hm, ← hnearest]
  calc (2 : ℚ) ^ k = 2 ^ 52 * 2 ^ (k - 52 : ℤ) := by
        rw [← zpow_natCast, ← zpow_natCast, ← zpow_add₀ two_ne_zero]
        congr 1
        norm_num
    _ ≤ n * 2 ^ lastPlace num den := by
        gcongr
        exact one_le_two

/-- From 2^53 on all doubles are whole numbers. -/
theorem exists_value_eq_natCast (h : 2 ^ 53 ≤ m.value) : ∃ n : ℕ, m.value = n := by
  have hexp : 0 ≤ m.exponent := by
    by_contra hneg
    have hmant : (m.mantissa : ℚ) < 2 ^ 53 := by exact_mod_cast m.mantissa_lt
    have hpow : (2 : ℚ) ^ m.exponent ≤ 1 := zpow_le_one_of_nonpos₀ one_le_two (by omega)
    have hlt : m.value < 2 ^ 53 :=
      (mul_le_of_le_one_right (Nat.cast_nonneg _) hpow).trans_lt hmant
    exact absurd h hlt.not_ge
  refine ⟨m.mantissa * 2 ^ m.exponent.toNat, ?_⟩
  rw [value, Nat.cast_mul, Nat.cast_pow, Nat.cast_ofNat, ← zpow_natCast, Int.toNat_of_nonneg hexp]

end Magnitude

namespace Binary64

open Magnitude

variable {x y : Binary64} {s t : Bool} {m n : Magnitude} {num den j k : ℕ}

theorem isFinite_ofRatio (s : Bool) (hd : 0 < den) (h : (num / den : ℚ) ≤ maxValue) :
    (ofRatio s num den).isFinite = true := by
  obtain ⟨m, hm⟩ := exists_ofRatio? hd h
  rw [ofRatio, hm]
  rfl

/-- The number is finite and at most a power of two in size. -/
def Within (k : ℕ) (x : Binary64) : Prop := ∃ s m, x = .finite s m ∧ m.value ≤ 2 ^ k

theorem Within.isFinite (h : x.Within k) : x.isFinite = true := by
  obtain ⟨s, m, rfl, -⟩ := h
  rfl

theorem Within.neg (h : x.Within k) : x.neg.Within k := by
  obtain ⟨s, m, rfl, hm⟩ := h
  exact ⟨!s, m, rfl, hm⟩

theorem within_ofRatio (s : Bool) (hd : 0 < den) (hk : k ≤ 1023) (h : (num / den : ℚ) ≤ 2 ^ k) :
    (ofRatio s num den).Within k := by
  obtain ⟨m, hm⟩ := exists_ofRatio? hd (h.trans (two_pow_le_maxValue hk))
  exact ⟨s, m, by rw [ofRatio, hm], value_le_of_ofRatio? hd h hm⟩

theorem within_ofNat {n : ℕ} (hk : k ≤ 1023) (h : n ≤ 2 ^ k) : (ofNat n).Within k := by
  refine within_ofRatio false one_pos hk ?_
  rw [Nat.cast_one, div_one]
  exact_mod_cast h

/-- A count other than zero is at least one as a double. -/
theorem exists_ofNat {n : ℕ} (hn : 0 < n) (hk : k ≤ 1023) (h : n ≤ 2 ^ k) :
    ∃ m, ofNat n = .finite false m ∧ 1 ≤ m.value := by
  have hone : 1 ≤ (n / (1 : ℕ) : ℚ) := by
    rw [Nat.cast_one, div_one]
    exact_mod_cast hn
  have hle : (n / (1 : ℕ) : ℚ) ≤ 2 ^ k := by
    rw [Nat.cast_one, div_one]
    exact_mod_cast h
  obtain ⟨m, hm⟩ := exists_ofRatio? one_pos (hle.trans (two_pow_le_maxValue hk))
  have hvalue := two_pow_le_value_of_ofRatio? (k := 0) one_pos (by rwa [pow_zero]) hm
  exact ⟨m, by rw [ofNat, ofRatio, hm], by rwa [pow_zero] at hvalue⟩

/-- A whole number as a double is whole, unless it is infinite. -/
theorem ofInt_cases (n : ℤ) : ofInt n = .infinite (decide (n < 0)) ∨
    ∃ (m : Magnitude) (k : ℕ), ofInt n = .finite (decide (n < 0)) m ∧ m.value = k ∧
      (n ≠ 0 → 0 < m.val) := by
  cases hm : Magnitude.ofRatio? n.natAbs 1 with
  | none => exact .inl (by rw [ofInt, ofRatio, hm])
  | some m =>
    have hfinite : ofInt n = .finite (decide (n < 0)) m := by rw [ofInt, ofRatio, hm]
    have hlow : ∀ k : ℕ, 2 ^ k ≤ n.natAbs → 2 ^ k ≤ m.value := fun k hk =>
      Magnitude.two_pow_le_value_of_ofRatio? one_pos
        (by rw [Nat.cast_one, div_one]; exact_mod_cast hk) hm
    have hpos : n ≠ 0 → 0 < m.val := by
      intro hn
      have hone := hlow 0 (by omega)
      apply Nat.pos_of_ne_zero
      intro hzero
      rw [(Fin.ext hzero : m = .zero), Magnitude.value_zero] at hone
      norm_num at hone
    rcases Nat.lt_or_ge n.natAbs (2 ^ 53) with hsmall | hlarge
    · obtain ⟨m', hvalue⟩ := Magnitude.exists_value_eq hsmall
      rw [ofInt, ofRatio_of_value hvalue] at hfinite
      cases hfinite
      exact .inr ⟨_, n.natAbs, ofRatio_of_value hvalue, hvalue, hpos⟩
    · obtain ⟨k, hk⟩ := Magnitude.exists_value_eq_natCast (hlow 53 hlarge)
      exact .inr ⟨m, k, hfinite, hk, hpos⟩

theorem natAbs_signed_add_le (s t : Bool) (a b : ℕ) :
    ((if s then -(a : ℤ) else a) + (if t then -(b : ℤ) else b)).natAbs ≤ a + b := by
  cases s <;> cases t <;> simp only [Bool.false_eq_true, if_true, if_false] <;> omega

theorem Within.add (hx : x.Within k) (hy : y.Within k) (hk : k < 1023) :
    (x.add y).Within (k + 1) := by
  obtain ⟨s, m, rfl, hm⟩ := hx
  obtain ⟨t, n, rfl, hn⟩ := hy
  have hsum := natAbs_signed_add_le s t (m.num * n.den) (n.num * m.den)
  simp only [Binary64.add, ← Nat.cast_mul]
  generalize (if s = true then -((m.num * n.den : ℕ) : ℤ) else _) + _ = sum at hsum ⊢
  split
  · exact ⟨_, _, rfl, by rw [value_zero]; positivity⟩
  · refine within_ofRatio _ (Nat.mul_pos m.den_pos n.den_pos) hk ?_
    have hmden : (m.den : ℚ) ≠ 0 := by exact_mod_cast m.den_pos.ne'
    have hnden : (n.den : ℚ) ≠ 0 := by exact_mod_cast n.den_pos.ne'
    calc _ ≤ ((m.num * n.den + n.num * m.den : ℕ) : ℚ) / (m.den * n.den : ℕ) := by gcongr
      _ = m.value + n.value := by
        rw [value_eq_div, value_eq_div]
        push_cast
        field_simp
      _ ≤ 2 ^ (k + 1) := by
        rw [pow_succ]
        linarith

theorem Within.mul (hx : x.Within j) (hy : y.Within k) (hk : j + k ≤ 1023) :
    (x.mul y).Within (j + k) := by
  obtain ⟨s, m, rfl, hm⟩ := hx
  obtain ⟨t, n, rfl, hn⟩ := hy
  refine within_ofRatio _ (Nat.mul_pos m.den_pos n.den_pos) hk ?_
  rw [Nat.cast_mul, Nat.cast_mul, mul_div_mul_comm, ← value_eq_div, ← value_eq_div, pow_add]
  exact mul_le_mul hm hn n.value_nonneg (by positivity)

/-- A divisor from one on makes nothing larger. -/
theorem div_eq_ofRatio (hn : 1 ≤ n.value) :
    (finite s m).div (finite t n) = ofRatio (s != t) (m.num * n.den) (m.den * n.num) ∧
      0 < m.den * n.num ∧ ((m.num * n.den : ℕ) / (m.den * n.num : ℕ) : ℚ) ≤ m.value := by
  have hnum : 0 < n.num := by
    apply Nat.pos_of_ne_zero
    intro hzero
    rw [value_eq_div, hzero, Nat.cast_zero, zero_div] at hn
    norm_num at hn
  refine ⟨if_neg hnum.ne', Nat.mul_pos m.den_pos hnum, ?_⟩
  rw [Nat.cast_mul, Nat.cast_mul, mul_div_mul_comm, ← value_eq_div, ← inv_div, ← value_eq_div]
  exact mul_le_of_le_one_right m.value_nonneg (inv_le_one_of_one_le₀ hn)

theorem isFinite_div (hn : 1 ≤ n.value) : ((finite s m).div (finite t n)).isFinite = true := by
  obtain ⟨heq, hden, hle⟩ := div_eq_ofRatio (s := s) (t := t) (m := m) hn
  rw [heq]
  exact isFinite_ofRatio _ hden (hle.trans m.value_le_maxValue)

theorem Within.div (hx : x.Within k) (hk : k ≤ 1023) (hn : 1 ≤ n.value) :
    (x.div (finite t n)).Within k := by
  obtain ⟨s, m, rfl, hm⟩ := hx
  obtain ⟨heq, hden, hle⟩ := div_eq_ofRatio (s := s) (t := t) (m := m) hn
  rw [heq]
  exact within_ofRatio _ hden hk (hle.trans hm)

theorem Within.round (hx : x.Within k) (hk : k ≤ 1023) : x.round.Within k := by
  obtain ⟨s, m, rfl, hm⟩ := hx
  refine within_ofRatio s one_pos hk ?_
  rw [roundDiv_eq_nearest _ _ m.den_pos, ← value_eq_div, Nat.cast_one, div_one]
  exact_mod_cast Tie.away.nearest_le m.value_nonneg (by exact_mod_cast hm)

end Binary64

end CampusQuery
