import CampusQuery.Number.Binary64
import Mathlib.Algebra.Order.Field.Power
import Mathlib.Data.Int.Log
import Mathlib.Data.Rat.Floor
import Mathlib.Tactic.FieldSimp
import Mathlib.Tactic.Positivity

namespace CampusQuery

theorem two_zpow_eq (k : ℤ) : (2 : ℚ) ^ k = (2 ^ k.toNat : ℕ) / (2 ^ (-k).toNat : ℕ) := by
  obtain ⟨n, rfl | rfl⟩ := Int.eq_nat_or_neg k <;> simp

theorem scaled_lt_iff {num den : ℕ} (hd : 0 < den) (k : ℤ) :
    num <<< (-k).toNat < den <<< k.toNat ↔ (num : ℚ) / den < 2 ^ k := by
  have hdq : (0 : ℚ) < den := by exact_mod_cast hd
  have hpow : (0 : ℚ) < (2 ^ (-k).toNat : ℕ) := by positivity
  rw [two_zpow_eq, div_lt_div_iff₀ hdq hpow, mul_comm ((2 ^ k.toNat : ℕ) : ℚ), Nat.shiftLeft_eq,
    Nat.shiftLeft_eq]
  exact_mod_cast Iff.rfl

namespace Magnitude

def value (m : Magnitude) : ℚ := m.mantissa * 2 ^ m.exponent

theorem value_eq_div (m : Magnitude) : m.value = m.num / m.den := by
  rw [value, two_zpow_eq, num, den, Nat.shiftLeft_eq, Nat.one_shiftLeft, Nat.cast_mul,
    mul_div_assoc]

theorem le_log_ratio {num den : ℕ} (hn : 0 < num) (hd : 0 < den) :
    (num.log2 : ℤ) - den.log2 - 1 ≤ Int.log 2 ((num : ℚ) / den) := by
  have hdq : (0 : ℚ) < den := by exact_mod_cast hd
  have hnum : (2 : ℚ) ^ num.log2 ≤ num := by exact_mod_cast Nat.log2_self_le hn.ne'
  have hden : (den : ℚ) ≤ 2 ^ (den.log2 + 1) := by exact_mod_cast Nat.lt_log2_self.le
  apply (Int.zpow_le_iff_le_log one_lt_two (by positivity)).mp
  calc ((2 : ℕ) : ℚ) ^ ((num.log2 : ℤ) - den.log2 - 1)
      = 2 ^ num.log2 / 2 ^ (den.log2 + 1) := by
        rw [Nat.cast_ofNat, sub_sub, zpow_sub₀ two_ne_zero]
        norm_cast
    _ ≤ num / den := div_le_div₀ (by positivity) hnum hdq hden

theorem log_ratio_lt {num den : ℕ} (hn : 0 < num) (hd : 0 < den) :
    Int.log 2 ((num : ℚ) / den) < (num.log2 : ℤ) - den.log2 + 1 := by
  have hnum : (num : ℚ) < 2 ^ (num.log2 + 1) := by exact_mod_cast Nat.lt_log2_self
  have hden : (2 : ℚ) ^ den.log2 ≤ den := by exact_mod_cast Nat.log2_self_le hd.ne'
  apply (Int.lt_zpow_iff_log_lt one_lt_two (by positivity)).mp
  calc (num : ℚ) / den < 2 ^ (num.log2 + 1) / 2 ^ den.log2 :=
        div_lt_div₀ hnum hden (by positivity) (by positivity)
    _ = ((2 : ℕ) : ℚ) ^ ((num.log2 : ℤ) - den.log2 + 1) := by
        rw [Nat.cast_ofNat, sub_add_eq_add_sub, zpow_sub₀ two_ne_zero]
        norm_cast

theorem lastPlace_eq {num den : ℕ} (hn : 0 < num) (hd : 0 < den) :
    lastPlace num den = max (-1074) (Int.log 2 ((num : ℚ) / den) - 52) := by
  have hlow := le_log_ratio hn hd
  have hhigh := log_ratio_lt hn hd
  have hpos : (0 : ℚ) < num / den := by positivity
  have hlt : (num : ℚ) / den < 2 ^ ((num.log2 : ℤ) - den.log2) ↔
      Int.log 2 ((num : ℚ) / den) < (num.log2 : ℤ) - den.log2 :=
    Int.lt_zpow_iff_log_lt one_lt_two hpos
  unfold lastPlace
  simp only [scaled_lt_iff hd]
  split_ifs with h
  · rw [hlt] at h
    omega
  · rw [hlt, not_lt] at h
    omega

theorem mantissa_of_lt {m : Magnitude} (h : m.val < 0x10_0000_0000_0000) :
    m.mantissa = m.val := if_pos h

theorem exponent_of_lt {m : Magnitude} (h : m.val < 0x10_0000_0000_0000) :
    m.exponent = -1074 := if_pos h

theorem mantissa_of_le {m : Magnitude} (h : 0x10_0000_0000_0000 ≤ m.val) :
    m.mantissa = 0x10_0000_0000_0000 + m.val % 0x10_0000_0000_0000 := if_neg h.not_gt

theorem exponent_of_le {m : Magnitude} (h : 0x10_0000_0000_0000 ≤ m.val) :
    m.exponent = (m.val / 0x10_0000_0000_0000 : Nat) - 1075 := if_neg h.not_gt

theorem exponent_mul_add_mantissa (m : Magnitude) :
    (m.exponent + 1074).toNat * 0x10_0000_0000_0000 + m.mantissa = m.val := by
  rcases lt_or_ge m.val 0x10_0000_0000_0000 with h | h
  · rw [mantissa_of_lt h, exponent_of_lt h]
    simp
  · rw [mantissa_of_le h, exponent_of_le h]
    omega

theorem mantissa_lt (m : Magnitude) : m.mantissa < 2 ^ 53 := by
  rcases lt_or_ge m.val 0x10_0000_0000_0000 with h | h
  · rw [mantissa_of_lt h]
    omega
  · rw [mantissa_of_le h]
    omega

theorem exponent_ge (m : Magnitude) : -1074 ≤ m.exponent := by
  rcases lt_or_ge m.val 0x10_0000_0000_0000 with h | h
  · rw [exponent_of_lt h]
  · rw [exponent_of_le h]
    omega

theorem exponent_le (m : Magnitude) : m.exponent ≤ 971 := by
  rcases lt_or_ge m.val 0x10_0000_0000_0000 with h | h
  · rw [exponent_of_lt h]
    norm_num
  · rw [exponent_of_le h]
    omega

theorem mantissa_pos {m : Magnitude} (hm : 0 < m.val) : 0 < m.mantissa := by
  rcases lt_or_ge m.val 0x10_0000_0000_0000 with h | h
  · rwa [mantissa_of_lt h]
  · rw [mantissa_of_le h]
    omega

theorem num_pos {m : Magnitude} (hm : 0 < m.val) : 0 < m.num := by
  rw [num, Nat.shiftLeft_eq]
  exact Nat.mul_pos (mantissa_pos hm) (Nat.two_pow_pos _)

theorem value_pos {m : Magnitude} (hm : 0 < m.val) : 0 < m.value := by
  have : (0 : ℚ) < m.mantissa := by exact_mod_cast mantissa_pos hm
  unfold value
  positivity

/-- The exponent of a double is the last place of its value. -/
theorem exponent_eq {m : Magnitude} (hm : 0 < m.val) :
    m.exponent = max (-1074) (Int.log 2 m.value - 52) := by
  have hpow : (0 : ℚ) < 2 ^ m.exponent := by positivity
  have hvalue : ∀ n : ℕ, (m.value < 2 ^ (n + m.exponent) ↔ m.mantissa < 2 ^ n) := by
    intro n
    rw [value, zpow_add₀ two_ne_zero, mul_lt_mul_iff_left₀ hpow, zpow_natCast]
    exact_mod_cast Iff.rfl
  have hlog : ∀ n : ℕ, Int.log 2 m.value < n + m.exponent ↔ m.mantissa < 2 ^ n := by
    intro n
    rw [← hvalue]
    exact (Int.lt_zpow_iff_log_lt one_lt_two (value_pos hm)).symm
  -- A normal mantissa has fifty-three bits; a smaller one stands at the least exponent.
  have hupper := (hlog 53).mpr m.mantissa_lt
  have hlower := hlog 52
  rcases lt_or_ge m.val 0x10_0000_0000_0000 with h | h
  · have := hlower.mpr (mantissa_of_lt h ▸ h)
    have := exponent_of_lt h
    omega
  · have hmant : ¬m.mantissa < 2 ^ 52 := by rw [mantissa_of_le h]; omega
    have hexp : -1074 ≤ m.exponent := by rw [exponent_of_le h]; omega
    have := fun hl => hmant (hlower.mp hl)
    omega

theorem ofRatio?_eq_some {m : Magnitude} (hm : 0 < m.val) {num den : ℕ} (hd : 0 < den)
    (h : (num : ℚ) / den = m.value) : ofRatio? num den = some m := by
  have hdq : (den : ℚ) ≠ 0 := by exact_mod_cast hd.ne'
  have hn : 0 < num := by
    apply Nat.pos_of_ne_zero
    rintro rfl
    have := value_pos hm
    simp [← h] at this
  have hq : lastPlace num den = m.exponent := by
    rw [lastPlace_eq hn hd, h, exponent_eq hm]
  have hscaled : num <<< (-m.exponent).toNat = m.mantissa * den <<< m.exponent.toNat := by
    rw [value, two_zpow_eq] at h
    rw [Nat.shiftLeft_eq, Nat.shiftLeft_eq]
    have hpow : ((2 ^ (-m.exponent).toNat : ℕ) : ℚ) ≠ 0 := by positivity
    field_simp at h
    rw [← mul_assoc, mul_comm m.mantissa]
    exact_mod_cast h
  -- At this last place the division leaves no rest, so nothing is rounded.
  have hround : roundDiv .even (num <<< (-m.exponent).toNat) (den <<< m.exponent.toNat) =
      m.mantissa := by
    have hpos : 0 < den <<< m.exponent.toNat := by
      rw [Nat.shiftLeft_eq]
      positivity
    rw [hscaled, roundDiv_of_dvd _ hpos (Dvd.intro_left _ rfl), Nat.mul_div_cancel _ hpos]
  unfold ofRatio?
  rw [if_neg hn.ne']
  simp only [hq, hround, exponent_mul_add_mantissa]
  rw [dif_pos m.isLt]

end Magnitude

namespace Binary64

theorem ofRatio_eq {m : Magnitude} (hm : 0 < m.val) (neg : Bool) {num den : ℕ} (hd : 0 < den)
    (h : (num : ℚ) / den = m.value) : ofRatio neg num den = .finite neg m := by
  rw [ofRatio, Magnitude.ofRatio?_eq_some hm hd h]

/-- A zero changes no number but another zero. -/
theorem finite_add_of_num_eq_zero {m z : Magnitude} (hm : 0 < m.val) (hz : z.num = 0) (s t : Bool) :
    (finite s m).add (finite t z) = finite s m := by
  have hnum : 0 < m.num := Magnitude.num_pos hm
  obtain ⟨p, hp⟩ : ∃ p, m.num * z.den = p := ⟨_, rfl⟩
  have hpos : 0 < p := hp ▸ Nat.mul_pos hnum z.den_pos
  have hcast : (m.num : Int) * z.den = p := by exact_mod_cast hp
  have hvalue : (p : ℚ) / (m.den * z.den : ℕ) = m.value := by
    rw [m.value_eq_div, ← hp, Nat.cast_mul, Nat.cast_mul, mul_div_mul_right]
    exact_mod_cast z.den_pos.ne'
  have hround := ofRatio_eq hm s (Nat.mul_pos m.den_pos z.den_pos) hvalue
  simp only [add, hz, hcast, Nat.cast_zero, zero_mul, neg_zero, ite_self, add_zero]
  cases s with
  | false =>
    have hsum : (if false = true then -(p : Int) else p) = p := rfl
    have hneg : decide ((p : Int) < 0) = false := decide_eq_false (by omega)
    rw [hsum, if_neg (by omega), hneg, Int.natAbs_natCast, hround]
  | true =>
    have hsum : (if true = true then -(p : Int) else p) = -p := rfl
    have hneg : decide (-(p : Int) < 0) = true := decide_eq_true (by omega)
    rw [hsum, if_neg (by omega), hneg, Int.natAbs_neg, Int.natAbs_natCast, hround]

theorem zero_add_zero {m z : Magnitude} (hm : m.num = 0) (hz : z.num = 0) (s t : Bool) :
    (finite s m).add (finite t z) = finite (s && t) .zero := by
  simp only [add, hm, hz, Nat.cast_zero, zero_mul, neg_zero, ite_self, add_zero, if_true]

theorem finite_same_zero {s : Bool} {m : Magnitude} :
    (finite s m).same zero = true ↔ m = Magnitude.zero := by
  have hval : Magnitude.zero.val = 0 := rfl
  simp only [same, relates, level?, zero, beq_iff_eq, Fin.ext_iff, hval]
  split <;> simp

/-- Adding zero takes the two zeros for one and changes nothing else. -/
theorem add_zero_eq (x : Binary64) : x.add zero = if x.same zero then zero else x := by
  have hzero : Magnitude.zero.num = 0 := by decide
  cases x with
  | quietNaN s p => rfl
  | infinite s => cases s <;> rfl
  | finite s m =>
    by_cases hm : m = Magnitude.zero
    · rw [if_pos (finite_same_zero.mpr hm), hm, zero, zero_add_zero hzero hzero, Bool.and_false]
    · have hpos : 0 < m.val := Nat.pos_of_ne_zero fun h => hm (Fin.ext h)
      rw [if_neg (fun h => hm (finite_same_zero.mp h)), zero, finite_add_of_num_eq_zero hpos hzero]

end Binary64

end CampusQuery
