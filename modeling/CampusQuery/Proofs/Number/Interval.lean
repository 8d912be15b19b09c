import CampusQuery.Number.Shortest
import CampusQuery.Proofs.Number.Exact
import Mathlib.Tactic.Linarith

namespace CampusQuery

/-- A ratio within half a unit of a whole number rounds to it; halfway between two the even one. -/
theorem roundDiv_even_eq {num den n : ℕ} (hd : 0 < den)
    (hlow : 2 * (n * den) < 2 * num + den ∨ n % 2 = 0 ∧ 2 * (n * den) = 2 * num + den)
    (hhigh : 2 * num < 2 * (n * den) + den ∨ n % 2 = 0 ∧ 2 * num = 2 * (n * den) + den) :
    roundDiv .even num den = n := by
  have hnum : num / den * den + num % den = num := Nat.div_add_mod' num den
  have hmod : num % den < den := Nat.mod_lt num hd
  unfold roundDiv
  generalize num / den = q at *
  generalize num % den = r at *
  -- The whole part of the quotient is `n` or one less.
  have hle : q ≤ n := by
    by_contra hlt
    have := Nat.mul_le_mul_right den (Nat.succ_le_of_lt (Nat.lt_of_not_le hlt))
    rw [Nat.succ_mul] at this
    omega
  have hge : n ≤ q + 1 := by
    by_contra hlt
    have := Nat.mul_le_mul_right den (Nat.succ_le_of_lt (Nat.lt_of_not_le hlt))
    rw [Nat.succ_mul, Nat.add_mul, Nat.one_mul] at this
    omega
  rcases Nat.le_iff_lt_or_eq.mp hle with hlt | rfl
  · obtain rfl : n = q + 1 := by omega
    rw [Nat.add_mul, Nat.one_mul] at hlow
    rcases Nat.lt_trichotomy (2 * r) den with h | h | h
    · omega
    · simp only [Nat.compare_eq_eq.mpr h, true_and]
      exact if_neg (by omega)
    · simp only [Nat.compare_eq_gt.mpr h]
  · rcases Nat.lt_trichotomy (2 * r) den with h | h | h
    · simp only [Nat.compare_eq_lt.mpr h]
    · simp only [Nat.compare_eq_eq.mpr h, true_and]
      exact if_pos (by omega)
    · omega

theorem scaled_div (num den : ℕ) (k : ℤ) :
    ((num <<< (-k).toNat : ℕ) : ℚ) / (den <<< k.toNat : ℕ) = num / den / 2 ^ k := by
  rw [two_zpow_eq, Nat.shiftLeft_eq, Nat.shiftLeft_eq, Nat.cast_mul, Nat.cast_mul,
    mul_div_mul_comm, div_div_eq_mul_div, mul_div_assoc]

theorem roundDiv_scaled {num den n : ℕ} (hd : 0 < den) (k : ℤ)
    (hlow : (n - 1 / 2 : ℚ) * 2 ^ k < num / den ∨
      n % 2 = 0 ∧ (n - 1 / 2 : ℚ) * 2 ^ k = num / den)
    (hhigh : (num / den : ℚ) < (n + 1 / 2) * 2 ^ k ∨
      n % 2 = 0 ∧ (num / den : ℚ) = (n + 1 / 2) * 2 ^ k) :
    roundDiv .even (num <<< (-k).toNat) (den <<< k.toNat) = n := by
  have hpow : (0 : ℚ) < 2 ^ k := by positivity
  have hd' : 0 < den <<< k.toNat := by
    rw [Nat.shiftLeft_eq]
    positivity
  have hratio := scaled_div num den k
  rw [← lt_div_iff₀ hpow, ← eq_div_iff hpow.ne', ← hratio] at hlow
  rw [← div_lt_iff₀ hpow, ← div_eq_iff hpow.ne', ← hratio] at hhigh
  generalize num <<< (-k).toNat = a at *
  generalize den <<< k.toNat = b at *
  have hb : (0 : ℚ) < b := by exact_mod_cast hd'
  rw [lt_div_iff₀ hb, eq_div_iff hb.ne'] at hlow
  rw [div_lt_iff₀ hb, div_eq_iff hb.ne'] at hhigh
  apply roundDiv_even_eq hd'
  · refine hlow.imp (fun h => ?_) (And.imp_right fun h => ?_)
    · have : (2 * (n * b) : ℚ) < 2 * a + b := by linarith
      exact_mod_cast this
    · have : (2 * (n * b) : ℚ) = 2 * a + b := by linarith
      exact_mod_cast this
  · refine hhigh.imp (fun h => ?_) (And.imp_right fun h => ?_)
    · have : (2 * a : ℚ) < 2 * (n * b) + b := by linarith
      exact_mod_cast this
    · have : (2 * a : ℚ) = 2 * (n * b) + b := by linarith
      exact_mod_cast this

namespace Magnitude

theorem narrowBelow_iff {m : Magnitude} :
    m.narrowBelow = true ↔
      m.val % 0x10_0000_0000_0000 = 0 ∧ 0x20_0000_0000_0000 ≤ m.val := by
  simp only [narrowBelow, Bool.and_eq_true, beq_iff_eq, decide_eq_true_eq]

theorem mantissa_of_narrow {m : Magnitude} (h : m.narrowBelow = true) :
    m.mantissa = 2 ^ 52 := by
  obtain ⟨hmod, hle⟩ := narrowBelow_iff.mp h
  rw [mantissa_of_le (by omega), hmod]
  rfl

/-- How many places below its mantissa the numbers begin that round to a double. -/
def reachBelow (m : Magnitude) : ℚ := if m.narrowBelow then 1 / 4 else 1 / 2

/-- The numbers that round to `m`: half a place to each side of its value, but only a quarter below
a power of two, where doubles lie closer. The ends are among them if the mantissa is even. -/
structure Attracts (m : Magnitude) (v : ℚ) : Prop where
  low : (m.mantissa - m.reachBelow) * 2 ^ m.exponent < v ∨
    m.mantissa % 2 = 0 ∧ (m.mantissa - m.reachBelow) * 2 ^ m.exponent = v
  high : v < (m.mantissa + 1 / 2) * 2 ^ m.exponent ∨
    m.mantissa % 2 = 0 ∧ v = (m.mantissa + 1 / 2) * 2 ^ m.exponent

variable {m : Magnitude} {v : ℚ}

theorem reachBelow_pos (m : Magnitude) : 0 < m.reachBelow := by
  unfold reachBelow
  split <;> norm_num

theorem reachBelow_le (m : Magnitude) : m.reachBelow ≤ 1 / 2 := by
  unfold reachBelow
  split <;> norm_num

theorem attracts_value (m : Magnitude) : m.Attracts m.value := by
  have hpow : (0 : ℚ) < 2 ^ m.exponent := by positivity
  have hreach := m.reachBelow_pos
  constructor
  · exact .inl (mul_lt_mul_of_pos_right (by linarith) hpow)
  · exact .inl (mul_lt_mul_of_pos_right (by linarith) hpow)

theorem Attracts.low_le (h : m.Attracts v) : (m.mantissa - 1 / 2 : ℚ) * 2 ^ m.exponent ≤ v := by
  have hle : (m.mantissa - 1 / 2 : ℚ) * 2 ^ m.exponent ≤
      (m.mantissa - m.reachBelow) * 2 ^ m.exponent := by
    have := m.reachBelow_le
    gcongr
  rcases h.low with hlow | ⟨-, hlow⟩
  · exact hle.trans hlow.le
  · exact hle.trans hlow.le

theorem Attracts.le_high (h : m.Attracts v) : v ≤ (m.mantissa + 1 / 2 : ℚ) * 2 ^ m.exponent := by
  rcases h.high with hhigh | ⟨-, hhigh⟩
  · exact hhigh.le
  · exact hhigh.le

theorem Attracts.pos (h : m.Attracts v) (hm : 0 < m.val) : 0 < v := by
  have hmant : (1 : ℚ) ≤ m.mantissa := by exact_mod_cast mantissa_pos hm
  have hpow : (0 : ℚ) < 2 ^ m.exponent := by positivity
  exact (mul_pos (by linarith) hpow).trans_le h.low_le

theorem Attracts.lt (h : m.Attracts v) : v < 2 ^ (53 + m.exponent) := by
  have hmant : (m.mantissa + 1 : ℚ) ≤ 2 ^ 53 := by exact_mod_cast m.mantissa_lt
  have hpow : (0 : ℚ) < 2 ^ m.exponent := by positivity
  calc v ≤ (m.mantissa + 1 / 2 : ℚ) * 2 ^ m.exponent := h.le_high
    _ < 2 ^ 53 * 2 ^ m.exponent := mul_lt_mul_of_pos_right (by linarith) hpow
    _ = 2 ^ (53 + m.exponent) := by rw [zpow_add₀ two_ne_zero]; norm_cast

/-- Only a power of two attracts numbers of a lower order than its own. -/
theorem Attracts.le_of_wide (h : m.Attracts v) (hm : 0x20_0000_0000_0000 ≤ m.val)
    (hwide : m.narrowBelow = false ∨ m.value ≤ v) : 2 ^ (52 + m.exponent) ≤ v := by
  have hpow : (0 : ℚ) < 2 ^ m.exponent := by positivity
  have hmant := mantissa_of_le (m := m) (by omega)
  rw [zpow_add₀ two_ne_zero, show (2 : ℚ) ^ (52 : ℤ) = 0x10_0000_0000_0000 by norm_num]
  rcases hwide with hnarrow | hvalue
  · have hmod : m.val % 0x10_0000_0000_0000 ≠ 0 := by
      intro hmod
      simp [narrowBelow, hmod, hm] at hnarrow
    have hgt : (0x10_0000_0000_0000 + 1 : ℚ) ≤ m.mantissa := by
      have : 0x10_0000_0000_0000 + 1 ≤ m.mantissa := by omega
      exact_mod_cast this
    refine le_trans ?_ h.low_le
    exact mul_le_mul_of_nonneg_right (by linarith) hpow.le
  · have hge : (0x10_0000_0000_0000 : ℚ) ≤ m.mantissa := by
      have : 0x10_0000_0000_0000 ≤ m.mantissa := by omega
      exact_mod_cast this
    exact le_trans (mul_le_mul_of_nonneg_right hge hpow.le) hvalue

/-- Where the order of the number is that of the double, its last place is, too. -/
theorem lastPlace_eq_exponent {num den : ℕ} (hn : 0 < num) (hd : 0 < den)
    (hlt : (num / den : ℚ) < 2 ^ (53 + m.exponent))
    (hge : 0x20_0000_0000_0000 ≤ m.val → 2 ^ (52 + m.exponent) ≤ (num / den : ℚ)) :
    lastPlace num den = m.exponent := by
  have hpos : (0 : ℚ) < num / den := by positivity
  have hlog := (Int.lt_zpow_iff_log_lt one_lt_two hpos).mp (by exact_mod_cast hlt)
  have hexp := m.exponent_ge
  rw [lastPlace_eq hn hd]
  rcases lt_or_ge m.val 0x20_0000_0000_0000 with h | h
  · have : m.exponent = -1074 := by
      rcases lt_or_ge m.val 0x10_0000_0000_0000 with h' | h'
      · exact exponent_of_lt h'
      · rw [exponent_of_le h']
        omega
    omega
  · have := (Int.zpow_le_iff_le_log one_lt_two hpos).mp (by exact_mod_cast hge h)
    omega

/-- Below a power of two the places are half as large. -/
theorem lastPlace_eq_pred {num den : ℕ} (hn : 0 < num) (hd : 0 < den)
    (hnarrow : m.narrowBelow = true) (h : m.Attracts (num / den))
    (hlt : (num / den : ℚ) < m.value) : lastPlace num den = m.exponent - 1 := by
  have hmant := mantissa_of_narrow hnarrow
  have hexp : -1073 ≤ m.exponent := by
    have hle := (narrowBelow_iff.mp hnarrow).2
    rw [exponent_of_le (by omega)]
    omega
  have hpos : (0 : ℚ) < num / den := by positivity
  have hpow : (0 : ℚ) < 2 ^ m.exponent := by positivity
  have hlog := (Int.lt_zpow_iff_log_lt one_lt_two (x := 52 + m.exponent) hpos).mp (by
    rw [value, hmant] at hlt
    rw [zpow_add₀ (by norm_num)]
    exact_mod_cast hlt)
  have hge := (Int.zpow_le_iff_le_log one_lt_two (x := 51 + m.exponent) hpos).mp (by
    refine le_trans ?_ h.low_le
    rw [hmant, zpow_add₀ (by norm_num)]
    exact mul_le_mul_of_nonneg_right (by norm_num) hpow.le)
  rw [lastPlace_eq hn hd]
  omega

/-- The bits of a power of two one place further down. -/
theorem pred_exponent_mul_add_mantissa (hnarrow : m.narrowBelow = true) :
    (m.exponent - 1 + 1074).toNat * 0x10_0000_0000_0000 + 2 * m.mantissa = m.val := by
  obtain ⟨hmod, hle⟩ := narrowBelow_iff.mp hnarrow
  have hdiv := Nat.div_add_mod m.val 0x10_0000_0000_0000
  rw [mantissa_of_le (by omega), exponent_of_le (by omega), hmod]
  rw [hmod] at hdiv
  generalize m.val / 0x10_0000_0000_0000 = q at *
  generalize m.val = bits at *
  omega

/-- A ratio among the numbers that a double attracts rounds to it. -/
theorem Attracts.ofRatio? {num den : ℕ} (h : m.Attracts (num / den)) (hm : 0 < m.val)
    (hd : 0 < den) : Magnitude.ofRatio? num den = some m := by
  have hn : 0 < num := by
    apply Nat.pos_of_ne_zero
    rintro rfl
    simpa using h.pos hm
  obtain ⟨k, n, hk, hround, hbits⟩ : ∃ (k : ℤ) (n : ℕ), lastPlace num den = k ∧
      roundDiv .even (num <<< (-k).toNat) (den <<< k.toNat) = n ∧
      (k + 1074).toNat * 0x10_0000_0000_0000 + n = m.val := by
    by_cases hbelow : m.narrowBelow = true ∧ (num / den : ℚ) < m.value
    · -- One place further down the double above is twice its mantissa.
      obtain ⟨hnarrow, hlt⟩ := hbelow
      have hmant := mantissa_of_narrow hnarrow
      have hhalf : (2 : ℚ) ^ m.exponent = 2 * 2 ^ (m.exponent - 1) := by
        rw [zpow_sub_one₀ two_ne_zero]
        ring
      have hreach : m.reachBelow = 1 / 4 := if_pos hnarrow
      have hlow := h.low
      rw [hreach, hhalf] at hlow
      have hplace := lastPlace_eq_pred hn hd hnarrow h hlt
      rw [value, hhalf] at hlt
      refine ⟨m.exponent - 1, 2 * m.mantissa, hplace, ?_, pred_exponent_mul_add_mantissa hnarrow⟩
      apply roundDiv_scaled hd
      · push_cast
        refine hlow.imp (fun h => ?_) (fun h => ⟨by omega, ?_⟩)
        · linarith
        · linarith
      · left
        push_cast
        have : (0 : ℚ) < 2 ^ (m.exponent - 1) := by positivity
        linarith
    · rw [not_and_or, Bool.not_eq_true, not_lt] at hbelow
      refine ⟨m.exponent, m.mantissa, ?_, ?_, m.exponent_mul_add_mantissa⟩
      · exact lastPlace_eq_exponent hn hd h.lt fun hval => h.le_of_wide hval hbelow
      · apply roundDiv_scaled hd _ _ h.high
        rcases hbelow with hnarrow | hvalue
        · have hreach : m.reachBelow = 1 / 2 := if_neg (by simp [hnarrow])
          exact hreach ▸ h.low
        · have hpow : (0 : ℚ) < 2 ^ m.exponent := by positivity
          refine .inl (lt_of_lt_of_le ?_ hvalue)
          exact mul_lt_mul_of_pos_right (by linarith) hpow
  unfold Magnitude.ofRatio?
  rw [if_neg hn.ne']
  simp only [hk, hround, hbits]
  rw [dif_pos m.isLt]

end Magnitude

end CampusQuery
