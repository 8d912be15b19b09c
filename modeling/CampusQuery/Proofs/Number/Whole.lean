import CampusQuery.Proofs.Number.Exact

namespace CampusQuery

namespace Magnitude

theorem value_zero : zero.value = 0 := by
  rw [value, show zero.mantissa = 0 from rfl, Nat.cast_zero, zero_mul]

/-- The double of a whole number has the number shifted up to fifty-three bits as its mantissa. -/
theorem exists_value_eq {n : ℕ} (h : n < 2 ^ 53) : ∃ m : Magnitude, m.value = n := by
  rcases Nat.eq_zero_or_pos n with rfl | hn
  · exact ⟨zero, value_zero⟩
  have hlow := Nat.log2_self_le hn.ne'
  have hhigh : n < 2 ^ (n.log2 + 1) := Nat.lt_log2_self
  have hlog : n.log2 < 53 := (Nat.log2_lt hn.ne').mpr h
  generalize n.log2 = e at *
  have hpow : 2 ^ e * 2 ^ (52 - e) = 2 ^ 52 := by
    rw [← pow_add]
    congr 1
    omega
  have hmant_low : 2 ^ 52 ≤ n * 2 ^ (52 - e) := hpow ▸ Nat.mul_le_mul_right _ hlow
  have hmant_high : n * 2 ^ (52 - e) < 2 ^ 53 := by
    have := Nat.mul_lt_mul_of_pos_right hhigh (Nat.two_pow_pos (52 - e))
    rw [pow_succ, mul_right_comm, hpow] at this
    omega
  generalize hmant : n * 2 ^ (52 - e) = mant at *
  have hbits : (e + 1022) * 0x10_0000_0000_0000 + mant < 0x7ff0_0000_0000_0000 := by omega
  obtain ⟨m, hval⟩ : ∃ m : Magnitude, m.val = (e + 1022) * 0x10_0000_0000_0000 + mant :=
    ⟨⟨_, hbits⟩, rfl⟩
  have hnormal : 0x10_0000_0000_0000 ≤ m.val := by omega
  have hmantissa : m.mantissa = mant := by
    rw [mantissa_of_le hnormal, hval]
    omega
  have hexponent : m.exponent = -(52 - e : ℕ) := by
    rw [exponent_of_le hnormal, hval]
    omega
  refine ⟨m, ?_⟩
  rw [value, hmantissa, hexponent, ← hmant, zpow_neg, zpow_natCast]
  push_cast
  field_simp

end Magnitude

namespace Binary64

variable {n : ℤ} {s : Bool} {m : Magnitude}

theorem toInt?_of_value {n : ℕ} (h : m.value = n) :
    (finite s m).toInt? = some (if s then -(n : ℤ) else n) := by
  have hden : (m.den : ℚ) ≠ 0 := by exact_mod_cast m.den_pos.ne'
  have hnum : m.num = n * m.den := by
    rw [m.value_eq_div, div_eq_iff hden] at h
    exact_mod_cast h
  simp only [toInt?, hnum, Nat.mul_mod_left, if_true, Nat.mul_div_cancel _ m.den_pos]

theorem value_of_toInt? (h : (finite s m).toInt? = some n) : m.value = n.natAbs := by
  have hden : (m.den : ℚ) ≠ 0 := by exact_mod_cast m.den_pos.ne'
  simp only [toInt?] at h
  split at h
  · rename_i hmod
    have hquot : m.num / m.den = n.natAbs := by
      have hn := Option.some.inj h
      generalize m.num / m.den = q at hn ⊢
      split at hn <;> omega
    have hnum : m.num = n.natAbs * m.den := by
      rw [← hquot, Nat.div_mul_cancel (Nat.dvd_of_mod_eq_zero hmod)]
    rw [m.value_eq_div, div_eq_iff hden]
    exact_mod_cast hnum
  · cases h

theorem ofRatio_of_value {n : ℕ} (h : m.value = n) : ofRatio s n 1 = finite s m := by
  by_cases hm : m = .zero
  · rw [hm, Magnitude.value_zero] at h
    obtain rfl : n = 0 := by exact_mod_cast h.symm
    rw [hm]
    rfl
  · have hpos : 0 < m.val := Nat.pos_of_ne_zero fun hval => hm (Fin.ext hval)
    exact ofRatio_eq hpos s one_pos (by simpa using h.symm)

theorem toInt?_neg {x : Binary64} (h : x.toInt? = some n) : x.neg.toInt? = some (-n) := by
  cases x with
  | infinite s => cases h
  | quietNaN s p => cases h
  | finite s m =>
    have hvalue := value_of_toInt? h
    rw [toInt?_of_value hvalue, Option.some.injEq] at h
    rw [neg, toInt?_of_value hvalue, ← h]
    cases s <;> simp

/-- A whole number as a double is a whole number again. -/
theorem toInt?_ofInt {n : ℤ} (h : n.natAbs < 2 ^ 53) : (ofInt n).toInt? = some n := by
  obtain ⟨m, hm⟩ := Magnitude.exists_value_eq h
  rw [ofInt, ofRatio_of_value hm, toInt?_of_value hm]
  congr 1
  by_cases hneg : n < 0
  · rw [if_pos (decide_eq_true hneg)]
    omega
  · rw [if_neg (by simpa using hneg)]
    omega

theorem toInt?_ofNat {n : ℕ} (h : n < 2 ^ 53) : (ofNat n).toInt? = some (n : ℤ) := by
  obtain ⟨m, hm⟩ := Magnitude.exists_value_eq h
  rw [ofNat, ofRatio_of_value hm, toInt?_of_value hm, if_neg Bool.false_ne_true]

end Binary64

end CampusQuery
