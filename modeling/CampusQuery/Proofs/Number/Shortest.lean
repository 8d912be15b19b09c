import CampusQuery.Proofs.Number.Interval
import Mathlib.Data.Nat.Digits.Lemmas

namespace CampusQuery

theorem ten_zpow_eq (k : ℤ) : (10 : ℚ) ^ k = (10 ^ k.toNat : ℕ) / (10 ^ (-k).toNat : ℕ) := by
  obtain ⟨n, rfl | rfl⟩ := Int.eq_nat_or_neg k <;> simp

namespace Decimal

def value (d : Decimal) : ℚ := d.digits * 10 ^ d.exponent

theorem value_nonneg (d : Decimal) : 0 ≤ d.value :=
  mul_nonneg d.digits.cast_nonneg (zpow_nonneg (by norm_num) _)

theorem value_stripZeros (fuel : ℕ) (d : Decimal) : (d.stripZeros fuel).value = d.value := by
  induction fuel generalizing d with
  | zero => rfl
  | succ fuel ih =>
    unfold stripZeros
    split
    · rename_i h
      have hdigits : d.digits = d.digits / 10 * 10 := by omega
      rw [ih, value, value, zpow_add_one₀ (by norm_num)]
      conv_rhs => rw [hdigits]
      push_cast
      ring
    · rfl

theorem exponent_le_stripZeros (fuel : ℕ) (d : Decimal) :
    d.exponent ≤ (d.stripZeros fuel).exponent := by
  induction fuel generalizing d with
  | zero => exact le_rfl
  | succ fuel ih =>
    unfold stripZeros
    split
    · exact (Int.le_add_one le_rfl).trans (ih _)
    · exact le_rfl

/-- A whole number keeps no place behind the point when its zeros are dropped. -/
theorem exponent_stripZeros_nonneg {fuel : ℕ} {d : Decimal} {n : ℕ} (hn : 0 < n)
    (hvalue : d.value = n) (hfuel : 0 ≤ d.exponent + fuel) :
    0 ≤ (d.stripZeros fuel).exponent := by
  induction fuel generalizing d with
  | zero => simpa [stripZeros] using hfuel
  | succ fuel ih =>
    unfold stripZeros
    split
    · rename_i h
      apply ih
      · rw [← hvalue, ← value_stripZeros 1 d, stripZeros, if_pos h, stripZeros]
      · push_cast at hfuel ⊢
        omega
    · rename_i h
      -- A whole number with places behind the point ends in a zero, which would be dropped.
      by_contra hneg
      apply h
      have hdigits : d.digits = n * 10 ^ (-d.exponent).toNat := by
        have hpow : ((10 ^ (-d.exponent).toNat : ℕ) : ℚ) ≠ 0 := by positivity
        rw [value, ten_zpow_eq, show d.exponent.toNat = 0 by omega] at hvalue
        field_simp at hvalue
        have hmul : (d.digits : ℚ) = n * (10 ^ (-d.exponent).toNat : ℕ) := by
          rw [mul_comm]
          simpa using hvalue
        exact_mod_cast hmul
      obtain ⟨k, hk⟩ : ∃ k, (-d.exponent).toNat = k + 1 := ⟨(-d.exponent).toNat - 1, by omega⟩
      rw [hdigits, hk, pow_succ, ← mul_assoc]
      constructor
      · positivity
      · exact Nat.mul_mod_left _ _

end Decimal

namespace Magnitude

theorem compareScaled_eq (a : ℕ) (i : ℤ) (n : ℕ) (j : ℤ) :
    compareScaled a i n j = compare (a * 10 ^ i : ℚ) (n * 2 ^ j) := by
  have hpos : (0 : ℚ) < (2 ^ (-j).toNat : ℕ) * (10 ^ (-i).toNat : ℕ) := by positivity
  have htwo : ((2 ^ (-j).toNat : ℕ) : ℚ) ≠ 0 := by positivity
  have hten : ((10 ^ (-i).toNat : ℕ) : ℚ) ≠ 0 := by positivity
  have hleft : (a * 10 ^ i : ℚ) * ((2 ^ (-j).toNat : ℕ) * (10 ^ (-i).toNat : ℕ)) =
      ((a * Nat.pow 10 i.toNat) <<< (-j).toNat : ℕ) := by
    rw [ten_zpow_eq, Nat.shiftLeft_eq, Nat.pow_eq, Nat.cast_mul, Nat.cast_mul]
    field_simp
  have hright : (n * 2 ^ j : ℚ) * ((2 ^ (-j).toNat : ℕ) * (10 ^ (-i).toNat : ℕ)) =
      (n <<< j.toNat * Nat.pow 10 (-i).toNat : ℕ) := by
    rw [two_zpow_eq, Nat.shiftLeft_eq, Nat.pow_eq, Nat.cast_mul, Nat.cast_mul]
    field_simp
  rw [compareScaled, ← cmp_eq_compare, ← cmp_eq_compare, ← cmp_mul_pos_right hpos, hleft, hright]
  exact (Nat.strictMono_cast.cmp_map_eq _ _).symm

variable {m : Magnitude} {v : ℚ}

/-- The ends of the interval in quarters of a place. -/
theorem reads_low (hm : 0 < m.val) :
    ((4 * m.mantissa - if m.narrowBelow then 1 else 2 : ℕ) : ℚ) * 2 ^ (m.exponent - 2) =
      (m.mantissa - m.reachBelow) * 2 ^ m.exponent := by
  have := mantissa_pos hm
  rw [zpow_sub₀ two_ne_zero, reachBelow, Nat.cast_sub (by split <;> omega)]
  split
  all_goals
    push_cast
    ring

theorem reads_high :
    ((4 * m.mantissa + 2 : ℕ) : ℚ) * 2 ^ (m.exponent - 2) = (m.mantissa + 1 / 2) * 2 ^ m.exponent := by
  rw [zpow_sub₀ two_ne_zero]
  push_cast
  ring

theorem readsBack_iff (hm : 0 < m.val) (d : Decimal) :
    m.readsBack d = true ↔ m.Attracts d.value := by
  simp only [readsBack, compareScaled_eq, reads_low hm, reads_high, Bool.and_eq_true, Bool.or_eq_true,
    beq_iff_eq, compare_gt_iff_gt, compare_eq_iff_eq, compare_lt_iff_lt]
  constructor
  · rintro ⟨hlow, hhigh⟩
    exact ⟨hlow.imp_right (And.imp_right Eq.symm), hhigh⟩
  · rintro ⟨hlow, hhigh⟩
    exact ⟨hlow.imp_right (And.imp_right Eq.symm), hhigh⟩

theorem value_exactDecimal (m : Magnitude) : m.exactDecimal.value = m.value := by
  unfold exactDecimal
  split
  · rename_i h
    rw [value_eq_div, den, show (-m.exponent).toNat = 0 by omega, Decimal.value]
    simp
  · rename_i h
    have hten : 10 ^ (-m.exponent).toNat = 5 ^ (-m.exponent).toNat * 2 ^ (-m.exponent).toNat :=
      mul_pow 5 2 _
    rw [Decimal.value, value, Nat.pow_eq, ten_zpow_eq, two_zpow_eq,
      show m.exponent.toNat = 0 by omega, hten, Nat.cast_mul, Nat.cast_mul]
    field_simp
    simp

/-- A hit is one of the two neighbours on its grid, and it reads back. -/
theorem of_gridHit? {tie : Tie} {g : ℤ} {d : Decimal} (h : m.gridHit? tie g = some d) :
    m.readsBack d = true ∧ d.exponent = g := by
  unfold gridHit? at h
  simp only at h
  split at h
  · rename_i hlow hhigh
    have hlow := (Bool.and_eq_true_iff.mp hlow).2
    split at h
    · obtain rfl := Option.some.inj h
      exact ⟨hlow, rfl⟩
    · obtain rfl := Option.some.inj h
      exact ⟨hhigh, rfl⟩
    · obtain rfl := Option.some.inj h
      split
      · exact ⟨hlow, rfl⟩
      · exact ⟨hhigh, rfl⟩
  · rename_i hlow hhigh
    obtain rfl := Option.some.inj h
    exact ⟨(Bool.and_eq_true_iff.mp hlow).2, rfl⟩
  · rename_i hlow hhigh
    obtain rfl := Option.some.inj h
    exact ⟨hhigh, rfl⟩
  · nomatch h

theorem shortest_of_zero {tie : Tie} (hm : m.val = 0) : m.shortest tie = ⟨0, 0⟩ := if_pos hm

/-- The shortest digits before their zeros are dropped: a hit on one of the grids or all digits. -/
theorem shortest_cases (tie : Tie) (hm : 0 < m.val) :
    ∃ d : Decimal, m.shortest tie = d.stripZeros 400 ∧
      ((∃ n : ℕ, n < 17 ∧ m.gridHit? tie (m.decimalScale - n - 1) = some d) ∨ d = m.exactDecimal) := by
  unfold shortest
  rw [if_neg hm.ne']
  refine ⟨_, rfl, ?_⟩
  cases hhit : (List.range 17).findSome? fun (n : ℕ) => m.gridHit? tie (m.decimalScale - n - 1) with
  | none => exact .inr rfl
  | some d =>
    obtain ⟨n, hn, hd⟩ := List.exists_of_findSome?_eq_some hhit
    exact .inl ⟨n, List.mem_range.mp hn, hd⟩

/-- The shortest digits round to the double they are made from. -/
theorem attracts_shortest (tie : Tie) (hm : 0 < m.val) : m.Attracts (m.shortest tie).value := by
  obtain ⟨d, hd, ⟨n, -, hhit⟩ | rfl⟩ := shortest_cases tie hm
  · rw [hd, Decimal.value_stripZeros, ← readsBack_iff hm]
    exact (of_gridHit? hhit).1
  · rw [hd, Decimal.value_stripZeros, value_exactDecimal]
    exact m.attracts_value

/-- A decimal without places behind the point that rounds to a whole number is this number. -/
theorem Attracts.eq_of_whole {n k : ℕ} (h : m.Attracts k) (hvalue : m.value = n)
    (hexp : m.exponent ≤ 0) : k = n := by
  have hpow : (2 : ℚ) ^ m.exponent ≤ 1 := zpow_le_one_of_nonpos₀ one_le_two hexp
  have hlow := h.low_le
  have hhigh := h.le_high
  rw [sub_mul, ← value, hvalue] at hlow
  rw [add_mul, ← value, hvalue] at hhigh
  have hle : k < n + 1 := by
    have : (k : ℚ) < (n + 1 : ℕ) := by
      push_cast
      linarith
    exact_mod_cast this
  have hge : n < k + 1 := by
    have : (n : ℚ) < (k + 1 : ℕ) := by
      push_cast
      linarith
    exact_mod_cast this
  omega

/-- On a grid behind the point a whole number is a grid point. -/
theorem gridHit?_of_whole (tie : Tie) (hm : 0 < m.val) {n : ℕ} (hvalue : m.value = n) {g : ℤ}
    (hg : g < 0) : m.gridHit? tie g = some ⟨n * 10 ^ (-g).toNat, g⟩ := by
  have hden : (m.den : ℚ) ≠ 0 := by exact_mod_cast m.den_pos.ne'
  have hn : 0 < n := by exact_mod_cast hvalue ▸ value_pos hm
  have hnum : m.num = n * m.den := by
    rw [value_eq_div, div_eq_iff hden] at hvalue
    exact_mod_cast hvalue
  have hfloor : m.gridFloor g = n * 10 ^ (-g).toNat := by
    rw [gridFloor, hnum, show g.toNat = 0 by omega, mul_right_comm, Nat.pow_eq, Nat.pow_eq, pow_zero,
      mul_one, Nat.mul_div_cancel _ m.den_pos]
  have hscale : ((n * 10 ^ (-g).toNat : ℕ) : ℚ) * 10 ^ g = n := by
    rw [ten_zpow_eq, show g.toNat = 0 by omega]
    push_cast
    field_simp
  have hlow : m.readsBack ⟨n * 10 ^ (-g).toNat, g⟩ = true := by
    rw [readsBack_iff hm, Decimal.value, hscale, ← hvalue]
    exact m.attracts_value
  -- The number is on the grid, so it lies below the middle between this point and the next.
  have hbefore : compareScaled (2 * (n * 10 ^ (-g).toNat) + 1) g (2 * m.mantissa) m.exponent =
      .gt := by
    have hten : (0 : ℚ) < 10 ^ g := by positivity
    have htwice : ((2 * m.mantissa : ℕ) : ℚ) * 2 ^ m.exponent = 2 * n := by
      rw [← hvalue, value]
      push_cast
      ring
    rw [compareScaled_eq, compare_gt_iff_gt, htwice, Nat.cast_add, Nat.cast_mul, add_mul, mul_assoc,
      hscale]
    push_cast
    linarith
  have hne : n * 10 ^ (-g).toNat ≠ 0 := by positivity
  unfold gridHit?
  simp only [hfloor, hlow, hne, hbefore, decide_true, Bool.and_self, ne_eq, not_false_eq_true]
  split
  · rfl
  · rfl
  · simp_all
  · simp_all

/-- The search for the scale begins at a lower estimate and goes upwards. -/
theorem le_decimalScale (m : Magnitude) :
    (m.mantissa.log2 + m.exponent) * 30103 / 100000 - 1 ≤ m.decimalScale := by
  unfold decimalScale
  simp only
  generalize (m.mantissa.log2 + m.exponent) * 30103 / 100000 - 1 = start
  generalize hfind : List.find? _ _ = found
  cases found with
  | none =>
    rw [Option.getD_none]
    omega
  | some k =>
    obtain ⟨i, -, rfl⟩ := List.mem_map.mp (List.mem_of_find?_eq_some hfind)
    rw [Option.getD_some]
    omega

/-- From one on, the first scale that is tried is at most a tenth. -/
theorem decimalScale_ge_of_one_le (h : 1 ≤ m.value) : -1 ≤ m.decimalScale := by
  have hsize : 0 ≤ m.mantissa.log2 + m.exponent := by
    by_contra hneg
    have hpow : (0 : ℚ) < 2 ^ m.exponent := by positivity
    have hmant : (m.mantissa : ℚ) < 2 ^ ((m.mantissa.log2 + 1 : ℕ) : ℤ) := by
      exact_mod_cast Nat.lt_log2_self
    have hle : (2 : ℚ) ^ (((m.mantissa.log2 + 1 : ℕ) : ℤ) + m.exponent) ≤ 1 :=
      zpow_le_one_of_nonpos₀ one_le_two (by push_cast; omega)
    have := mul_lt_mul_of_pos_right hmant hpow
    rw [← value, ← zpow_add₀ two_ne_zero] at this
    linarith
  have := m.le_decimalScale
  omega

theorem exponent_ge_of_one_le (hm : 0 < m.val) (h : 1 ≤ m.value) : -52 ≤ m.exponent := by
  have hlog : 0 ≤ Int.log 2 m.value :=
    (Int.zpow_le_iff_le_log one_lt_two (value_pos hm)).mp (by simpa using h)
  rw [exponent_eq hm]
  omega

/-- The last place of a whole number that doubles tell from its neighbours is at most the units. -/
theorem exponent_le_of_whole (hm : 0 < m.val) {n : ℕ} (hvalue : m.value = n) (hlt : n < 2 ^ 53) :
    m.exponent ≤ 0 := by
  have hupper : m.value < 2 ^ (53 : ℤ) := by
    rw [hvalue]
    exact_mod_cast hlt
  have hlog_lt : Int.log 2 m.value < 53 :=
    (Int.lt_zpow_iff_log_lt one_lt_two (value_pos hm)).mp hupper
  rw [exponent_eq hm]
  omega

/-- Behind the point a whole number is hit exactly. -/
theorem value_of_gridHit?_of_neg {tie : Tie} (hm : 0 < m.val) {n : ℕ} (hvalue : m.value = n) {g : ℤ}
    {d : Decimal} (h : m.gridHit? tie g = some d) (hneg : d.exponent < 0) : d.value = n := by
  obtain rfl := (of_gridHit? h).2
  rw [gridHit?_of_whole tie hm hvalue hneg] at h
  rw [← Option.some.inj h, Decimal.value, ten_zpow_eq, show d.exponent.toNat = 0 by omega]
  push_cast
  field_simp

/-- A point of the grid that reads back as a whole number is this number. -/
theorem value_of_gridHit?_of_whole {tie : Tie} (hm : 0 < m.val) {n : ℕ} (hvalue : m.value = n)
    (hexp : m.exponent ≤ 0) {g : ℤ} {d : Decimal} (h : m.gridHit? tie g = some d) :
    d.value = n := by
  rcases lt_or_ge d.exponent 0 with hneg | hnonneg
  · exact value_of_gridHit?_of_neg hm hvalue h hneg
  · have hreads := (of_gridHit? h).1
    have hcast : d.value = (d.digits * 10 ^ d.exponent.toNat : ℕ) := by
      rw [Decimal.value, ten_zpow_eq, show (-d.exponent).toNat = 0 by omega]
      simp
    rw [readsBack_iff hm, hcast] at hreads
    rw [hcast, hreads.eq_of_whole hvalue hexp]

/-- The digits of a whole number have no place behind the point. -/
theorem exponent_shortest_nonneg (tie : Tie) (hm : 0 < m.val) {n : ℕ} (hvalue : m.value = n) :
    0 ≤ (m.shortest tie).exponent := by
  have hn : 0 < n := by exact_mod_cast hvalue ▸ value_pos hm
  have hone : 1 ≤ m.value := by
    rw [hvalue]
    exact_mod_cast hn
  obtain ⟨d, hd, hcases⟩ := shortest_cases tie hm
  rw [hd]
  rcases le_or_gt 0 d.exponent with hnonneg | hneg
  · exact hnonneg.trans (d.exponent_le_stripZeros 400)
  · have hdecimal : d.value = n ∧ -400 ≤ d.exponent := by
      rcases hcases with ⟨i, hi, hhit⟩ | rfl
      · refine ⟨value_of_gridHit?_of_neg hm hvalue hhit hneg, ?_⟩
        have hscale := decimalScale_ge_of_one_le hone
        rw [(of_gridHit? hhit).2]
        omega
      · refine ⟨m.value_exactDecimal.trans hvalue, ?_⟩
        unfold exactDecimal
        split
        · norm_num
        · exact (by norm_num : (-400 : ℤ) ≤ -52).trans (exponent_ge_of_one_le hm hone)
    refine Decimal.exponent_stripZeros_nonneg hn hdecimal.1 ?_
    have := hdecimal.2
    push_cast
    omega

/-- The digits of a whole number that doubles tell from its neighbours are its own. -/
theorem shortest_of_whole (tie : Tie) (hm : 0 < m.val) {n : ℕ} (hvalue : m.value = n)
    (hlt : n < 2 ^ 53) : (m.shortest tie).value = n ∧ 0 ≤ (m.shortest tie).exponent := by
  refine ⟨?_, exponent_shortest_nonneg tie hm hvalue⟩
  obtain ⟨d, hd, ⟨i, -, hhit⟩ | rfl⟩ := shortest_cases tie hm
  · rw [hd, Decimal.value_stripZeros]
    exact value_of_gridHit?_of_whole hm hvalue (exponent_le_of_whole hm hvalue hlt) hhit
  · rw [hd, Decimal.value_stripZeros, value_exactDecimal, hvalue]

/-- What rounds to a double other than zero lies between the powers of ten past which a decimal is
taken for zero or infinite unseen. -/
theorem Attracts.bounds (hm : 0 < m.val) (h : m.Attracts v) :
    (10 : ℚ) ^ (-330 : ℤ) < v ∧ v < 10 ^ (320 : ℤ) := by
  have hexp := m.exponent_ge
  have hexp' := m.exponent_le
  constructor
  · have hmant : (1 : ℚ) ≤ m.mantissa := by exact_mod_cast mantissa_pos hm
    have hpow : (0 : ℚ) < 2 ^ m.exponent := by positivity
    have hten : (2 ^ 1075 : ℚ) < 10 ^ 330 := by
      exact_mod_cast (by decide +kernel : 2 ^ 1075 < 10 ^ 330)
    calc (10 : ℚ) ^ (-330 : ℤ) = (10 ^ 330)⁻¹ := zpow_neg_coe_of_pos 10 (by norm_num)
      _ < (2 ^ 1075)⁻¹ := inv_strictAnti₀ (by positivity) hten
      _ = 2 ^ (-1075 : ℤ) := (zpow_neg_coe_of_pos 2 (by norm_num)).symm
      _ ≤ 2 ^ (m.exponent - 1) := zpow_le_zpow_right₀ one_le_two (by omega)
      _ = 1 / 2 * 2 ^ m.exponent := by rw [zpow_sub_one₀ two_ne_zero, mul_comm, one_div]
      _ ≤ (m.mantissa - 1 / 2) * 2 ^ m.exponent :=
        mul_le_mul_of_nonneg_right (by linarith) hpow.le
      _ ≤ v := h.low_le
  · have hten : (2 ^ 1024 : ℚ) < 10 ^ 320 := by
      exact_mod_cast (by decide +kernel : 2 ^ 1024 < 10 ^ 320)
    calc v < 2 ^ (53 + m.exponent) := h.lt
      _ ≤ 2 ^ (1024 : ℤ) := zpow_le_zpow_right₀ one_le_two (by omega)
      _ < 10 ^ (320 : ℤ) := by exact_mod_cast hten

/-- The number of digits bounds a number on both sides. -/
theorem pow_length_toDigits {n : ℕ} (hn : n ≠ 0) :
    (10 : ℚ) ^ ((Nat.toDigits 10 n).length - 1 : ℤ) ≤ n ∧
      (n : ℚ) < 10 ^ ((Nat.toDigits 10 n).length : ℤ) := by
  generalize hsize : (Nat.toDigits 10 n).length = size
  have hsize_pos : 0 < size := hsize ▸ Nat.length_toDigits_pos
  constructor
  · rcases Nat.lt_or_ge 1 size with hone | hone
    · have : ¬n < 10 ^ (size - 1) := by
        rw [← Nat.length_toDigits_le_iff (by norm_num) (by omega), hsize]
        omega
      rw [← Nat.cast_one, ← Nat.cast_sub hsize_pos]
      exact_mod_cast Nat.le_of_not_lt this
    · rw [show size = 1 by omega]
      simpa using Nat.one_le_iff_ne_zero.mpr hn
  · have := (Nat.length_toDigits_le_iff (by norm_num) hsize_pos).mp hsize.le
    exact_mod_cast this

/-- A decimal that rounds to a double is read as this double. -/
theorem Attracts.ofDecimal (neg : Bool) {digits : ℕ} {exponent : ℤ} (hm : 0 < m.val)
    (h : m.Attracts (digits * 10 ^ exponent)) :
    Binary64.ofDecimal neg digits exponent = .finite neg m := by
  obtain ⟨hlow, hhigh⟩ := h.bounds hm
  have hten : (0 : ℚ) < 10 ^ exponent := by positivity
  have hdigits : digits ≠ 0 := by
    rintro rfl
    simpa using h.pos hm
  obtain ⟨hge, hlt⟩ := pow_length_toDigits hdigits
  generalize hsize : (Nat.toDigits 10 digits).length = size at hge hlt
  -- Beyond these sizes the answer is given without a power; what rounds to `m` keeps to them.
  have hsmall : ¬(size + exponent < -330) := by
    intro hlt'
    have hle : (10 : ℚ) ^ (size + exponent : ℤ) ≤ 10 ^ (-330 : ℤ) :=
      zpow_le_zpow_right₀ (by norm_num) hlt'.le
    have := mul_lt_mul_of_pos_right hlt hten
    rw [← zpow_add₀ (by norm_num)] at this
    linarith
  have hlarge : ¬(320 < size + exponent) := by
    intro hlt'
    have hle : (10 : ℚ) ^ (320 : ℤ) ≤ 10 ^ (size - 1 + exponent : ℤ) :=
      zpow_le_zpow_right₀ (by norm_num) (by omega)
    have := mul_le_mul_of_nonneg_right hge hten.le
    rw [← zpow_add₀ (by norm_num)] at this
    linarith
  have hratio : m.Attracts ((digits * Nat.pow 10 exponent.toNat : ℕ) /
      (Nat.pow 10 (-exponent).toNat : ℕ)) := by
    rw [ten_zpow_eq, ← mul_div_assoc] at h
    exact_mod_cast h
  simp only [Binary64.ofDecimal, hsize, hdigits, hsmall, hlarge, false_or, if_false]
  rw [Binary64.ofRatio, hratio.ofRatio? hm (Nat.pow_pos (by norm_num))]

end Magnitude

end CampusQuery
