import CampusQuery.Proofs.Number.Shortest
import CampusQuery.Proofs.Number.Whole
import Mathlib

namespace CampusQuery

namespace Decimal

def size (d : Decimal) : ℕ := (Nat.toDigits 10 d.digits).length

theorem size_pos (d : Decimal) : 0 < d.size := Nat.length_toDigits_pos

theorem size_le_iff {d : Decimal} {n : ℕ} : d.size ≤ n + 1 ↔ d.digits < 10 ^ (n + 1) :=
  Nat.length_toDigits_le_iff (by norm_num) n.succ_pos

theorem size_div_ten_le (n : ℕ) (e e' : ℤ) : size ⟨n / 10, e⟩ ≤ size ⟨n, e'⟩ := by
  obtain ⟨s, hs⟩ : ∃ s, size ⟨n, e'⟩ = s + 1 := ⟨_, (Nat.sub_add_cancel (size_pos _)).symm⟩
  rw [hs, size_le_iff]
  exact (Nat.div_le_self n 10).trans_lt (size_le_iff.mp hs.le)

theorem size_stripZeros_le (d : Decimal) (fuel : ℕ) : (d.stripZeros fuel).size ≤ d.size := by
  induction fuel generalizing d with
  | zero => exact le_rfl
  | succ fuel ih =>
    unfold stripZeros
    split
    · exact (ih _).trans (size_div_ten_le _ _ _)
    · exact le_rfl

/-- A power of ten is left with one digit. -/
theorem size_stripZeros_of_pow {d : Decimal} {k fuel : ℕ} (h : d.digits = 10 ^ k) (hk : k ≤ fuel) :
    (d.stripZeros fuel).size = 1 := by
  induction k generalizing d fuel with
  | zero =>
    have hone : d.size ≤ 0 + 1 := size_le_iff.mpr (by rw [h]; norm_num)
    exact le_antisymm ((d.size_stripZeros_le fuel).trans hone) (size_pos _)
  | succ k ih =>
    obtain ⟨fuel, rfl⟩ : ∃ f, fuel = f + 1 := ⟨fuel - 1, by omega⟩
    rw [stripZeros, h, pow_succ, if_pos ⟨by positivity, Nat.mul_mod_left _ _⟩,
      Nat.mul_div_cancel _ (by norm_num)]
    exact ih rfl (by omega)

def next (d : Decimal) : Decimal := ⟨d.digits + 1, d.exponent⟩

theorem value_lt_next (d : Decimal) : d.value < d.next.value := by
  rw [value, value, next]
  gcongr
  exact_mod_cast d.digits.lt_succ_self

end Decimal

namespace Magnitude

variable {m : Magnitude} {u v w : ℚ} {g : ℤ} {tie : Tie}

theorem Attracts.between (hu : m.Attracts u) (hw : m.Attracts w) (huv : u ≤ v) (hvw : v ≤ w) :
    m.Attracts v where
  low := by
    rcases huv.eq_or_lt with rfl | hlt
    · exact hu.low
    · exact .inl (hu.low.elim (·.trans hlt) fun h => h.2.trans_lt hlt)
  high := by
    rcases hvw.eq_or_lt with rfl | hlt
    · exact hw.high
    · exact .inl (hw.high.elim hlt.trans fun h => hlt.trans_eq h.2)

theorem gridFloor_eq (m : Magnitude) (g : ℤ) : m.gridFloor g = ⌊m.value / 10 ^ g⌋₊ := by
  have hratio : m.value / 10 ^ g =
      (m.num * 10 ^ (-g).toNat : ℕ) / (m.den * 10 ^ g.toNat : ℕ) := by
    rw [value_eq_div, ten_zpow_eq, div_div_div_eq]
    push_cast
    rfl
  rw [gridFloor, hratio, Nat.floor_div_eq_div, Nat.pow_eq, Nat.pow_eq]

theorem gridFloor_mul_le (m : Magnitude) (g : ℤ) : (m.gridFloor g * 10 ^ g : ℚ) ≤ m.value := by
  have hten : (0 : ℚ) < 10 ^ g := by positivity
  rw [← le_div_iff₀ hten, gridFloor_eq]
  exact Nat.floor_le (div_nonneg (value_eq_div m ▸ by positivity) hten.le)

theorem lt_gridFloor_add_one_mul (m : Magnitude) (g : ℤ) :
    m.value < (m.gridFloor g + 1) * 10 ^ g := by
  have hten : (0 : ℚ) < 10 ^ g := by positivity
  rw [← div_lt_iff₀ hten, gridFloor_eq]
  exact Nat.lt_floor_add_one _

def below (m : Magnitude) (g : ℤ) : Decimal := ⟨m.gridFloor g, g⟩

theorem value_below_le (m : Magnitude) (g : ℤ) : (m.below g).value ≤ m.value :=
  m.gridFloor_mul_le g

theorem value_next_below (m : Magnitude) (g : ℤ) :
    (m.below g).next.value = (m.gridFloor g + 1) * 10 ^ g := by
  rw [Decimal.value, Decimal.next, Nat.cast_add_one]
  rfl

theorem lt_value_next_below (m : Magnitude) (g : ℤ) : m.value < (m.below g).next.value :=
  m.value_next_below g ▸ m.lt_gridFloor_add_one_mul g

def Touches (m : Magnitude) (g : ℤ) : Prop := ∃ n : ℕ, m.Attracts (n * 10 ^ g)

/-- If any point of a grid rounds to a double, one of its neighbours does. -/
theorem touches_iff : m.Touches g ↔
    m.Attracts (m.below g).value ∨ m.Attracts (m.below g).next.value := by
  constructor
  · rintro ⟨n, hn⟩
    rcases Nat.lt_or_ge (m.gridFloor g) n with h | h
    · refine .inr (m.attracts_value.between hn (m.lt_value_next_below g).le ?_)
      rw [value_next_below]
      gcongr
      exact_mod_cast h
    · refine .inl (hn.between m.attracts_value ?_ (m.value_below_le g))
      rw [Decimal.value, below]
      gcongr
  · rintro (h | h)
    · exact ⟨_, h⟩
    · exact ⟨_, h⟩

/-- Both neighbours on the grid round to `m`, which lies halfway between them. -/
structure Halfway (m : Magnitude) (g : ℤ) : Prop where
  low : m.Attracts (m.below g).value
  high : m.Attracts (m.below g).next.value
  value : m.value = (m.gridFloor g + 1 / 2) * 10 ^ g

/-- The middle between the two neighbours on the grid, compared by the search in halves. -/
theorem compareScaled_middle (m : Magnitude) (g : ℤ) :
    compareScaled (2 * m.gridFloor g + 1) g (2 * m.mantissa) m.exponent =
      compare ((m.gridFloor g + 1 / 2) * 10 ^ g : ℚ) m.value := by
  have hmiddle : ((2 * m.gridFloor g + 1 : ℕ) * 10 ^ g : ℚ) =
      2 * ((m.gridFloor g + 1 / 2) * 10 ^ g) := by
    push_cast
    ring
  have hvalue : ((2 * m.mantissa : ℕ) * 2 ^ m.exponent : ℚ) = 2 * m.value := by
    rw [value]
    push_cast
    ring
  rw [compareScaled_eq, hmiddle, hvalue, ← cmp_eq_compare, cmp_mul_pos_left two_pos, cmp_eq_compare]

theorem gridHit?_eq (hm : 0 < m.val) (tie : Tie) (g : ℤ) : m.gridHit? tie g =
    match m.readsBack (m.below g), m.readsBack (m.below g).next with
    | true, true =>
      match compare ((m.gridFloor g + 1 / 2) * 10 ^ g : ℚ) m.value with
      | .gt => some (m.below g)
      | .lt => some (m.below g).next
      | .eq => some (if tie = .even ∧ m.gridFloor g % 2 = 0 then m.below g else (m.below g).next)
    | true, false => some (m.below g)
    | false, true => some (m.below g).next
    | false, false => none := by
  -- Zero does not read back, so the search need not look for it.
  have hzero : (decide (m.gridFloor g ≠ 0) && m.readsBack ⟨m.gridFloor g, g⟩) =
      m.readsBack ⟨m.gridFloor g, g⟩ := by
    rw [Bool.and_eq_right_iff_imp, readsBack_iff hm]
    intro h
    apply decide_eq_true
    intro hfloor
    have hpos := h.pos hm
    rw [Decimal.value, hfloor, Nat.cast_zero, zero_mul] at hpos
    exact hpos.false
  simp only [gridHit?, hzero, compareScaled_middle]
  rfl

section Hit

variable (hm : 0 < m.val)

include hm

theorem exists_gridHit?_iff : (∃ d, m.gridHit? tie g = some d) ↔ m.Touches g := by
  rw [gridHit?_eq hm, touches_iff, ← readsBack_iff hm, ← readsBack_iff hm]
  cases m.readsBack (m.below g) <;> cases m.readsBack (m.below g).next <;> simp
  split <;> simp

theorem eq_of_gridHit? {d : Decimal} (h : m.gridHit? tie g = some d) :
    d = m.below g ∨ d = (m.below g).next := by
  rw [gridHit?_eq hm] at h
  split at h
  · split at h
    · exact .inl (Option.some.inj h).symm
    · exact .inr (Option.some.inj h).symm
    · rw [← Option.some.inj h]
      split
      · exact .inl rfl
      · exact .inr rfl
  · exact .inl (Option.some.inj h).symm
  · exact .inr (Option.some.inj h).symm
  · nomatch h

theorem Halfway.gridHit?_eq (h : m.Halfway g) : m.gridHit? tie g =
    some (if tie = .even ∧ m.gridFloor g % 2 = 0 then m.below g else (m.below g).next) := by
  rw [Magnitude.gridHit?_eq hm, (readsBack_iff hm _).mpr h.low, (readsBack_iff hm _).mpr h.high,
    compare_eq_iff_eq.mpr h.value.symm]

/-- Off the middle the tie does not count. -/
theorem gridHit?_eq_of_not_halfway (h : ¬m.Halfway g) (tie tie' : Tie) :
    m.gridHit? tie g = m.gridHit? tie' g := by
  rw [gridHit?_eq hm, gridHit?_eq hm]
  split
  · rename_i hlow hhigh
    split
    · rfl
    · rfl
    · rename_i heq
      rw [readsBack_iff hm] at hlow hhigh
      exact absurd ⟨hlow, hhigh, (compare_eq_iff_eq.mp heq).symm⟩ h
  · rfl
  · rfl
  · rfl

end Hit

/-- Powers of ten beside powers of two, by fractions close to the ratio of their logarithms. -/
theorem ten_zpow_le_two_zpow {s b : ℤ} (h : 0 ≤ b ∧ 196 * s ≤ 59 * b ∨ b ≤ 0 ∧ 93 * s ≤ 28 * b) :
    (10 : ℚ) ^ s ≤ 2 ^ b := by
  rcases h with ⟨hb, h⟩ | ⟨hb, h⟩
  · rw [← pow_le_pow_iff_left₀ (by positivity) (by positivity) (by norm_num : 196 ≠ 0)]
    calc ((10 : ℚ) ^ s) ^ 196 = 10 ^ (196 * s) := by rw [mul_comm, zpow_mul]; rfl
      _ ≤ 10 ^ (59 * b) := zpow_le_zpow_right₀ (by norm_num) h
      _ = (10 ^ 59) ^ b := by rw [zpow_mul]; rfl
      _ ≤ (2 ^ 196) ^ b := zpow_le_zpow_left₀ hb (by norm_num) (by norm_num)
      _ = (2 ^ b) ^ 196 := by rw [← zpow_natCast, ← zpow_natCast, zpow_comm]
  · rw [← pow_le_pow_iff_left₀ (by positivity) (by positivity) (by norm_num : 93 ≠ 0)]
    calc ((10 : ℚ) ^ s) ^ 93 = 10 ^ (93 * s) := by rw [mul_comm, zpow_mul]; rfl
      _ ≤ 10 ^ (28 * b) := zpow_le_zpow_right₀ (by norm_num) h
      _ = (10 ^ 28) ^ b := by rw [zpow_mul]; rfl
      _ ≤ (2 ^ 93) ^ b := by
        rw [← neg_neg b, zpow_neg, zpow_neg _ (-b)]
        exact inv_anti₀ (by positivity)
          (zpow_le_zpow_left₀ (neg_nonneg.mpr hb) (by norm_num) (by norm_num))
      _ = (2 ^ b) ^ 93 := by rw [← zpow_natCast, ← zpow_natCast, zpow_comm]

theorem two_zpow_le_ten_zpow {s b : ℤ} (h : 0 ≤ b ∧ 28 * b ≤ 93 * s ∨ b ≤ 0 ∧ 59 * b ≤ 196 * s) :
    (2 : ℚ) ^ b ≤ 10 ^ s := by
  have hinv := ten_zpow_le_two_zpow (s := -s) (b := -b) (by omega)
  rwa [zpow_neg, zpow_neg, inv_le_inv₀ (by positivity) (by positivity)] at hinv

theorem two_zpow_between (hm : 0 < m.val) :
    (2 : ℚ) ^ (m.mantissa.log2 + m.exponent) ≤ m.value ∧
      m.value < 2 ^ (m.mantissa.log2 + m.exponent + 1) := by
  have hpow : (0 : ℚ) < 2 ^ m.exponent := by positivity
  have hlow : (2 : ℚ) ^ m.mantissa.log2 ≤ m.mantissa := by
    exact_mod_cast Nat.log2_self_le (mantissa_pos hm).ne'
  have hhigh : (m.mantissa : ℚ) < 2 ^ (m.mantissa.log2 + 1) := by exact_mod_cast Nat.lt_log2_self
  rw [add_right_comm, zpow_add₀ two_ne_zero, zpow_add₀ two_ne_zero, value]
  constructor
  · exact mul_le_mul_of_nonneg_right (by exact_mod_cast hlow) hpow.le
  · exact mul_lt_mul_of_pos_right (by exact_mod_cast hhigh) hpow

/-- The first of the candidates above `log` is the one next to it, if this is a candidate. -/
theorem find?_first_above {start log : ℤ} {count : ℕ} (hlow : start ≤ log + 1)
    (hhigh : log + 1 < start + count) :
    ((List.range count).map fun i : ℕ => start + i).find? (fun k => decide (log < k)) =
      some (log + 1) := by
  obtain ⟨i, hi⟩ : ∃ i : ℕ, log = start + i - 1 := ⟨(log + 1 - start).toNat, by omega⟩
  have hfind : (List.range count).find? ((fun k : ℤ => decide (log < k)) ∘ fun j : ℕ => start + j) =
      some i := by
    rw [List.find?_range_eq_some]
    refine ⟨?_, List.mem_range.mpr (by omega), fun j hj => ?_⟩
    · rw [Function.comp_apply, decide_eq_true_eq]
      omega
    · rw [Function.comp_apply, Bool.not_eq_true', decide_eq_false_iff_not]
      omega
  rw [List.find?_map, hfind, Option.map_some]
  congr 1
  omega

/-- The search for the scale finds the order of the double by tens. -/
theorem decimalScale_eq (hm : 0 < m.val) : m.decimalScale = Int.log 10 m.value + 1 := by
  have hlog : m.mantissa.log2 ≤ 52 := by
    have := (Nat.log2_lt (mantissa_pos hm).ne').mpr m.mantissa_lt
    omega
  have hexp := m.exponent_ge
  have hexp' := m.exponent_le
  have hpos := value_pos hm
  obtain ⟨hlow, hhigh⟩ := two_zpow_between hm
  -- The estimate is at most the order, and less than two below it.
  have hge : (m.mantissa.log2 + m.exponent) * 30103 / 100000 - 1 ≤ Int.log 10 m.value := by
    rw [← Int.zpow_le_iff_le_log (by norm_num) hpos, Nat.cast_ofNat]
    exact (ten_zpow_le_two_zpow (by omega)).trans hlow
  have hlt : Int.log 10 m.value < (m.mantissa.log2 + m.exponent) * 30103 / 100000 + 2 := by
    rw [← Int.lt_zpow_iff_log_lt (by norm_num) hpos, Nat.cast_ofNat]
    exact hhigh.trans_le (two_zpow_le_ten_zpow (by omega))
  have habove (k : ℤ) : (compareScaled 1 k m.mantissa m.exponent == .gt) =
      decide (Int.log 10 m.value < k) := by
    rw [Bool.eq_iff_iff, beq_iff_eq, decide_eq_true_eq, compareScaled_eq, compare_gt_iff_gt,
      Nat.cast_one, one_mul, ← value, ← Int.lt_zpow_iff_log_lt (by norm_num) hpos, Nat.cast_ofNat]
  simp only [decimalScale, habove]
  rw [find?_first_above (by omega) (by omega), Option.getD_some]

/-- The scale is the least power of ten above the double. -/
theorem decimalScale_spec (hm : 0 < m.val) :
    (10 : ℚ) ^ (m.decimalScale - 1) ≤ m.value ∧ m.value < 10 ^ m.decimalScale := by
  rw [decimalScale_eq hm, add_sub_cancel_right]
  exact_mod_cast And.intro (Int.zpow_log_le_self (b := 10) (by norm_num) (value_pos hm))
    (Int.lt_zpow_succ_log_self (b := 10) (by norm_num) m.value)

def grid (m : Magnitude) (n : ℕ) : ℤ := m.decimalScale - n - 1

theorem ten_pow_mul_grid (m : Magnitude) (n : ℕ) :
    (10 : ℚ) ^ n * 10 ^ m.grid n = 10 ^ (m.decimalScale - 1) ∧
      (10 : ℚ) ^ (n + 1) * 10 ^ m.grid n = 10 ^ m.decimalScale := by
  rw [← zpow_natCast, ← zpow_natCast, ← zpow_add₀ (by norm_num), ← zpow_add₀ (by norm_num), grid]
  constructor
  · congr 1
    omega
  · congr 1
    push_cast
    omega

theorem gridFloor_grid (hm : 0 < m.val) (n : ℕ) :
    10 ^ n ≤ m.gridFloor (m.grid n) ∧ m.gridFloor (m.grid n) < 10 ^ (n + 1) := by
  have hten : (0 : ℚ) < 10 ^ m.grid n := by positivity
  obtain ⟨hlow, hhigh⟩ := decimalScale_spec hm
  obtain ⟨hn, hn'⟩ := m.ten_pow_mul_grid n
  rw [gridFloor_eq]
  constructor
  · apply Nat.le_floor
    rw [le_div_iff₀ hten]
    push_cast
    rwa [hn]
  · rw [Nat.floor_lt (div_nonneg (value_pos hm).le hten.le), div_lt_iff₀ hten]
    push_cast
    rwa [hn']

theorem attracts_of_le (hle : v ≤ m.value) (h : m.value - v < m.reachBelow * 2 ^ m.exponent) :
    m.Attracts v where
  low := .inl (by rw [sub_mul, ← value]; linarith)
  high := .inl (hle.trans_lt (by
    have hpow : (0 : ℚ) < 2 ^ m.exponent := by positivity
    rw [add_mul, ← value]
    linarith))

theorem attracts_of_ge (hle : m.value ≤ v) (h : v - m.value < 1 / 2 * 2 ^ m.exponent) :
    m.Attracts v where
  low := .inl (lt_of_lt_of_le (by
    have hpow : 0 < m.reachBelow * 2 ^ m.exponent := mul_pos m.reachBelow_pos (by positivity)
    rw [sub_mul, ← value]
    linarith) hle)
  high := .inl (by rw [add_mul, ← value]; linarith)

/-- Seventeen digits are enough: the points of their grid lie closer than doubles do. -/
theorem touches_grid_sixteen (hm : 0 < m.val) : m.Touches (m.grid 16) := by
  have hpow : (0 : ℚ) < 2 ^ m.exponent := by positivity
  have hstep : 10 ^ 16 * (10 : ℚ) ^ m.grid 16 ≤ m.value :=
    (m.ten_pow_mul_grid 16).1 ▸ (decimalScale_spec hm).1
  have hlow := m.value_below_le (m.grid 16)
  have hhigh := m.lt_value_next_below (m.grid 16)
  have hnext : (m.below (m.grid 16)).next.value = (m.below (m.grid 16)).value + 10 ^ m.grid 16 := by
    rw [value_next_below, add_mul, one_mul]
    rfl
  rw [touches_iff]
  cases hnarrow : m.narrowBelow with
  | true =>
    have hvalue : m.value = 2 ^ 52 * 2 ^ m.exponent := by
      rw [value, mantissa_of_narrow hnarrow]
      norm_num
    exact .inr (attracts_of_ge hhigh.le (by linarith))
  | false =>
    have hreach : m.reachBelow = 1 / 2 := if_neg (by simp [hnarrow])
    have hvalue : m.value < 2 ^ 53 * 2 ^ m.exponent :=
      mul_lt_mul_of_pos_right (by exact_mod_cast m.mantissa_lt) hpow
    rcases lt_or_ge (m.value - (m.below (m.grid 16)).value) (1 / 2 * 2 ^ m.exponent) with
      hnear | hfar
    · exact .inl (attracts_of_le hlow (hreach ▸ hnear))
    · exact .inr (attracts_of_ge hhigh.le (by linarith))

/-- Of the grids that are searched the first one with a point that rounds to `m`. -/
structure IsFirst (m : Magnitude) (n : ℕ) : Prop where
  lt : n < 17
  touches : m.Touches (m.grid n)
  before : ∀ i < n, ¬m.Touches (m.grid i)

theorem exists_isFirst (hm : 0 < m.val) : ∃ n, m.IsFirst n := by
  classical
  have h : ∃ n, m.Touches (m.grid n) := ⟨16, touches_grid_sixteen hm⟩
  refine ⟨Nat.find h, ?_, Nat.find_spec h, fun i hi => Nat.find_min h hi⟩
  exact Nat.lt_succ_of_le (Nat.find_min' h (touches_grid_sixteen hm))

variable {n : ℕ}

/-- The digits come from the first grid, whatever is done in a tie. -/
theorem IsFirst.shortest_eq (h : m.IsFirst n) (hm : 0 < m.val) (tie : Tie) :
    ∃ d, m.gridHit? tie (m.grid n) = some d ∧ m.shortest tie = d.stripZeros 400 := by
  obtain ⟨d, hd⟩ : ∃ d, m.gridHit? tie (m.grid n) = some d :=
    (exists_gridHit?_iff hm).mpr h.touches
  refine ⟨d, hd, ?_⟩
  have hbefore : ∀ i ∈ List.range n, m.gridHit? tie (m.grid i) = none := by
    intro i hi
    rw [Option.eq_none_iff_forall_ne_some]
    intro d' hd'
    exact h.before i (List.mem_range.mp hi) ((exists_gridHit?_iff hm).mp ⟨d', hd'⟩)
  have hsplit : List.range 17 = List.range n ++ n :: (List.range (16 - n)).map (n + 1 + ·) := by
    have := h.lt
    rw [show 17 = n + 1 + (16 - n) by omega, List.range_add, List.range_succ, List.append_assoc,
      List.singleton_append]
  have hhit : (List.range 17).findSome? (fun i : ℕ => m.gridHit? tie (m.grid i)) = some d := by
    rw [List.findSome?_eq_some_iff]
    exact ⟨_, _, _, hsplit, hd, hbefore⟩
  rw [shortest, if_neg hm.ne']
  exact congrArg (fun hit => (Option.getD hit m.exactDecimal).stripZeros 400) hhit

/-- A decimal that rounds to `m` has at least as many digits as the first grid gives. -/
theorem IsFirst.lt_size (h : m.IsFirst n) (hm : 0 < m.val) {c : Decimal} (hc : m.Attracts c.value) :
    n < c.size := by
  by_contra hle
  obtain ⟨s, hs⟩ : ∃ s, c.size = s + 1 := ⟨c.size - 1, by have := c.size_pos; omega⟩
  have hdigits : c.digits < 10 ^ (s + 1) := Decimal.size_le_iff.mp hs.le
  rcases le_or_gt (m.grid s) c.exponent with hexp | hexp
  · -- The decimal is a point of a coarser grid.
    refine h.before s (by omega) ⟨c.digits * 10 ^ (c.exponent - m.grid s).toNat, ?_⟩
    have hvalue : ((c.digits * 10 ^ (c.exponent - m.grid s).toNat : ℕ) * 10 ^ m.grid s : ℚ) =
        c.value := by
      rw [Decimal.value, Nat.cast_mul, Nat.cast_pow, Nat.cast_ofNat, mul_assoc, ← zpow_natCast,
        ← zpow_add₀ (by norm_num), Int.toNat_of_nonneg (by omega), Int.sub_add_cancel]
    rwa [hvalue]
  · -- The decimal lies below the power of ten at or below `m`, which is a point of every grid.
    refine h.before 0 (by omega) ⟨1, ?_⟩
    have hpower : ((1 : ℕ) * 10 ^ m.grid 0 : ℚ) = 10 ^ (m.decimalScale - 1) := by
      rw [Nat.cast_one, ← (m.ten_pow_mul_grid 0).1, pow_zero]
    have hsmall : c.value ≤ 10 ^ (m.decimalScale - 1) := by
      rw [grid] at hexp
      calc c.value ≤ 10 ^ (s + 1) * 10 ^ c.exponent := by
            rw [Decimal.value]
            gcongr
            exact_mod_cast hdigits.le
        _ = 10 ^ ((s + 1 : ℕ) + c.exponent) := by rw [zpow_add₀ (by norm_num), zpow_natCast]
        _ ≤ 10 ^ (m.decimalScale - 1) := zpow_le_zpow_right₀ (by norm_num) (by push_cast; omega)
    rw [hpower]
    exact hc.between m.attracts_value hsmall (decimalScale_spec hm).1

theorem size_below_le (hm : 0 < m.val) (n : ℕ) : (m.below (m.grid n)).size ≤ n + 1 :=
  Decimal.size_le_iff.mpr (gridFloor_grid hm n).2

/-- The next point has as many digits unless it is a power of ten. -/
theorem size_next_below_le (hm : 0 < m.val) (n : ℕ) :
    (m.below (m.grid n)).next.size ≤ n + 1 ∨ (m.below (m.grid n)).next.digits = 10 ^ (n + 1) :=
  (Nat.succ_le_of_lt (gridFloor_grid hm n).2).lt_or_eq.imp_left Decimal.size_le_iff.mpr

theorem IsFirst.exists_size_le (h : m.IsFirst n) (hm : 0 < m.val) :
    ∃ c : Decimal, m.Attracts c.value ∧ c.size ≤ n + 1 := by
  rcases touches_iff.mp h.touches with hlow | hhigh
  · exact ⟨_, hlow, size_below_le hm n⟩
  · rcases size_next_below_le hm n with hsize | hdigits
    · exact ⟨_, hhigh, hsize⟩
    · refine ⟨⟨1, m.decimalScale⟩, ?_,
        Decimal.size_le_iff.mpr (Nat.one_lt_pow n.succ_ne_zero (by norm_num))⟩
      rw [Decimal.value, hdigits, Nat.cast_pow, Nat.cast_ofNat] at hhigh
      rw [Decimal.value, Nat.cast_one, one_mul, ← (m.ten_pow_mul_grid n).2]
      exact hhigh

/-- The digits that are found are the fewest. -/
theorem size_shortest_le (hm : 0 < m.val) (tie : Tie) {c : Decimal} (hc : m.Attracts c.value) :
    (m.shortest tie).size ≤ c.size := by
  obtain ⟨n, hn⟩ := exists_isFirst hm
  obtain ⟨d, hd, hshortest⟩ := hn.shortest_eq hm tie
  have hsize := hn.lt_size hm hc
  rw [hshortest]
  have hkept : d.size ≤ n + 1 → (d.stripZeros 400).size ≤ c.size := fun h =>
    (d.size_stripZeros_le 400).trans (h.trans hsize)
  rcases eq_of_gridHit? hm hd with rfl | rfl
  · exact hkept (size_below_le hm n)
  · rcases size_next_below_le hm n with h | h
    · exact hkept h
    · have := hn.lt
      rw [Decimal.size_stripZeros_of_pow h (by omega)]
      exact c.size_pos

/-- `m` lies halfway between the decimals `d`, which ends in an even digit, and `d.next`, and no
decimal that rounds to `m` has fewer digits than these. -/
structure Midway (m : Magnitude) (d : Decimal) : Prop where
  even : d.digits % 2 = 0
  value : m.value = (d.digits + 1 / 2) * 10 ^ d.exponent
  low : m.Attracts d.value
  high : m.Attracts d.next.value
  fewest : ∀ c : Decimal, m.Attracts c.value → d.size ≤ c.size ∧ d.next.size ≤ c.size

theorem Halfway.midway (h : m.Halfway (m.grid n)) (hn : m.IsFirst n) (hm : 0 < m.val)
    (heven : m.gridFloor (m.grid n) % 2 = 0) : m.Midway (m.below (m.grid n)) where
  even := heven
  value := h.value
  low := h.low
  high := h.high
  fewest c hc := by
    have hsize := hn.lt_size hm hc
    have hlt := (gridFloor_grid hm n).2
    have hodd : m.gridFloor (m.grid n) + 1 < 10 ^ (n + 1) := by
      rw [pow_succ] at hlt ⊢
      omega
    exact ⟨(size_below_le hm n).trans hsize, (Decimal.size_le_iff.mpr hodd).trans hsize⟩

theorem Midway.pos {d : Decimal} (h : m.Midway d) : 0 < m.val := by
  apply Nat.pos_of_ne_zero
  intro hzero
  have hvalue : m.value = 0 := by
    rw [(Fin.ext hzero : m = .zero), value_zero]
  have hpos : (0 : ℚ) < (d.digits + 1 / 2) * 10 ^ d.exponent := by positivity
  rw [← h.value, hvalue] at hpos
  exact hpos.false

/-- The last place of such a decimal is that of the first grid. -/
theorem Midway.exponent_eq {d : Decimal} (h : m.Midway d) (hn : m.IsFirst n) (hm : 0 < m.val) :
    d.exponent = m.grid n := by
  have hten : (0 : ℚ) < 10 ^ d.exponent := by positivity
  obtain ⟨c, hc, hsize⟩ := hn.exists_size_le hm
  have hdigits : d.digits ≠ 0 := by
    intro hzero
    have hpos := h.low.pos hm
    rw [Decimal.value, hzero, Nat.cast_zero, zero_mul] at hpos
    exact hpos.false
  have hd : d.size = n + 1 := le_antisymm ((h.fewest c hc).1.trans hsize) (hn.lt_size hm h.low)
  have hge : (10 : ℚ) ^ (n : ℤ) ≤ d.digits := by
    have hsize := (pow_length_toDigits hdigits).1
    rwa [← Decimal.size, hd, Nat.cast_add_one, add_sub_cancel_right] at hsize
  have hlt : (d.digits + 1 : ℚ) ≤ 10 ^ (n + 1 : ℤ) := by
    exact_mod_cast Decimal.size_le_iff.mp hd.le
  obtain ⟨hscale, hscale'⟩ := decimalScale_spec hm
  have hlow : (10 : ℚ) ^ (n + d.exponent) < 10 ^ m.decimalScale := by
    refine lt_of_le_of_lt ?_ hscale'
    rw [zpow_add₀ (by norm_num), h.value]
    exact mul_le_mul_of_nonneg_right (by linarith) hten.le
  have hhigh : (10 : ℚ) ^ (m.decimalScale - 1) < 10 ^ (n + 1 + d.exponent) := by
    refine lt_of_le_of_lt hscale ?_
    rw [zpow_add₀ (by norm_num), h.value]
    exact mul_lt_mul_of_pos_right (by linarith) hten
  rw [zpow_lt_zpow_iff_right₀ (by norm_num)] at hlow hhigh
  rw [grid]
  omega

theorem Midway.eq_below {d : Decimal} (h : m.Midway d) (hn : m.IsFirst n) (hm : 0 < m.val) :
    d = m.below (m.grid n) := by
  have hexp := h.exponent_eq hn hm
  have hten : (10 : ℚ) ^ d.exponent ≠ 0 := by positivity
  have hfloor : m.gridFloor (m.grid n) = d.digits := by
    rw [gridFloor_eq, ← hexp, h.value, mul_div_cancel_right₀ _ hten,
      Nat.floor_eq_iff (by positivity)]
    constructor <;> linarith
  rw [below, hfloor, ← hexp]

/-- Rounding ties to even or away from zero gives one number unless the double lies midway between
two decimals with the fewest digits, the lower of them even. Then it gives either of them. -/
theorem shortest_even_away (m : Magnitude) :
    (∀ d, m.Midway d →
      (m.shortest .even).value = d.value ∧ (m.shortest .away).value = d.next.value) ∧
    ((¬∃ d, m.Midway d) → (m.shortest .even).value = (m.shortest .away).value) := by
  rcases Nat.eq_zero_or_pos m.val with hzero | hm
  · refine ⟨fun d hd => absurd hd.pos (by omega), fun _ => ?_⟩
    rw [shortest_of_zero hzero, shortest_of_zero hzero]
  obtain ⟨n, hn⟩ := exists_isFirst hm
  obtain ⟨low, hlow, heven⟩ := hn.shortest_eq hm .even
  obtain ⟨high, hhigh, haway⟩ := hn.shortest_eq hm .away
  rw [heven, haway, Decimal.value_stripZeros, Decimal.value_stripZeros]
  -- Both searches stop at the same grid, so a tie there is all that can part them.
  constructor
  · intro d hd
    obtain rfl := hd.eq_below hn hm
    have hhalf : m.Halfway (m.grid n) := ⟨hd.low, hd.high, hd.value⟩
    rw [hhalf.gridHit?_eq hm, Option.some.injEq] at hlow hhigh
    rw [← hlow, ← hhigh, if_pos ⟨rfl, hd.even⟩, if_neg (by simp)]
    exact ⟨rfl, rfl⟩
  · intro hnone
    have hsame : m.gridHit? .even (m.grid n) = m.gridHit? .away (m.grid n) := by
      by_cases hhalf : m.Halfway (m.grid n)
      · have hodd : ¬m.gridFloor (m.grid n) % 2 = 0 := fun h => hnone ⟨_, hhalf.midway hn hm h⟩
        rw [hhalf.gridHit?_eq hm, hhalf.gridHit?_eq hm, if_neg (fun h => hodd h.2),
          if_neg (fun h => hodd h.2)]
      · exact gridHit?_eq_of_not_halfway hm hhalf _ _
    rw [hlow, hhigh, Option.some.injEq] at hsame
    rw [hsame]

theorem exists_midway_iff (m : Magnitude) :
    (∃ d, m.Midway d) ↔ (m.shortest .even).value ≠ (m.shortest .away).value := by
  obtain ⟨hmidway, hone⟩ := m.shortest_even_away
  refine ⟨?_, fun h => by_contra fun hnone => h (hone hnone)⟩
  rintro ⟨d, hd⟩
  rw [(hmidway d hd).1, (hmidway d hd).2]
  exact d.value_lt_next.ne

end Magnitude

end CampusQuery
