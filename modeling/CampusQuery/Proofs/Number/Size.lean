import CampusQuery.Proofs.Number.Display
import CampusQuery.Proofs.Number.Range
import Mathlib

namespace CampusQuery

theorem roundDiv_le_add_one (tie : Tie) (num den : ℕ) : (roundDiv tie num den : ℚ) ≤ num / den + 1 := by
  have hcast : (roundDiv tie num den : ℚ) ≤ (num / den : ℕ) + 1 := by
    exact_mod_cast roundDiv_le tie num den
  exact hcast.trans (add_le_add_left Nat.cast_div_le 1)

theorem add_one_div_pow_le (q : ℚ) (k : ℕ) : (q + 1) / 10 ^ k ≤ q / 10 ^ k + 1 := by
  rw [add_div]
  exact add_le_add_right (div_le_one_of_le₀ (one_le_pow₀ (by norm_num)) (by positivity)) _

/-- A number of `k` places that is cut to fewer of them. -/
theorem roundDiv_places_le (tie : Tie) (n : ℕ) {places k : ℕ} (h : places ≤ k) :
    (roundDiv tie n (Nat.pow 10 (k - places)) : ℚ) / 10 ^ places ≤ n / 10 ^ k + 1 := by
  have hpow : (10 : ℚ) ^ k = 10 ^ (k - places) * 10 ^ places := by
    rw [← pow_add, Nat.sub_add_cancel h]
  calc _ ≤ (n / (Nat.pow 10 (k - places) : ℕ) + 1 : ℚ) / 10 ^ places := by
        gcongr
        exact roundDiv_le_add_one _ _ _
    _ ≤ n / (Nat.pow 10 (k - places) : ℕ) / 10 ^ places + 1 := add_one_div_pow_le _ _
    _ = n / 10 ^ k + 1 := by
        rw [div_div, hpow, Nat.pow_eq]
        push_cast
        rfl

/-- What rounds to a double with places behind the point is not large. -/
theorem Magnitude.value_shortest_le (tie : Tie) (m : Magnitude)
    (h : (m.shortest tie).exponent < 0) : (m.shortest tie).value ≤ 2 ^ 53 := by
  have hm : 0 < m.val := by
    apply Nat.pos_of_ne_zero
    intro hzero
    rw [shortest, if_pos hzero] at h
    exact absurd h (by decide)
  have hexp : m.exponent ≤ 0 := by
    by_contra hpos
    refine absurd (exponent_shortest_nonneg tie hm (n := m.mantissa * 2 ^ m.exponent.toNat) ?_) h.not_ge
    rw [value, two_zpow_eq, show (-m.exponent).toNat = 0 by omega]
    push_cast
    ring
  have hlt := (attracts_shortest tie hm).lt
  refine hlt.le.trans ?_
  exact_mod_cast zpow_le_zpow_right₀ (one_le_two (α := ℚ)) (show 53 + m.exponent ≤ (53 : ℕ) by omega)

namespace FixedPoint

variable {x y z : FixedPoint}

theorem abs_value_signed (s : Bool) (n k : ℕ) : |value ⟨signed s n, k⟩| = n / 10 ^ k := by
  rw [value_of_signed]
  cases s
  · rw [if_neg Bool.false_ne_true]
    exact abs_of_nonneg (by positivity)
  · rw [if_pos rfl, abs_neg]
    exact abs_of_nonneg (by positivity)

theorem abs_value_le (h : x.coeff.natAbs < coeffBound) : |x.value| ≤ coeffBound := by
  rw [abs_value]
  refine (div_le_self (by positivity) (one_le_pow₀ (by norm_num))).trans ?_
  exact_mod_cast h.le

theorem abs_value_ofDecimal?_le {neg : Bool} {d : Decimal} (h : ofDecimal? neg d = some x)
    (hd : d.exponent < 0 → d.value ≤ 2 ^ 53) : |x.value| ≤ coeffBound := by
  unfold ofDecimal? at h
  split at h
  · simp only at h
    split at h
    · rename_i hlt
      cases h
      rw [abs_value_signed, pow_zero, div_one]
      exact_mod_cast hlt.le
    · cases h
  · rename_i hexp
    have hvalue := hd (by omega)
    have hbound : (2 ^ 53 + 1 : ℚ) ≤ coeffBound := by
      exact_mod_cast (by decide : 2 ^ 53 + 1 ≤ coeffBound)
    rw [Decimal.value, ten_zpow_eq, show d.exponent.toNat = 0 by omega, pow_zero, Nat.cast_one,
      mul_one_div, Nat.cast_pow, Nat.cast_ofNat] at hvalue
    simp only at h
    split at h
    · cases h
      rw [abs_value_signed]
      linarith
    · rename_i hplaces
      cases h
      rw [abs_value_signed]
      exact (roundDiv_places_le .away d.digits (by omega)).trans (by linarith)

theorem abs_value_ofBinary64?_le {b : Binary64} (h : ofBinary64? b = some x) :
    |x.value| ≤ coeffBound := by
  cases b with
  | finite s m => exact abs_value_ofDecimal?_le h (m.value_shortest_le .away)
  | _ => cases h

theorem natAbs_fit?_lt {c : ℤ} {scale : ℕ} (h : fit? c scale = some x) :
    x.coeff.natAbs < coeffBound := by
  obtain ⟨k, -, hk⟩ := List.exists_of_findSome?_eq_some h
  simp only at hk
  split at hk
  · rename_i hlt
    cases hk
    have habs (s : Bool) (n : ℕ) : (signed s n).natAbs = n := by
      cases s <;> simp [signed]
    rwa [habs]
  · cases hk

theorem abs_value_add?_le (hx : |x.value| ≤ coeffBound) (hy : |y.value| ≤ coeffBound)
    (h : x.add? y = some z) : |z.value| ≤ coeffBound := by
  unfold add? at h
  split at h
  · cases h
    exact hy
  · split at h
    · cases h
      exact hx
    · exact abs_value_le (natAbs_fit?_lt h)

theorem settle_le (num den scale : ℕ) :
    ((settle num den scale).1 : ℚ) / 10 ^ (settle num den scale).2 ≤ num / den / 10 ^ scale + 1 := by
  simp only [settle]
  split
  · refine le_trans ?_ (add_one_div_pow_le _ scale)
    gcongr
    exact roundDiv_le_add_one _ _ _
  · have hless : (num / (10 * den : ℕ) / 10 ^ (scale - 1) : ℚ) ≤ num / den / 10 ^ scale := by
      rw [Nat.cast_mul, mul_comm, ← div_div, Nat.cast_ofNat]
      cases scale with
      | zero =>
        rw [pow_zero, div_one, div_one]
        exact div_le_self (by positivity) (by norm_num)
      | succ scale => rw [Nat.add_sub_cancel, pow_succ', ← div_div]
    refine le_trans ?_ ((add_one_div_pow_le _ (scale - 1)).trans (add_le_add_left hless 1))
    gcongr
    exact roundDiv_le_add_one _ _ _

theorem quotient_le (num den scale : ℕ) :
    ((quotient num den scale).1 : ℚ) / 10 ^ (quotient num den scale).2 ≤
      num / den / 10 ^ scale + 1 := by
  have hmore (num scale k : ℕ) : ((num * Nat.pow 10 k : ℕ) : ℚ) / den / 10 ^ (scale + k) =
      num / den / 10 ^ scale := by
    rw [Nat.cast_mul, Nat.pow_eq, pow_add]
    push_cast
    field_simp
  fun_induction quotient num den scale with
  | case1 num scale hmod =>
    have hle : ((num / den : ℕ) : ℚ) ≤ num / den := Nat.cast_div_le
    refine le_add_of_le_of_nonneg ?_ zero_le_one
    gcongr
  | case2 num scale hmod k hk => exact settle_le num den scale
  | case3 num scale hmod k hk hge => exact hmore num scale k ▸ settle_le _ den (scale + k)
  | case4 num scale hmod k hk hlt ih => exact hmore num scale k ▸ ih

/-- A quotient is at most one larger than what is divided. -/
theorem abs_value_divNat_le (x : FixedPoint) (n : ℕ) : |(x.divNat n).value| ≤ |x.value| + 1 := by
  have hquotient := quotient_le x.coeff.natAbs n x.scale
  have hle : (x.coeff.natAbs / n / 10 ^ x.scale : ℚ) ≤ |x.value| := by
    rw [abs_value, div_right_comm]
    rcases Nat.eq_zero_or_pos n with rfl | hn
    · rw [Nat.cast_zero, div_zero]
      positivity
    · exact div_le_self (by positivity) (by exact_mod_cast hn)
  simp only [divNat]
  rw [abs_value_signed]
  refine le_trans ?_ (hquotient.trans (add_le_add_left hle 1))
  split
  · exact le_rfl
  · exact (dropZeros_value _ _).le

theorem abs_value_roundPlaces_le (places : ℕ) (x : FixedPoint) :
    |(roundPlaces places x).value| ≤ |x.value| + 1 := by
  unfold roundPlaces
  split
  · linarith
  · rename_i hscale
    rw [abs_value_signed, abs_value]
    exact roundDiv_places_le .away _ (by omega)

theorem scale_roundPlaces_le (places : ℕ) (x : FixedPoint) : (roundPlaces places x).scale ≤ places := by
  unfold roundPlaces
  split
  · assumption
  · exact le_rfl

/-- A number that is not too large is a finite double. -/
theorem isFinite_toBinary64 (hscale : x.scale ≤ maxScale) (h : |x.value| ≤ 2 ^ 100) :
    x.toBinary64.isFinite = true := by
  have hpow : 10 ^ x.scale ≤ 2 ^ 100 :=
    (Nat.pow_le_pow_right (by norm_num) hscale).trans (by decide)
  have hwhole : x.coeff.natAbs / 10 ^ x.scale ≤ 2 ^ 100 := by
    have hcast : ((x.coeff.natAbs / 10 ^ x.scale : ℕ) : ℚ) ≤ 2 ^ 100 := by
      refine Nat.cast_div_le.trans (le_trans ?_ h)
      rw [abs_value]
      push_cast
      rfl
    exact_mod_cast hcast
  have hrest : x.coeff.natAbs % 10 ^ x.scale ≤ 2 ^ 100 :=
    (Nat.mod_lt _ (Nat.pow_pos (by norm_num))).le.trans hpow
  obtain ⟨p, hp, hone⟩ := Binary64.exists_ofNat (Nat.pow_pos (by norm_num)) (by norm_num) hpow
  have hpower := hp ▸ Binary64.within_ofNat (by norm_num) hpow
  have hw := Binary64.within_ofNat (by norm_num) hwhole
  have hf := (Binary64.within_ofNat (by norm_num) hrest).div (t := false) (by norm_num) hone
  have hrounded := (((hw.add hf (by norm_num)).mul hpower (by norm_num)).round (by norm_num)).div
    (t := false) (by norm_num) hone
  simp only [toBinary64, Nat.pow_eq, hp]
  split_ifs
  · exact hw.neg.isFinite
  · exact hrounded.neg.isFinite
  · exact hw.isFinite
  · exact hrounded.isFinite

end FixedPoint

end CampusQuery
