import CampusQuery.Number.Layout
import CampusQuery.Number.Numeral
import CampusQuery.Proofs.Number.Shortest

namespace CampusQuery

namespace Numeral

def AllDigits (ds : List Char) : Prop := ∀ c ∈ ds, c.isDigit = true

def NoDigit (rest : List Char) : Prop := ∀ c ∈ rest.head?, c.isDigit = false

/-- Nothing at the head of the text continues a numeral. -/
def Ends (rest : List Char) : Prop :=
  ∀ c ∈ rest.head?, c.isDigit = false ∧ c ≠ '.' ∧ c ≠ 'e' ∧ c ≠ 'E'

variable {ds rest : List Char}

theorem ends_nil : Ends [] := fun _ h => nomatch h

theorem Ends.noDigit (h : Ends rest) : NoDigit rest := fun c hc => (h c hc).1

theorem noDigit_cons {c : Char} (h : c.isDigit = false) : NoDigit (c :: rest) := by
  simpa [NoDigit] using h

theorem leading_append (hds : AllDigits ds) (hrest : NoDigit rest) : leading (ds ++ rest) = ds := by
  have hnil : rest.takeWhile Char.isDigit = [] := by
    cases rest with
    | nil => rfl
    | cons c rest => exact List.takeWhile_cons_of_neg (by simpa [NoDigit] using hrest)
  rw [leading, List.takeWhile_append_of_pos hds, hnil, List.append_nil]

theorem behind_append (hds : AllDigits ds) (hrest : NoDigit rest) :
    behind (ds ++ rest) = rest := by
  have h := leading_append_behind (ds ++ rest)
  rw [leading_append hds hrest] at h
  exact List.append_cancel_left h

theorem value_append (ds es : List Char) :
    value (ds ++ es) = value ds * 10 ^ es.length + value es := by
  have h : ∀ ds : List Char, value ds = Nat.ofDigitChars 10 ds 0 := by
    intro ds
    rw [Nat.ofDigitChars_eq_foldl]
    rfl
  rw [h, h, h, Nat.ofDigitChars_append, Nat.ofDigitChars_eq_ofDigitChars_zero, mul_comm]

theorem value_zeros (k : ℕ) : value (List.replicate k '0') = 0 := by
  induction k with
  | zero => rfl
  | succ k ih =>
    rw [List.replicate_succ', value_append, ih]
    rfl

theorem value_digitText (n : ℕ) : value (Layout.digitText n) = n := by
  have h := @Nat.ofDigitChars_ten_toDigits n
  rw [Nat.ofDigitChars_eq_foldl] at h
  exact h

theorem allDigits_digitText (n : ℕ) : AllDigits (Layout.digitText n) :=
  fun _ hc => Nat.isDigit_of_mem_toDigits (by norm_num) (by norm_num) hc

theorem allDigits_zeros (k : ℕ) : AllDigits (List.replicate k '0') := by
  intro c hc
  rw [List.eq_of_mem_replicate hc]
  rfl

theorem AllDigits.append {ds es : List Char} (hds : AllDigits ds) (hes : AllDigits es) :
    AllDigits (ds ++ es) := fun c hc => (List.mem_append.mp hc).elim (hds c) (hes c)

theorem digitText_ne_nil (n : ℕ) : Layout.digitText n ≠ [] :=
  List.length_pos_iff.mp Nat.length_toDigits_pos

theorem head?_digitText {n : ℕ} (hn : n ≠ 0) : (Layout.digitText n).head? ≠ some '0' := by
  induction n using Nat.strong_induction_on with
  | _ n ih =>
    rcases Nat.lt_or_ge n 10 with h | h
    · interval_cases n <;> first | contradiction | decide
    · have := ih (n / 10) (by omega) (by omega)
      rw [Layout.digitText, Nat.toDigits_of_base_le (by norm_num) h, List.head?_append_of_ne_nil]
      · exact this
      · exact digitText_ne_nil _

theorem head_digitText (n : ℕ) :
    Layout.digitText n = ['0'] ∨ (Layout.digitText n).head? ≠ some '0' := by
  rcases Nat.eq_zero_or_pos n with rfl | h
  · exact .inl rfl
  · exact .inr (head?_digitText h.ne')

theorem digitText_mul_ten_pow {n : ℕ} (hn : 0 < n) (k : ℕ) :
    Layout.digitText (n * 10 ^ k) = Layout.digitText n ++ List.replicate k '0' := by
  induction k with
  | zero => rw [pow_zero, mul_one, List.replicate_zero, List.append_nil]
  | succ k ih =>
    have hlast : Layout.digitText (n * 10 ^ k) ++ ['0'] =
        Layout.digitText (10 * (n * 10 ^ k) + 0) :=
      Nat.toDigits_append_toDigits (b := 10) (d := 0) (by norm_num) (by positivity) (by norm_num)
    rw [List.replicate_succ', ← List.append_assoc, ← ih, hlast]
    congr 1
    ring

def signText (neg : Bool) : List Char := if neg then ['-'] else []

def pointText : List Char → List Char
  | [] => []
  | fs => '.' :: fs

theorem pointText_of_ne_nil {fs : List Char} (h : fs ≠ []) : pointText fs = '.' :: fs := by
  cases fs with
  | nil => contradiction
  | cons f fs => rfl

def powerText : Option ℤ → List Char
  | none => []
  | some e => 'e' :: (if e < 0 then '-' else '+') :: Layout.digitText e.natAbs

/-- The digits of a number before and behind the point, and its power of ten if one is written. -/
structure Spelling where
  whole : List Char
  fraction : List Char
  power : Option ℤ
  whole_digits : AllDigits whole
  whole_ne_nil : whole ≠ []
  whole_head : whole = ['0'] ∨ whole.head? ≠ some '0'
  fraction_digits : AllDigits fraction

namespace Spelling

variable (s : Spelling)

def text : List Char := s.whole ++ (pointText s.fraction ++ powerText s.power)

def numeral (neg : Bool) : Numeral where
  neg := neg
  digits := value (s.whole ++ s.fraction)
  exponent := s.power.getD 0 - s.fraction.length
  plain := s.fraction.isEmpty && s.power.isNone

theorem whole?_append (hrest : NoDigit rest) : whole? (s.whole ++ rest) = some (s.whole, rest) := by
  have hne := s.whole_ne_nil
  have hhead := s.whole_head
  unfold whole?
  rw [leading_append s.whole_digits hrest, behind_append s.whole_digits hrest]
  split
  · contradiction
  · simp_all
  · simp_all
  · rfl

theorem fraction?_append (hdigit : NoDigit rest) (hpoint : rest.head? ≠ some '.') :
    fraction? (pointText s.fraction ++ rest) = some (s.fraction, rest) := by
  have hdigits := s.fraction_digits
  cases hf : s.fraction with
  | nil =>
    rw [pointText, List.nil_append]
    unfold fraction?
    split
    · simp at hpoint
    · rfl
  | cons f fs =>
    rw [hf] at hdigits
    simp only [pointText, List.cons_append, fraction?]
    rw [← List.cons_append, leading_append hdigits hdigit, behind_append hdigits hdigit]
    exact if_neg (List.cons_ne_nil f fs)

end Spelling

theorem powerDigits?_append (neg : Bool) (n : ℕ) (hrest : NoDigit rest) :
    powerDigits? neg (Layout.digitText n ++ rest) =
      some (if neg then -(n : ℤ) else n, rest) := by
  have hdigits := allDigits_digitText n
  rw [powerDigits?, leading_append hdigits hrest, behind_append hdigits hrest, value_digitText,
    if_neg (digitText_ne_nil n)]

theorem exponent?_append (power : Option ℤ) (hrest : Ends rest) :
    exponent? (powerText power ++ rest) = some (power, rest) := by
  cases power with
  | none =>
    rw [powerText, List.nil_append]
    unfold exponent?
    split
    · simp [Ends] at hrest
    · simp [Ends] at hrest
    · rfl
  | some e =>
    simp only [powerText, List.cons_append, exponent?]
    split
    · rename_i hneg
      rw [power?, powerDigits?_append true _ hrest.noDigit, Option.map_some, if_pos rfl]
      congr 3
      omega
    · rename_i hneg
      rw [power?, powerDigits?_append false _ hrest.noDigit, Option.map_some,
        if_neg Bool.false_ne_true]
      congr 3
      omega

theorem signed?_append (neg : Bool) {cs : List Char} (h : cs.head? ≠ some '-') :
    signed? (signText neg ++ cs) = (neg, cs) := by
  cases neg with
  | true => rfl
  | false =>
    rw [signText, if_neg Bool.false_ne_true, List.nil_append]
    unfold signed?
    split
    · simp at h
    · rfl

/-- A spelled number is read up to its end. -/
theorem Spelling.read?_append (s : Spelling) (neg : Bool) (hrest : Ends rest) :
    read? (signText neg ++ (s.text ++ rest)) = some (s.numeral neg, rest) := by
  have hhead : (s.text ++ rest).head? ≠ some '-' := by
    obtain ⟨c, ds, hds⟩ := List.exists_cons_of_ne_nil s.whole_ne_nil
    have hc := s.whole_digits c (hds ▸ List.mem_cons_self)
    rw [text, hds]
    rintro ⟨⟩
    nomatch hc
  have hpower : NoDigit (powerText s.power ++ rest) ∧
      (powerText s.power ++ rest).head? ≠ some '.' := by
    cases s.power with
    | none =>
      refine ⟨hrest.noDigit, fun h => ?_⟩
      exact (hrest '.' h).2.1 rfl
    | some e => exact ⟨noDigit_cons rfl, by simp [powerText]⟩
  have hpoint : NoDigit (pointText s.fraction ++ (powerText s.power ++ rest)) := by
    cases s.fraction with
    | nil => exact hpower.1
    | cons f fs => exact noDigit_cons rfl
  rw [read?, signed?_append neg hhead, text, List.append_assoc, List.append_assoc,
    s.whole?_append hpoint]
  simp only [Option.bind_some, s.fraction?_append hpower.1 hpower.2,
    exponent?_append s.power hrest]
  rfl

def decimal (n : Numeral) : Decimal := ⟨n.digits, n.exponent⟩

theorem Spelling.value_numeral (s : Spelling) (neg : Bool) :
    (s.numeral neg).decimal.value =
      value (s.whole ++ s.fraction) * 10 ^ (s.power.getD 0 - s.fraction.length) := rfl

end Numeral

namespace Layout

open Numeral

/-- The text is spelled so, and its value is the decimal's; where `marked`, it is told from an integer. -/
structure IsSpelling (s : Spelling) (text : List Char) (d : Decimal) (marked : Bool) : Prop where
  text_eq : s.text = text
  value_eq : ∀ neg, (s.numeral neg).decimal.value = d.value
  plain_eq : marked = true → ∀ neg, (s.numeral neg).plain = false

/-- All digits stand before the point, and zeros behind them. -/
theorem exists_spelling_whole (pointZero : Bool) {d : Decimal} (hexp : 0 ≤ d.exponent)
    (h : d.digits ≠ 0 ∨ d.exponent = 0) :
    ∃ s, IsSpelling s (digitText d.digits ++ List.replicate d.exponent.toNat '0' ++
      if pointZero then ['.', '0'] else []) d pointZero := by
  have hne := digitText_ne_nil d.digits
  have hfraction : AllDigits (if pointZero then ['0'] else []) := by
    split
    · exact allDigits_zeros 1
    · exact allDigits_zeros 0
  -- A zero at the head stands alone.
  have hhead : digitText d.digits ++ List.replicate d.exponent.toNat '0' = ['0'] ∨
      (digitText d.digits ++ List.replicate d.exponent.toNat '0').head? ≠ some '0' := by
    rcases h with h | h
    · right
      rw [List.head?_append_of_ne_nil _ hne]
      exact head?_digitText h
    · simpa [h] using head_digitText d.digits
  have hpow : (10 : ℚ) ^ d.exponent = (10 ^ d.exponent.toNat : ℕ) := by
    rw [ten_zpow_eq, show (-d.exponent).toNat = 0 by omega]
    simp
  refine ⟨⟨digitText d.digits ++ List.replicate d.exponent.toNat '0',
    if pointZero then ['0'] else [], none,
    (allDigits_digitText d.digits).append (allDigits_zeros d.exponent.toNat), by simp [hne], hhead,
    hfraction⟩, ?_, fun neg => ?_, fun hpoint neg => ?_⟩
  · cases pointZero <;> simp [Spelling.text, pointText, powerText]
  · rw [Spelling.value_numeral, Decimal.value, hpow]
    cases pointZero with
    | false => simp [value_append, value_digitText, value_zeros]
    | true =>
      simp only [if_true, value_append, value_digitText, value_zeros, List.length_replicate,
        List.length_singleton, Option.getD_none, show value ['0'] = 0 from rfl]
      push_cast
      rw [zpow_neg_one]
      field_simp
      ring
  · simp [Spelling.numeral, hpoint]

/-- The point stands behind the first `k` digits. -/
theorem exists_spelling_between (marked : Bool) {d : Decimal} (h : d.digits ≠ 0) {k : ℕ}
    (hk : 0 < k) (hlt : k < (digitText d.digits).length)
    (hexp : d.exponent = k - (digitText d.digits).length) :
    ∃ s, IsSpelling s ((digitText d.digits).take k ++ '.' :: (digitText d.digits).drop k) d
      marked := by
  have hdigits := allDigits_digitText d.digits
  have htake : (digitText d.digits).take k ≠ [] := by
    rw [← List.length_pos_iff, List.length_take]
    omega
  have hdrop : (digitText d.digits).drop k ≠ [] := by
    rw [← List.length_pos_iff, List.length_drop]
    omega
  have hhead : ((digitText d.digits).take k).head? ≠ some '0' := by
    rw [List.head?_take, if_neg hk.ne']
    exact head?_digitText h
  refine ⟨⟨(digitText d.digits).take k, (digitText d.digits).drop k, none,
    fun c hc => hdigits c (List.mem_of_mem_take hc), htake, .inr hhead,
    fun c hc => hdigits c (List.mem_of_mem_drop hc)⟩, ?_, fun neg => ?_, fun _ neg => ?_⟩
  · rw [Spelling.text, pointText_of_ne_nil hdrop, powerText, List.append_nil]
  · rw [Spelling.value_numeral, List.take_append_drop, value_digitText, List.length_drop,
      Decimal.value, Option.getD_none, hexp]
    congr 2
    omega
  · rw [Spelling.numeral, List.isEmpty_eq_false_iff.mpr hdrop, Bool.false_and]

/-- `k` zeros stand between the point and the digits. -/
theorem exists_spelling_below (marked : Bool) {d : Decimal} {k : ℕ}
    (hexp : d.exponent = -(k + (digitText d.digits).length)) :
    ∃ s, IsSpelling s ('0' :: '.' :: List.replicate k '0' ++ digitText d.digits) d marked := by
  have hfraction : List.replicate k '0' ++ digitText d.digits ≠ [] := by
    simp [digitText_ne_nil d.digits]
  refine ⟨⟨['0'], List.replicate k '0' ++ digitText d.digits, none, allDigits_zeros 1,
    List.cons_ne_nil _ _, .inl rfl, (allDigits_zeros k).append (allDigits_digitText d.digits)⟩, ?_,
    fun neg => ?_, fun _ neg => ?_⟩
  · rw [Spelling.text, pointText_of_ne_nil hfraction, powerText, List.append_nil]
    rfl
  · rw [Spelling.value_numeral, value_append, value_append, value_digitText, value_zeros,
      Decimal.value, List.length_append, List.length_replicate, Option.getD_none,
      show value ['0'] = 0 from rfl, zero_mul, zero_mul, zero_add, zero_add, hexp]
    congr 2
    omega
  · rw [Spelling.numeral, List.isEmpty_eq_false_iff.mpr hfraction, Bool.false_and]

/-- A decimal with the point set is a number without a power of ten. -/
theorem exists_spelling_positional (pointZero : Bool) {d : Decimal}
    (h : d.digits ≠ 0 ∨ d.exponent = 0) :
    ∃ s, IsSpelling s (positionalText pointZero d) d pointZero := by
  unfold positionalText
  simp only
  split
  · exact exists_spelling_whole pointZero (by assumption) h
  · rename_i hexp
    split
    · exact exists_spelling_between pointZero (h.resolve_right (by omega)) (by omega) (by omega)
        (by omega)
    · exact exists_spelling_below pointZero (by omega)

/-- A decimal with one digit before the point is a number with a power of ten. -/
theorem exists_spelling_scientific (marked : Bool) (d : Decimal) :
    ∃ s, IsSpelling s (scientificText d) d marked := by
  have hdigits := allDigits_digitText d.digits
  have hlength : 0 < (digitText d.digits).length := Nat.length_toDigits_pos
  have htake : (digitText d.digits).take 1 ≠ [] := by
    rw [← List.length_pos_iff, List.length_take]
    omega
  have hhead : (digitText d.digits).take 1 = ['0'] ∨
      ((digitText d.digits).take 1).head? ≠ some '0' := by
    rcases head_digitText d.digits with h | h
    · exact .inl (by rw [h]; rfl)
    · right
      rwa [List.head?_take, if_neg one_ne_zero]
  refine ⟨⟨(digitText d.digits).take 1, (digitText d.digits).drop 1,
    some ((digitText d.digits).length + d.exponent - 1),
    fun c hc => hdigits c (List.mem_of_mem_take hc), htake, hhead,
    fun c hc => hdigits c (List.mem_of_mem_drop hc)⟩, ?_, fun neg => ?_,
    fun _ _ => Bool.and_false _⟩
  · simp only [Spelling.text, scientificText, powerText, List.append_assoc]
    cases (digitText d.digits).drop 1 <;> rfl
  · rw [Spelling.value_numeral, List.take_append_drop, value_digitText, Decimal.value,
      List.length_drop, Option.getD_some]
    congr 2
    omega

theorem exists_spelling_magnitudeText (l : Layout) (m : Magnitude) :
    ∃ s, IsSpelling s (l.magnitudeText m) (m.shortest l.tie) l.pointZero := by
  have hdecimal : (m.shortest l.tie).digits ≠ 0 ∨ (m.shortest l.tie).exponent = 0 := by
    by_cases hm : m.val = 0
    · exact .inr (congrArg Decimal.exponent (Magnitude.shortest_of_zero hm))
    · left
      intro h
      have := (Magnitude.attracts_shortest l.tie (Nat.pos_of_ne_zero hm)).pos
      simp [Decimal.value, h, Nat.pos_of_ne_zero hm] at this
  unfold magnitudeText
  simp only
  split
  · exact exists_spelling_positional l.pointZero hdecimal
  · exact exists_spelling_scientific l.pointZero _

/-- The text of a finite double is a numeral of the double's value. -/
theorem read?_magnitudeText (l : Layout) (neg : Bool) (m : Magnitude) {rest : List Char}
    (hrest : Ends rest) :
    ∃ n, Numeral.read? (signText neg ++ (l.magnitudeText m ++ rest)) = some (n, rest) ∧
      n.toBinary64 = .finite neg m ∧ (l.pointZero = true → n.plain = false) := by
  obtain ⟨s, htext, hvalue, hplain⟩ := l.exists_spelling_magnitudeText m
  refine ⟨s.numeral neg, htext ▸ s.read?_append neg hrest, ?_, fun h => hplain h neg⟩
  by_cases hm : m.val = 0
  · have hzero := hvalue neg
    simp only [Magnitude.shortest_of_zero hm, Decimal.value, decimal, Nat.cast_zero, zero_mul,
      mul_eq_zero, Nat.cast_eq_zero] at hzero
    have hdigits : (s.numeral neg).digits = 0 := hzero.resolve_right (by positivity)
    have hmag : m = .zero := Fin.ext hm
    rw [toBinary64, Binary64.ofDecimal, if_pos (.inl hdigits), hmag]
    rfl
  · have hpos : 0 < m.val := Nat.pos_of_ne_zero hm
    have hattracts := Magnitude.attracts_shortest l.tie hpos
    rw [← hvalue neg] at hattracts
    exact hattracts.ofDecimal neg hpos

/-- The text of a whole number is a numeral without a point. -/
theorem read?_intText (i : ℤ) {rest : List Char} (hrest : Ends rest) :
    Numeral.read? (intText i ++ rest) = some (⟨decide (i < 0), i.natAbs, 0, true⟩, rest) := by
  have hdigits := allDigits_digitText i.natAbs
  have hhead := head_digitText i.natAbs
  have hread := Spelling.read?_append
    ⟨digitText i.natAbs, [], none, hdigits, digitText_ne_nil _, hhead, fun c hc => nomatch hc⟩
    (decide (i < 0)) hrest
  simpa [Spelling.text, Spelling.numeral, pointText, powerText, intText, signText, value_digitText]
    using hread

end Layout

end CampusQuery
