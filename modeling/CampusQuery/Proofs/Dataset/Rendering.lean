import CampusQuery.Json.Writer
import CampusQuery.Proofs.Dataset.KeyText
import CampusQuery.Proofs.Number.Display
import CampusQuery.Proofs.Number.Grid

namespace CampusQuery

open Numeral

def withSign (neg : Bool) (v : ℚ) : ℚ := if neg then -v else v

theorem withSign_inj {neg : Bool} {v w : ℚ} : withSign neg v = withSign neg w ↔ v = w := by
  cases neg <;> simp [withSign]

theorem Magnitude.value_shortest_of_whole (tie : Tie) {m : Magnitude} {n : ℕ} (hvalue : m.value = n)
    (hlt : n < 2 ^ 53) : (m.shortest tie).value = n := by
  by_cases hm : m.val = 0
  · rw [shortest_of_zero hm, ← hvalue, (Fin.ext hm : m = .zero), value_zero, Decimal.value,
      Nat.cast_zero, zero_mul]
  · exact (shortest_of_whole tie (Nat.pos_of_ne_zero hm) hvalue hlt).1

namespace Binary64

variable {s : Bool} {m : Magnitude} {n : ℤ}

theorem toInt?_eq_some_iff : (finite s m).toInt? = some n ↔ withSign s m.value = n := by
  constructor
  · intro h
    have hvalue := value_of_toInt? h
    rw [toInt?_of_value hvalue, Option.some.injEq] at h
    rw [hvalue, ← h]
    cases s <;> simp [withSign]
  · intro h
    have hvalue : m.value = n.natAbs := by
      have hnonneg : 0 ≤ m.value := by rw [Magnitude.value]; positivity
      rw [Nat.cast_natAbs, Int.cast_abs, ← h]
      cases s <;> simp [withSign, abs_of_nonneg hnonneg]
    have hsigned : ((if s then -(n.natAbs : ℤ) else n.natAbs : ℤ) : ℚ) = n := by
      rw [← h, hvalue]
      cases s <;> rfl
    rw [toInt?_of_value hvalue, Int.cast_injective hsigned]

theorem exactInteger?_eq_some_iff :
    (finite s m).exactInteger? = some n ↔ withSign s m.value = n ∧ n.natAbs < 2 ^ 53 := by
  rw [exactInteger?, Option.filter_eq_some_iff, toInt?_eq_some_iff, decide_eq_true_eq,
    show maxExactInteger = 2 ^ 53 - 1 from rfl]
  exact and_congr_right fun _ => (by omega)

def mergeZeros (x : Binary64) : Binary64 := if x = zero.neg then zero else x

/-- The digits of a whole number read as the number, from either zero as zero. -/
theorem toBinary64_of_toInt? (h : (finite s m).toInt? = some n) :
    Numeral.toBinary64 ⟨decide (n < 0), n.natAbs, 0, true⟩ = mergeZeros (finite s m) := by
  have hsame : same (Numeral.toBinary64 ⟨decide (n < 0), n.natAbs, 0, true⟩) (finite s m) = true :=
    same_iff.mpr ⟨_, level?_of_toInt? h, rfl⟩
  have hzero : Numeral.toBinary64 ⟨false, 0, 0, true⟩ = zero := rfl
  -- Only the zeros share a place with another number, and their digits are read without a sign.
  unfold mergeZeros
  split
  · rename_i hneg
    rw [hneg] at h
    obtain rfl : n = 0 := (Option.some.inj h).symm
    exact hzero
  · rename_i hneg
    rcases eq_or_zeros_of_same hsame with heq | ⟨-, hx⟩ | ⟨-, hx⟩
    · exact heq
    · rw [hx] at h ⊢
      obtain rfl : n = 0 := (Option.some.inj h).symm
      exact hzero
    · exact absurd hx hneg

end Binary64

/-- The whole text is a numeral for `v`. -/
def Numeral.Denotes (text : List Char) (v : ℚ) : Prop := ∃ n, read? text = some (n, []) ∧ n.rat = v

theorem Numeral.Denotes.eq {text : List Char} {v w : ℚ} (h : Denotes text v)
    (h' : Denotes text w) : v = w := by
  obtain ⟨n, hn, rfl⟩ := h
  obtain ⟨n', hn', rfl⟩ := h'
  rw [hn, Option.some.injEq, Prod.mk.injEq] at hn'
  rw [hn'.1]

/-- The whole text is a numeral that rounds to `x`. -/
def Numeral.ReadsAs (text : List Char) (x : Binary64) : Prop :=
  ∃ n, read? text = some (n, []) ∧ n.toBinary64 = x

namespace Layout

/-- The text of a number in a layout; whole numbers that are exact are written as integers. -/
def numberText (l : Layout) (x : Binary64) : List Char :=
  match x.exactInteger? with
  | some n => intText n
  | none => (l.render x).toList

/-- A number's text is read to its end as the number, and what it stands for is the decimal with the
shortest digits, also where these are written as an integer. -/
theorem read?_numberText (l : Layout) (s : Bool) (m : Magnitude) :
    ∃ n, read? (l.numberText (.finite s m)) = some (n, []) ∧
      n.toBinary64 = .mergeZeros (.finite s m) ∧
      n.rat = withSign s (m.shortest l.tie).value := by
  rw [numberText]
  cases hi : (Binary64.finite s m).exactInteger? with
  | some i =>
    obtain ⟨hvalue, hlt⟩ := Binary64.exactInteger?_eq_some_iff.mp hi
    have hint := Binary64.toInt?_eq_some_iff.mpr hvalue
    have hread := read?_intText i ends_nil
    rw [List.append_nil] at hread
    refine ⟨_, hread, Binary64.toBinary64_of_toInt? hint, ?_⟩
    rw [Magnitude.value_shortest_of_whole _ (Binary64.value_of_toInt? hint) hlt,
      ← Binary64.value_of_toInt? hint, hvalue, rat_of_int]
  | none =>
    obtain ⟨spelling, htext, hvalue, -⟩ := l.exists_spelling_magnitudeText m
    have hread := spelling.read?_append s ends_nil
    obtain ⟨n, hread', hdouble, -⟩ := l.read?_magnitudeText s m ends_nil
    -- One text is read, so the numeral that rounds to the number is the one with the value.
    rw [List.append_nil, htext] at hread
    rw [List.append_nil, hread, Option.some.injEq, Prod.mk.injEq] at hread'
    obtain rfl := hread'.1
    refine ⟨_, by rw [render, String.toList_ofList]; exact hread, ?_, ?_⟩
    · rw [Binary64.mergeZeros, if_neg, hdouble]
      intro hzero
      rw [hzero] at hi
      cases hi
    · rw [rat, hvalue]
      rfl

theorem numberText_of_whole (l : Layout) {s : Bool} {m : Magnitude} {n : ℤ}
    (hvalue : withSign s m.value = n) (hn : n.natAbs < 2 ^ 53) :
    l.numberText (.finite s m) = intText n := by
  rw [numberText, Binary64.exactInteger?_eq_some_iff.mpr ⟨hvalue, hn⟩]

end Layout

namespace Cell

theorem compact_toJson (s : Bool) (m : Magnitude) :
    (number (.finite s m)).toJson.compact = Layout.json.numberText (.finite s m) := by
  rw [toJson, Layout.numberText]
  cases (Binary64.finite s m).exactInteger? with
  | some n => simp only [Json.compact]
  | none => simp only [Json.compact, Json.doubleText, Binary64.isFinite, if_true]

theorem toList_keyText (x : Binary64) :
    (number x).keyText.toList = Layout.display.numberText x := by
  rw [keyText, numberText, Layout.numberText]
  cases x.exactInteger? with
  | some n => exact String.toList_ofList
  | none => rfl

/-- The JSON text and the plain text of a finite number both read back as the number, and are its
integer digits where it is whole and below 2^53. They stand for one real number unless the number
lies midway between two decimals with the fewest digits, the lower of them even: then JSON has the
lower one and the plain text has the higher one. -/
theorem number_texts (s : Bool) (m : Magnitude) :
    ReadsAs (number (.finite s m)).toJson.compact (.mergeZeros (.finite s m)) ∧
    ReadsAs (number (.finite s m)).keyText.toList (.mergeZeros (.finite s m)) ∧
    (∀ n : ℤ, withSign s m.value = n → n.natAbs < 2 ^ 53 →
      (number (.finite s m)).toJson.compact = Layout.intText n ∧
      (number (.finite s m)).keyText.toList = Layout.intText n) ∧
    ((∃ v, Denotes (number (.finite s m)).toJson.compact v ∧
      Denotes (number (.finite s m)).keyText.toList v) ↔ ¬∃ d, m.Midway d) ∧
    ∀ d, m.Midway d → Denotes (number (.finite s m)).toJson.compact (withSign s d.value) ∧
      Denotes (number (.finite s m)).keyText.toList (withSign s d.next.value) := by
  obtain ⟨json, hjson, hjson_double, hjson_value⟩ := Layout.json.read?_numberText s m
  obtain ⟨plain, hplain, hplain_double, hplain_value⟩ := Layout.display.read?_numberText s m
  have hjson_denotes : Denotes (Layout.json.numberText (.finite s m)) _ :=
    ⟨json, hjson, hjson_value⟩
  have hplain_denotes : Denotes (Layout.display.numberText (.finite s m)) _ :=
    ⟨plain, hplain, hplain_value⟩
  rw [compact_toJson, toList_keyText]
  refine ⟨⟨json, hjson, hjson_double⟩, ⟨plain, hplain, hplain_double⟩, ?whole, ?one, ?midway⟩
  case whole =>
    intro n hvalue hn
    exact ⟨Layout.json.numberText_of_whole hvalue hn, Layout.display.numberText_of_whole hvalue hn⟩
  case one =>
    rw [m.exists_midway_iff, not_not]
    constructor
    -- Each text denotes one number, so what both denote makes the two numbers one.
    · rintro ⟨v, hv, hv'⟩
      exact withSign_inj.mp ((hjson_denotes.eq hv).trans (hv'.eq hplain_denotes))
    · intro heq
      exact ⟨_, hjson_denotes, heq ▸ hplain_denotes⟩
  case midway =>
    intro d hd
    obtain ⟨heven, haway⟩ := m.shortest_even_away.1 d hd
    exact ⟨heven ▸ hjson_denotes, haway ▸ hplain_denotes⟩

def midwayGrade : Magnitude := ⟨4635119181753221120, by decide⟩

theorem midway_midwayGrade : midwayGrade.Midway ⟨7700527954101562, -14⟩ where
  even := rfl
  value := by
    rw [Magnitude.value, show midwayGrade.mantissa = 5418764816351232 by decide,
      show midwayGrade.exponent = -46 by decide]
    norm_num
  low := (Magnitude.readsBack_iff (by decide) _).mp (by decide +kernel)
  high := (Magnitude.readsBack_iff (by decide) _).mp (by decide +kernel)
  fewest c hc := by
    have heven : midwayGrade.shortest .even = ⟨7700527954101562, -14⟩ := by decide +kernel
    have haway : midwayGrade.shortest .away = Decimal.next ⟨7700527954101562, -14⟩ := by
      decide +kernel
    exact ⟨heven ▸ Magnitude.size_shortest_le (by decide) .even hc,
      haway ▸ Magnitude.size_shortest_le (by decide) .away hc⟩

/-- A number that lies midway between its two texts, and a whole number with one text. -/
theorem number_texts_grades :
    midwayGrade.Midway ⟨7700527954101562, -14⟩ ∧
    Denotes (number (.finite false midwayGrade)).toJson.compact
      (withSign false (Decimal.value ⟨7700527954101562, -14⟩)) ∧
    Denotes (number (.finite false midwayGrade)).keyText.toList
      (withSign false (Decimal.value ⟨7700527954101563, -14⟩)) ∧
    ∃ m : Magnitude, withSign true m.value = (-98 : ℤ) ∧
      (number (.finite true m)).toJson.compact = Layout.intText (-98) ∧
      (number (.finite true m)).keyText.toList = Layout.intText (-98) := by
  obtain ⟨hjson, hplain⟩ := (number_texts false midwayGrade).2.2.2.2 _ midway_midwayGrade
  obtain ⟨m, hm⟩ := Magnitude.exists_value_eq (by decide : 98 < 2 ^ 53)
  have hvalue : withSign true m.value = (-98 : ℤ) := by
    rw [hm]
    rfl
  exact ⟨midway_midwayGrade, hjson, hplain, m, hvalue,
    (number_texts true m).2.2.1 (-98) hvalue (by decide)⟩

theorem midwayGrade_texts_differ :
    (number (.finite false midwayGrade)).toJson.compact = "77.00527954101562".toList ∧
    (number (.finite false midwayGrade)).keyText = "77.00527954101563" ∧
    ¬∃ v, Denotes (number (.finite false midwayGrade)).toJson.compact v ∧
      Denotes (number (.finite false midwayGrade)).keyText.toList v := by
  have hjson : (number (.finite false midwayGrade)).toJson.compact =
      "77.00527954101562".toList := by decide +kernel
  have hplain : (number (.finite false midwayGrade)).keyText = "77.00527954101563" := by
    decide +kernel
  refine ⟨hjson, hplain, ?_⟩
  rintro ⟨v, hv, hv'⟩
  rw [hjson] at hv
  rw [hplain] at hv'
  have hlow : Denotes "77.00527954101562".toList (7700527954101562 * 10 ^ (-14 : ℤ)) :=
    ⟨⟨false, 7700527954101562, -14, false⟩, by decide +kernel, rfl⟩
  have hhigh : Denotes "77.00527954101563".toList (7700527954101563 * 10 ^ (-14 : ℤ)) :=
    ⟨⟨false, 7700527954101563, -14, false⟩, by decide +kernel, rfl⟩
  have heq := (hlow.eq hv).trans (hv'.eq hhigh)
  norm_num at heq

end Cell

end CampusQuery
