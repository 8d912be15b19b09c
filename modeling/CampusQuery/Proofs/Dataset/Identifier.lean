import CampusQuery.Proofs.Dataset.RowReading
import CampusQuery.Proofs.Dataset.Rendering
import CampusQuery.Proofs.Query.Counting

namespace CampusQuery

open Numeral Outcome

namespace Binary64

variable {m n : ℤ}

theorem ofInt_ne_neg_zero (n : ℤ) : ofInt n ≠ zero.neg := by
  intro h
  by_cases hn : n = 0
  · subst hn
    exact absurd h (by decide)
  · rcases ofInt_cases n with hinf | ⟨m, k, hfinite, -, hpos⟩
    · cases hinf.symm.trans h
    · injection hfinite.symm.trans h with _ hzero
      exact absurd (hpos hn) (by rw [hzero]; decide)

theorem level?_ofInt_eq_iff : (ofInt m).level? = (ofInt n).level? ↔ ofInt m = ofInt n := by
  refine ⟨fun h => ?_, fun h => by rw [h]⟩
  have hnan : (ofInt m).isNaN = false := by
    rcases ofInt_cases m with hinf | ⟨mag, k, hfinite, -⟩
    · rw [hinf]
      rfl
    · rw [hfinite]
      rfl
  rcases eq_or_zeros_of_same ((same_iff_level?_eq hnan).mpr h) with heq | ⟨hzero, -⟩ | ⟨-, hzero⟩
  · exact heq
  · exact absurd hzero (ofInt_ne_neg_zero m)
  · exact absurd hzero (ofInt_ne_neg_zero n)

end Binary64

namespace Cell

variable {m n : ℤ}

/-- The text of a double is the digits of a whole number only if it displays this number. -/
theorem displayed?_of_numberText {s : Bool} {mag : Magnitude}
    (h : numberText (.finite s mag) = String.ofList (Layout.intText n)) :
    (Binary64.finite s mag).displayed? = some (n : ℚ) := by
  obtain ⟨numeral, hread, -, hrat⟩ := Layout.display.read?_numberText s mag
  have hint := Layout.read?_intText n ends_nil
  have htext : Layout.display.numberText (.finite s mag) = Layout.intText n := by
    rw [← toList_keyText, keyText, h, String.toList_ofList]
  rw [htext] at hread
  rw [List.append_nil, hread, Option.some.injEq, Prod.mk.injEq] at hint
  rw [hint.1, rat_of_int] at hrat
  rw [displayed?_finite, hrat]
  rfl

/-- A whole number that became a double has the number's digits as its text exactly if the digits of
the double are those of the number. -/
theorem numberText_ofInt_iff (m : ℤ) : numberText (.ofInt m) = String.ofList (Layout.intText m) ↔
    (Binary64.ofInt m).displayed? = some (m : ℚ) := by
  rcases Binary64.ofInt_cases m with hinf | ⟨mag, k, hfinite, hvalue, hpos⟩
  · have hread := read?_numberText_of_not_finite (x := .ofInt m) (by rw [hinf]; rfl)
    have hint := Layout.read?_intText m ends_nil
    rw [List.append_nil] at hint
    constructor
    · intro h
      rw [h, String.toList_ofList, hint] at hread
      cases hread
    · intro h
      obtain ⟨s, mag, hfinite⟩ := Binary64.exists_finite_of_displayed? h
      cases hinf.symm.trans hfinite
  · rw [hfinite]
    refine ⟨displayed?_of_numberText, fun h => ?_⟩
    -- Exact integers are written by themselves; beyond them the double is whole and has no point.
    rw [numberText]
    split
    · rename_i n hn
      have hown : numberText (.finite (decide (m < 0)) mag) = String.ofList (Layout.intText n) := by
        rw [numberText, hn]
      rw [displayed?_of_numberText hown, Option.some.injEq, Int.cast_inj] at h
      rw [h]
    · rename_i hnone
      have hm : m ≠ 0 := by
        rintro rfl
        rw [← hfinite] at hnone
        exact absurd hnone (by decide)
      rw [← Layout.display_of_whole (hpos hm) hvalue h, String.ofList_toList]

theorem numberText_ofInt_of_le (h : m.natAbs ≤ 2 ^ 53) :
    numberText (.ofInt m) = String.ofList (Layout.intText m) := by
  rcases Nat.lt_or_eq_of_le h with hlt | heq
  · have hexact : (Binary64.ofInt m).exactInteger? = some m := by
      rw [Binary64.exactInteger?, Binary64.toInt?_ofInt hlt, Option.filter_some, if_pos]
      exact decide_eq_true (Nat.le_of_lt_succ hlt)
    rw [numberText, hexact]
  · -- The next number is still displayed by its own digits.
    have hlast : m = 2 ^ 53 ∨ m = -2 ^ 53 := by omega
    rcases hlast with rfl | rfl
    · decide +kernel
    · decide +kernel

theorem numberText_ofInt_eq_iff :
    numberText (.ofInt m) = numberText (.ofInt n) ↔ Binary64.ofInt m = Binary64.ofInt n := by
  rw [numberText_eq_iff, Binary64.level?_ofInt_eq_iff]

end Cell

namespace Section

variable {m : ℤ} {s : Section}

/-- The section is what a row is read as that has the whole number `m` for its identifier. -/
def Numbered (m : ℤ) (s : Section) : Prop :=
  ∃ row, ofRow row = .ok s ∧ CourseRow.shape.member? row "id" = some (.int m)

theorem Numbered.uuid_eq (h : Numbered m s) : s.uuid = Cell.numberText (.ofInt m) := by
  obtain ⟨row, hrow, hid⟩ := h
  obtain ⟨r, hread, hsection⟩ := ofRow_eq_ok.mp hrow
  obtain ⟨year, -, rfl, -⟩ := CourseRow.toSection_eq_ok.mp hsection
  obtain ⟨given, hgiven, -, hbuild⟩ := (Shape.read_eq_ok CourseRow.nodup_memberNames).mp hread
  obtain ⟨⟨v, hv, hscalar⟩, -⟩ := CourseRow.build_eq_ok.mp hbuild
  rw [Shape.member?, hgiven, Option.bind_some, hv, Option.some.injEq] at hid
  rw [hid] at hscalar
  rw [CourseRow.sectionIn, ← Except.ok.inj hscalar, Cell.keyText]

/-- As many identifiers are counted as there are doubles of the numbers. -/
theorem Numbered.eval_count {ids : List ℤ} {sections : List Section}
    (h : List.Forall₂ Numbered ids sections) {id : String} (hid : '_' ∉ id.toList) (key : String) :
    Rule.eval ⟨key, .count, FieldName.qualify id "uuid"⟩ (sections.map record) =
      .ok (.number (.ofNat (ids.map Binary64.ofInt).toFinset.card)) := by
  have hvalues : Rule.Values (FieldName.qualify id "uuid") (sections.map record)
      (ids.map fun m => .text (Cell.numberText (.ofInt m))) := by
    rw [Rule.Values, FieldName.attributeName_qualify "uuid" hid, List.forall₂_map_left_iff,
      List.forall₂_map_right_iff]
    refine (h.imp fun m s hms => ?_).flip
    exact congrArg (fun text => some (Cell.text text)) hms.uuid_eq
  rw [Rule.eval_count hvalues, Rule.distinct, List.map_map]
  congr 3
  refine card_map_eq fun m _ n _ => ?_
  rw [← Cell.numberText_ofInt_eq_iff]
  exact iff_of_eq (Cell.text.injEq _ _)

/-- An identifier given as a whole number is the digits that its double displays. They are its own
up to 2^53; two identifiers are one exactly if the doubles are, and so they are counted. -/
theorem uuid_of_integer (h : Numbered m s) :
    (s.uuid = String.ofList (Layout.intText m) ↔
      (Binary64.ofInt m).displayed? = some (m : ℚ)) ∧
    (m.natAbs ≤ 2 ^ 53 → s.uuid = String.ofList (Layout.intText m)) ∧
    (∀ m' s', Numbered m' s' → (s.uuid = s'.uuid ↔ Binary64.ofInt m = Binary64.ofInt m')) ∧
    ∀ ids sections, List.Forall₂ Numbered ids sections → ∀ id key : String, '_' ∉ id.toList →
      Rule.eval ⟨key, .count, FieldName.qualify id "uuid"⟩ ((s :: sections).map record) =
        .ok (.number (.ofNat ((m :: ids).map Binary64.ofInt).toFinset.card)) := by
  rw [h.uuid_eq]
  refine ⟨Cell.numberText_ofInt_iff m, Cell.numberText_ofInt_of_le, fun m' s' h' => ?_,
    fun ids sections hsections id key hid => Numbered.eval_count (.cons h hsections) hid key⟩
  rw [h'.uuid_eq, Cell.numberText_ofInt_eq_iff]

theorem uuid_of_integer_101 : ∃ s s', Numbered 101 s ∧ Numbered (-7) s' ∧ s.uuid = "101" ∧
    Rule.eval ⟨"n", .count, FieldName.qualify "c" "uuid"⟩ ([s, s', s'].map record) =
      .ok (.number (.ofNat 2)) := by
  have h : Numbered 101 _ := ⟨.object (CourseRow.sample (.int 101) (.int 2015)), rfl, rfl⟩
  have h' : Numbered (-7) _ := ⟨.object (CourseRow.sample (.int (-7)) (.int 2015)), rfl, rfl⟩
  obtain ⟨-, htext, -, hcount⟩ := uuid_of_integer h
  refine ⟨_, _, h, h', htext (by decide), ?_⟩
  rw [hcount [-7, -7] _ (.cons h' (.cons h' .nil)) "c" "n" (by decide)]
  rfl

/-- The first number that is no double loses its last digit to its neighbour and is not counted. -/
theorem uuid_9007199254740993 : ∃ s s', Numbered 9007199254740992 s ∧
    Numbered 9007199254740993 s' ∧ s.uuid = "9007199254740992" ∧ s'.uuid = "9007199254740992" ∧
    Rule.eval ⟨"n", .count, FieldName.qualify "c" "uuid"⟩ ([s, s'].map record) =
      .ok (.number (.ofNat 1)) := by
  have h : Numbered 9007199254740992 _ :=
    ⟨.object (CourseRow.sample (.int 9007199254740992) (.int 2015)), rfl, rfl⟩
  have h' : Numbered 9007199254740993 _ :=
    ⟨.object (CourseRow.sample (.int 9007199254740993) (.int 2015)), rfl, rfl⟩
  refine ⟨_, _, h, h', by rw [h.uuid_eq]; decide +kernel, by rw [h'.uuid_eq]; decide +kernel, ?_⟩
  rw [Numbered.eval_count (.cons h (.cons h' .nil)) (by decide)]
  decide +kernel

end Section

end CampusQuery
