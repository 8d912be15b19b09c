import CampusQuery.Proofs.Dataset.RowReading
import CampusQuery.Proofs.Json.Whole
import CampusQuery.Proofs.Number.Integer

namespace CampusQuery

open Outcome

namespace CourseRow

variable {m : ℤ} {v : Json}

theorem scalar_of_number? {x : Binary64} (h : v.number? = some x) : scalar v = .ok (.number x) := by
  simp only [scalar, h]

theorem yearOf_number {x : Binary64}
    (h : x.toInt?.filter (·.natAbs < 2147483647) = if m.natAbs < 2147483647 then some m else none) :
    yearOf (.number x) = if m.natAbs < 2147483647 then .ok (Int32.ofInt m)
      else .error (.invalidYear (Layout.display.render x)) := by
  simp only [yearOf, h]
  split_ifs <;> rfl

theorem yearOf_text (m : ℤ) : yearOf (.text (String.ofList (Layout.intText m))) =
    if -2147483648 ≤ m ∧ m ≤ 2147483647 then .ok (Int32.ofInt m)
      else .error (.invalidYear (String.ofList (Layout.intText m))) := by
  simp only [yearOf, String.toList_ofList, trimBlanks_intText, Integer.int32_intText]
  split_ifs <;> rfl

end CourseRow

namespace Section

open CourseRow (withYear IsOverall)

variable {row year v : Json} {s : Section} {m : ℤ} {c : Cell}

def LoadedIn (s : Section) (m : ℤ) (result : Except RowError Section) : Prop :=
  result = .ok { s with year := Int32.ofInt m } ∧ (Int32.ofInt m).toInt = m

def YearRefused (result : Except RowError Section) : Prop :=
  ∃ given, result = .error (.invalidYear given)

/-- A row that is a section with some year is one with any other that is taken. -/
theorem ofRow_withYear (hrow : ofRow (withYear row year) = .ok s) (hoverall : ¬IsOverall row)
    (hc : CourseRow.scalar v = .ok c) :
    ofRow (withYear row v) = (CourseRow.yearOf c).map fun y => { s with year := y } := by
  obtain ⟨r, hread, hsection⟩ := ofRow_eq_ok.mp hrow
  obtain ⟨y, -, rfl, hviolations⟩ := CourseRow.toSection_eq_ok.mp hsection
  have hlabel : r.label ≠ some "overall" := by
    rwa [Ne, CourseRow.label_eq_overall_iff hread, CourseRow.isOverall_withYear]
  have hread' := CourseRow.ofJson_withYear hread hc
  rw [CourseRow.withYear_withYear] at hread'
  have hyear : CourseRow.takenYear { r with year := c } = CourseRow.yearOf c := if_neg hlabel
  rw [ofRow, hread', ok_mapError, ok_bind, CourseRow.toSection_eq, hyear]
  -- The rules look at other fields than the year.
  cases CourseRow.yearOf c with
  | error e => rfl
  | ok y' =>
    have hpassed : (CourseRow.sectionIn { r with year := c } y').violations = [] := hviolations
    rw [ok_bind, hpassed]
    rfl

theorem loadedIn_and_yearRefused {p : Prop} [Decidable p] {given : String}
    {result : Except RowError Section} (hrange : p → -2147483648 ≤ m ∧ m ≤ 2147483647)
    (h : result = (if p then .ok (Int32.ofInt m) else .error (.invalidYear given) :
      Except RowError Int32).map fun y => { s with year := y }) :
    (s.LoadedIn m result ↔ p) ∧ (YearRefused result ↔ ¬p) := by
  by_cases hp : p
  · rw [if_pos hp] at h
    have hyear : (Int32.ofInt m).toInt = m :=
      Int32.toInt_ofInt_of_le (hrange hp).1 (by have := (hrange hp).2; omega)
    refine ⟨iff_of_true ⟨h, hyear⟩ hp, iff_of_false ?_ (not_not_intro hp)⟩
    rintro ⟨given', hgiven⟩
    cases h.symm.trans hgiven
  · rw [if_neg hp] at h
    refine ⟨iff_of_false ?_ hp, iff_of_true ⟨given, h⟩ hp⟩
    rintro ⟨hok, -⟩
    cases h.symm.trans hok

/-- A whole number for a year, as a number and as the text of its digits, in a row that is a section
but for its year and does not sum up a course. Each form is taken in its own range and refused
outside of it, and they come to the same except for three years at the ends of the 32 bits. -/
theorem year_of_number_and_text (hrow : ofRow (withYear row year) = .ok s)
    (hoverall : ¬IsOverall row) (hv : v.Denotes m) :
    let number := ofRow (withYear row v)
    let text := ofRow (withYear row (.string (String.ofList (Layout.intText m))))
    (s.LoadedIn m number ↔ m.natAbs < 2147483647) ∧
    (YearRefused number ↔ ¬m.natAbs < 2147483647) ∧
    (s.LoadedIn m text ↔ -2147483648 ≤ m ∧ m ≤ 2147483647) ∧
    (YearRefused text ↔ ¬(-2147483648 ≤ m ∧ m ≤ 2147483647)) ∧
    (s.LoadedIn m number ∧ s.LoadedIn m text ∨ YearRefused number ∧ YearRefused text ↔
      m ≠ 2147483647 ∧ m ≠ -2147483647 ∧ m ≠ -2147483648) := by
  intro number text
  have hbound : 2147483647 ≤ 2 ^ 53 := by norm_num
  obtain ⟨x, hx, hfilter⟩ := hv.filter_toInt? hbound
  have hnumber := ofRow_withYear hrow hoverall (CourseRow.scalar_of_number? hx)
  rw [CourseRow.yearOf_number hfilter] at hnumber
  have htext := ofRow_withYear (v := .string (String.ofList (Layout.intText m))) hrow hoverall rfl
  rw [CourseRow.yearOf_text] at htext
  obtain ⟨hload, hrefuse⟩ := loadedIn_and_yearRefused (by omega) hnumber
  obtain ⟨hload', hrefuse'⟩ := loadedIn_and_yearRefused (fun h => h) htext
  refine ⟨hload, hrefuse, hload', hrefuse', ?_⟩
  -- One range is three years shorter than the other.
  rw [hload, hrefuse, hload', hrefuse']
  omega

theorem year_of_number_and_text_2015 :
    let row := Json.object (CourseRow.sample (.int 1) .null)
    ∃ s, ofRow (withYear row (.int 0)) = .ok s ∧ ¬IsOverall row ∧ (Json.int 2015).Denotes 2015 ∧
      s.LoadedIn 2015 (ofRow (withYear row (.int 2015))) ∧
      s.LoadedIn 2015 (ofRow (withYear row (.string "2015"))) := by
  intro row
  have hrow : ofRow (withYear row (.int 0)) = .ok _ := rfl
  have hoverall : ¬IsOverall row := by
    rintro ⟨⟩
  have hdenotes : (Json.int 2015).Denotes (2015 : ℤ) := Json.denotes_int (by norm_num) (by norm_num)
  obtain ⟨hnumber, -, htext, -, -⟩ := year_of_number_and_text hrow hoverall hdenotes
  exact ⟨_, hrow, hoverall, hdenotes, hnumber.mpr (by decide), htext.mpr (by decide)⟩

/-- The largest year of 32 bits is refused as a number and taken as a text. -/
theorem year_2147483647 :
    YearRefused (ofRow (.object (CourseRow.sample (.int 1) (.int 2147483647)))) ∧
      ∃ s, ofRow (.object (CourseRow.sample (.int 1) (.string "2147483647"))) = .ok s ∧
        s.year.toInt = 2147483647 :=
  ⟨⟨_, rfl⟩, _, rfl, rfl⟩

end Section

end CampusQuery
