import CampusQuery.Query.Pattern
import Mathlib.Data.List.Induction
import Mathlib.Data.List.Infix

namespace CampusQuery

namespace Anchored

def reverse (a : Anchored) : Anchored := ⟨a.openEnd, a.needle.reverse, a.openStart⟩

theorem occurs_iff {needle cs : List Char} : occurs needle cs = true ↔ needle <:+: cs := by
  induction cs with
  | nil => rw [occurs, List.isEmpty_iff, List.infix_nil]
  | cons c cs ih =>
    rw [occurs, Bool.or_eq_true, List.isPrefixOf_iff_prefix, ih, List.infix_cons_iff]

/-- The needle has something in front of it or behind it only at an end that is open. -/
theorem accepts_iff {a : Anchored} {cs : List Char} :
    a.accepts cs = true ↔ ∃ u w, cs = u ++ a.needle ++ w ∧
      (a.openStart = false → u = []) ∧ (a.openEnd = false → w = []) := by
  obtain ⟨openStart, needle, openEnd⟩ := a
  simp only [@eq_comm _ cs]
  -- All of the text is compared, its start, its end, or any part of it.
  cases openStart <;> cases openEnd
  case false.false => simp [accepts]
  case false.true => simp [accepts, List.isPrefixOf_iff_prefix, List.IsPrefix]
  case true.false => simp [accepts, List.isSuffixOf_iff_suffix, List.IsSuffix]
  case true.true => simp [accepts, occurs_iff, List.IsInfix]

theorem accepts_reverse (a : Anchored) (cs : List Char) :
    a.reverse.accepts cs.reverse = a.accepts cs := by
  rw [Bool.eq_iff_iff, accepts_iff, accepts_iff]
  constructor
  · rintro ⟨u, w, h, hu, hw⟩
    refine ⟨w.reverse, u.reverse, ?_, ?_, ?_⟩
    · simpa [reverse, List.append_assoc] using congrArg List.reverse h
    · simpa [reverse] using hw
    · simpa [reverse] using hu
  · rintro ⟨u, w, rfl, hu, hw⟩
    refine ⟨w.reverse, u.reverse, ?_, ?_, ?_⟩
    · simp [reverse]
    · simpa [reverse] using hw
    · simpa [reverse] using hu

theorem ofRest_concat (openStart : Bool) (cs : List Char) (d : Char) :
    ofRest openStart (cs ++ [d]) =
      ⟨openStart, cs ++ (if d = '*' then [] else [d]), d == '*'⟩ := by
  by_cases hd : d = '*' <;> simp [ofRest, hd]

theorem ofChars_cons (c : Char) (cs : List Char) :
    ofChars (c :: cs) = if c = '*' then ofRest true cs else ofRest false (c :: cs) := by
  by_cases hc : c = '*'
  · rw [if_pos hc, hc, ofChars]
  · rw [if_neg hc, ofChars]
    rintro rest ⟨⟩
    exact hc rfl

/-- Of a pattern of two characters or more only asterisks at the edges are left out. -/
theorem ofChars_edges (c d : Char) (cs : List Char) :
    ofChars (c :: (cs ++ [d])) =
      ⟨c == '*', (if c = '*' then [] else [c]) ++ cs ++ (if d = '*' then [] else [d]),
        d == '*'⟩ := by
  rw [ofChars_cons, ← List.cons_append, ofRest_concat, ofRest_concat]
  by_cases hc : c = '*' <;> simp [hc]

theorem ofChars_reverse {cs : List Char} (h : cs ≠ ['*']) :
    ofChars cs.reverse = (ofChars cs).reverse := by
  cases cs using List.bidirectionalRec with
  | nil => rfl
  | singleton c =>
    have hc : c ≠ '*' := by
      rintro rfl
      exact h rfl
    have hread : ofChars [c] = ⟨false, [c], false⟩ := by
      rw [ofChars_cons, if_neg hc, ← List.nil_append [c], ofRest_concat]
      simp [hc]
    rw [List.reverse_singleton, hread]
    rfl
  | cons_append c cs d =>
    have hreverse : (c :: (cs ++ [d])).reverse = d :: (cs.reverse ++ [c]) := by simp
    rw [hreverse, ofChars_edges, ofChars_edges, reverse]
    by_cases hc : c = '*' <;> by_cases hd : d = '*' <;> simp [hc, hd]

end Anchored

namespace Pattern

variable (p : Pattern)

def Leads : Prop := ['*'] <+: p.raw.toList

instance : Decidable p.Leads := inferInstanceAs (Decidable (_ <+: _))

def afterLead : List Char := if p.Leads then p.raw.toList.tail else p.raw.toList

/-- An asterisk other than the leading one stands at the end. -/
def Trails : Prop := ['*'] <:+ p.afterLead

instance : Decidable p.Trails := inferInstanceAs (Decidable (_ <:+ _))

def needle : List Char := if p.Trails then p.afterLead.dropLast else p.afterLead

/-- The needle itself, with any text in front of it if an asterisk leads, and any behind it if one
trails. -/
def Matches (s : String) : Prop :=
  ∃ u w : List Char, s.toList = u ++ p.needle ++ w ∧ (¬p.Leads → u = []) ∧ (¬p.Trails → w = [])

def reverse : Pattern := ⟨String.ofList p.raw.toList.reverse⟩

variable {p}

theorem ofRest_afterLead (p : Pattern) (openStart : Bool) :
    Anchored.ofRest openStart p.afterLead = ⟨openStart, p.needle, decide p.Trails⟩ := by
  have hlast : p.afterLead.getLast? = some '*' ↔ p.Trails :=
    List.singleton_suffix_iff_getLast?_eq_some.symm
  rw [Anchored.ofRest, needle]
  by_cases h : p.Trails
  · rw [if_pos (hlast.mpr h), if_pos h, decide_eq_true h]
  · rw [if_neg (mt hlast.mp h), if_neg h, decide_eq_false h]

theorem ofChars_raw (p : Pattern) :
    Anchored.ofChars p.raw.toList = ⟨decide p.Leads, p.needle, decide p.Trails⟩ := by
  rw [← ofRest_afterLead]
  by_cases h : p.Leads
  · obtain ⟨cs, hraw⟩ := id h
    rw [afterLead, if_pos h, decide_eq_true h, ← hraw]
    rfl
  · rw [afterLead, if_neg h, decide_eq_false h]
    cases hraw : p.raw.toList with
    | nil => rfl
    | cons c cs =>
      have hc : c ≠ '*' := by
        rintro rfl
        exact h ⟨cs, hraw.symm⟩
      rw [Anchored.ofChars_cons, if_neg hc]

theorem accepts_iff_matches {s : String} : p.accepts s = true ↔ p.Matches s := by
  rw [accepts, ofChars_raw, Anchored.accepts_iff, Matches]
  simp only [decide_eq_false_iff_not]

/-- Behind an open start an empty needle is at the end of every text. -/
theorem matches_of_needle_eq_nil (h : p.needle = []) (hl : p.Leads) (s : String) : p.Matches s :=
  ⟨s.toList, [], by simp [h], fun hn => absurd hl hn, fun _ => rfl⟩

theorem matches_iff_of_plain (hl : ¬p.Leads) (ht : ¬['*'] <:+ p.raw.toList) {s : String} :
    p.Matches s ↔ s = p.raw := by
  have hafter : p.afterLead = p.raw.toList := if_neg hl
  have htrail : ¬p.Trails := by rwa [Trails, hafter]
  rw [Matches, needle, if_neg htrail, hafter, ← String.toList_inj]
  constructor
  · rintro ⟨u, w, h, hu, hw⟩
    rw [h, hu hl, hw htrail, List.nil_append, List.append_nil]
  · intro h
    exact ⟨[], [], by simp [h], fun _ => rfl, fun _ => rfl⟩

theorem accepts_reverse (p : Pattern) (s : String) :
    p.reverse.accepts (String.ofList s.toList.reverse) = p.accepts s := by
  by_cases h : p.raw.toList = ['*']
  · -- A single asterisk opens the start, from whichever end it is read.
    have hreverse : p.reverse = p := by
      rw [reverse, h, List.reverse_singleton, ← h, String.ofList_toList]
    have hneedle : p.needle = [] := by simp [needle, Trails, afterLead, Leads, h]
    have hall (t : String) : p.accepts t = true :=
      accepts_iff_matches.mpr (matches_of_needle_eq_nil hneedle ⟨[], h.symm⟩ t)
    rw [hreverse, hall, hall]
  · rw [accepts, accepts, reverse, String.toList_ofList, String.toList_ofList,
      Anchored.ofChars_reverse h, Anchored.accepts_reverse]

/-- A pattern accepts the texts that have its needle where its edges let it stand. So it does not
matter from which end pattern and text are read, asterisks alone accept every text, and a pattern
without asterisks at its edges accepts itself alone. -/
theorem accepts_globs (p : Pattern) (s : String) :
    (p.accepts s = true ↔ p.Matches s) ∧
    p.reverse.accepts (String.ofList s.toList.reverse) = p.accepts s ∧
    accepts ⟨"*"⟩ s = true ∧ accepts ⟨"**"⟩ s = true ∧
    (¬['*'] <+: p.raw.toList → ¬['*'] <:+ p.raw.toList → (p.accepts s = true ↔ s = p.raw)) := by
  refine ⟨accepts_iff_matches, p.accepts_reverse s, ?_, ?_, ?_⟩
  · exact accepts_iff_matches.mpr (matches_of_needle_eq_nil (by decide) (by decide) s)
  · exact accepts_iff_matches.mpr (matches_of_needle_eq_nil (by decide) (by decide) s)
  · intro hl ht
    rw [accepts_iff_matches, matches_iff_of_plain hl ht]

/-- An asterisk in the middle stands for itself. -/
theorem accepts_globs_inner :
    ¬['*'] <+: "c*c".toList ∧ ¬['*'] <:+ "c*c".toList ∧
      (accepts ⟨"c*c"⟩ "cpsc" = true ↔ "cpsc" = "c*c") :=
  ⟨by decide, by decide, (accepts_globs ⟨"c*c"⟩ "cpsc").2.2.2.2 (by decide) (by decide)⟩

end Pattern

end CampusQuery
