import CampusQuery.Proofs.Json.Literal
import CampusQuery.Proofs.Json.Scan
import CampusQuery.Proofs.Number.Text

namespace CampusQuery.Json

namespace Token

variable {cs rest : List Char} {t : Token}

theorem scan_of_head? (read : List Token) (h : head? (cs.dropWhile isSpace) = some (t, rest)) :
    scan read cs = scan (t :: read) rest := by
  rw [scan_eq]
  split
  · rename_i hnil
    rw [hnil] at h
    cases h
  · rename_i hcons
    rw [← hcons, h, Option.bind_some]

/-- The tokens read so far stand in front of those to come. -/
theorem scan_eq_map (read : List Token) (cs : List Char) :
    scan read cs = (scan [] cs).map (read.reverse ++ ·) := by
  induction hn : cs.length using Nat.strong_induction_on generalizing read cs with
  | _ n ih =>
    rw [scan_eq, scan_eq []]
    split
    · simp
    · rename_i c tail hcons
      cases hhead : head? (c :: tail) with
      | none => rfl
      | some p =>
        obtain ⟨t, rest⟩ := p
        have hlength : rest.length < n := by
          have := length_of_head? hhead
          have := length_dropWhile_le isSpace cs
          rw [hcons] at this
          omega
        simp only [Option.bind_some, ih rest.length hlength (t :: read) rest rfl,
          ih rest.length hlength [t] rest rfl, Option.map_map]
        congr 1
        funext tokens
        simp

theorem scan_of_space {c : Char} (h : isSpace c = true) (read : List Token) (cs : List Char) :
    scan read (c :: cs) = scan read cs := by
  rw [scan_eq, List.dropWhile_cons_of_pos h, ← scan_eq]

theorem isSpace_of_numeral {c : Char} {n : Numeral}
    (h : Numeral.read? (c :: cs) = some (n, rest)) : isSpace c = false := by
  by_contra hspace
  simp only [isSpace, Bool.not_eq_false, Bool.or_eq_true, decide_eq_true_eq] at hspace
  rcases hspace with ((rfl | rfl) | rfl) | rfl <;> cases h

theorem head?_of_numeral {n : Numeral} (h : Numeral.read? cs = some (n, rest)) :
    head? cs = some (number n, rest) := by
  unfold head?
  split
  case h_11 => rw [h]; rfl
  -- No numeral starts with the first character of another token.
  all_goals cases h

theorem head?_render (s : String) (rest : List Char) :
    head? ((Literal.render s ++ rest).dropWhile isSpace) = some (text s, rest) := by
  have hrender : Literal.render s ++ rest = '"' :: (s.toList.flatMap Literal.escape ++ '"' :: rest) := by
    simp [Literal.render]
  rw [hrender, List.dropWhile_cons_of_neg (by decide)]
  simp only [head?, Literal.read?_render, Option.map_some]

theorem head?_of_read? {n : Numeral} (h : Numeral.read? cs = some (n, rest)) :
    head? (cs.dropWhile isSpace) = some (number n, rest) := by
  have hspace : cs.dropWhile isSpace = cs := by
    cases cs with
    | nil => rfl
    | cons c cs => exact List.dropWhile_cons_of_neg (by simp [isSpace_of_numeral h])
  rw [hspace, head?_of_numeral h]

end Token

/-- The value of a text that is read from the state on. -/
def feed (limit : ℕ) (r : Reading) (cs : List Char) : Option Json := do
  let tokens ← Token.scan [] cs
  match ← tokens.foldlM (Reading.step limit) r with
  | .finished v => some v
  | _ => none

variable {limit : ℕ} {r r' : Reading} {cs rest : List Char} {t : Token}

theorem read?_eq_feed (limit : ℕ) (cs : List Char) : read? limit cs = feed limit .document cs := rfl

theorem feed_nil (limit : ℕ) (v : Json) : feed limit (.finished v) [] = some v := by
  rw [feed, Token.scan]
  rfl

theorem feed_space {c : Char} (h : Token.isSpace c = true) (r : Reading) (cs : List Char) :
    feed limit r (c :: cs) = feed limit r cs := by
  rw [feed, Token.scan_of_space h, feed]

theorem feed_spaces {spaces : List Char} (h : ∀ c ∈ spaces, Token.isSpace c = true) (r : Reading)
    (cs : List Char) : feed limit r (spaces ++ cs) = feed limit r cs := by
  induction spaces with
  | nil => rfl
  | cons c spaces ih =>
    rw [List.forall_mem_cons] at h
    rw [List.cons_append, feed_space h.1, ih h.2]

theorem feed_of_head? (h : Token.head? (cs.dropWhile Token.isSpace) = some (t, rest))
    (hstep : Reading.step limit r t = some r') : feed limit r cs = feed limit r' rest := by
  rw [feed, Token.scan_of_head? [] h, Token.scan_eq_map [t] rest, feed]
  cases Token.scan [] rest with
  | none => rfl
  | some tokens =>
    simp only [Option.map_some, Option.bind_eq_bind, Option.bind_some, List.reverse_singleton,
      List.singleton_append, List.foldlM_cons, hstep]

theorem feed_text {s : String} (hstep : Reading.step limit r (.text s) = some r')
    (rest : List Char) : feed limit r (Literal.render s ++ rest) = feed limit r' rest :=
  feed_of_head? (Token.head?_render s rest) hstep

theorem feed_number {n : Numeral} (h : Numeral.read? cs = some (n, rest))
    (hstep : Reading.step limit r (.number n) = some r') : feed limit r cs = feed limit r' rest :=
  feed_of_head? (Token.head?_of_read? h) hstep

end CampusQuery.Json
