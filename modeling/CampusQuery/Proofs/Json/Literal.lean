import CampusQuery.Json.Literal
import Mathlib.Data.List.Basic

namespace CampusQuery.Literal

theorem hexValue?_control {n : ℕ} (h : n < 32) :
    hexValue? ['0', '0', Nat.digitChar (n / 16), Nat.digitChar (n % 16)] = some n := by
  have hall : ∀ n < 32,
      hexValue? ['0', '0', Nat.digitChar (n / 16), Nat.digitChar (n % 16)] = some n := by decide
  exact hall n h

theorem escaped?_control {c : Char} (h : c.toNat < 0x20) (rest : List Char) :
    escaped? ('u' :: '0' :: '0' :: Nat.digitChar (c.toNat / 16) :: Nat.digitChar (c.toNat % 16) ::
      rest) = some (c, rest) := by
  have hsingle : single? c.toNat = some c := by
    rw [single?, if_pos (.inl (by omega)), Char.ofNat_toNat]
  simp only [escaped?, hexValue?_control h, Option.bind_eq_bind, Option.bind_some, hsingle]
  rfl

theorem read?_of_escaped {read rest rest' : List Char} {c : Char}
    (h : escaped? rest = some (c, rest')) :
    read? read ('\\' :: rest) = read? (c :: read) rest' := by
  rw [read?]
  split
  · rename_i heq
    obtain ⟨rfl, rfl⟩ := Prod.mk.inj (Option.some.inj (h.symm.trans heq))
    rfl
  · rename_i heq
    cases h.symm.trans heq

theorem read?_escape (read : List Char) (c : Char) (rest : List Char) :
    read? read (escape c ++ rest) = read? (c :: read) rest := by
  unfold escape
  split
  case h_8 hquote hslash _ _ _ _ _ =>
    split
    · rename_i hcontrol
      exact read?_of_escaped (escaped?_control hcontrol rest)
    · rename_i hcontrol
      rw [List.singleton_append, read?]
      · exact if_neg hcontrol
      · exact hquote
      · exact hslash
  -- The other characters have an escape of one letter.
  all_goals exact read?_of_escaped rfl

theorem read?_flatMap_escape (read cs rest : List Char) :
    read? read (cs.flatMap escape ++ '"' :: rest) =
      some (String.ofList (read.reverse ++ cs), rest) := by
  induction cs generalizing read with
  | nil => rw [List.flatMap_nil, List.nil_append, read?, List.append_nil]
  | cons c cs ih =>
    rw [List.flatMap_cons, List.append_assoc, read?_escape, ih, List.reverse_cons,
      List.append_assoc, List.singleton_append]

/-- What stands behind the opening quote of a written text. -/
theorem read?_render (s : String) (rest : List Char) :
    read? [] (s.toList.flatMap escape ++ '"' :: rest) = some (s, rest) := by
  rw [read?_flatMap_escape, List.reverse_nil, List.nil_append, String.ofList_toList]

end CampusQuery.Literal
