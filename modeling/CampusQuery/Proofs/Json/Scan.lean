import CampusQuery.Json.Reader

namespace CampusQuery.Json

namespace Token

theorem scan_eq (read : List Token) (cs : List Char) : scan read cs =
    match cs.dropWhile isSpace with
    | [] => some read.reverse
    | c :: tail => (head? (c :: tail)).bind fun (t, rest) => scan (t :: read) rest := by
  rw [scan]
  split
  · rename_i hnil
    rw [hnil]
  · rename_i c tail hcons
    rw [hcons]
    split <;> simp_all

def scanWithin : Nat → List Token → List Char → Option (List Token)
  | 0, _, _ => none
  | n + 1, read, cs =>
    match cs.dropWhile isSpace with
    | [] => some read.reverse
    | c :: tail =>
      match head? (c :: tail) with
      | some (t, rest) => scanWithin n (t :: read) rest
      | none => none

theorem scan_of_scanWithin {n : Nat} {read tokens : List Token} {cs : List Char}
    (h : scanWithin n read cs = some tokens) : scan read cs = some tokens := by
  induction n generalizing read cs with
  | zero => cases h
  | succ n ih =>
    rw [scanWithin] at h
    rw [scan_eq]
    split at h
    · simpa only using h
    · cases hhead : head? _ with
      | none =>
        rw [hhead] at h
        cases h
      | some p =>
        rw [hhead] at h
        exact ih h

end Token

theorem read?_of_scanWithin (n : Nat) {limit : Nat} {cs : List Char} {tokens : List Token} {v : Json}
    (hscan : Token.scanWithin n [] cs = some tokens)
    (hv : tokens.foldlM (Reading.step limit) .document = some (.finished v)) :
    read? limit cs = some v := by
  rw [read?, Token.scan_of_scanWithin hscan, Option.bind_eq_bind, Option.bind_some, hv]
  rfl

end CampusQuery.Json
