import CampusQuery.Number.Binary64

namespace CampusQuery

def hexDigit? (c : Char) : Option Nat :=
  if c.isDigit then some (c.toNat - 48)
  else if 'a' ≤ c ∧ c ≤ 'f' then some (c.toNat - 87)
  else if 'A' ≤ c ∧ c ≤ 'F' then some (c.toNat - 55)
  else none

def hexValue? (cs : List Char) : Option Nat :=
  cs.foldlM (fun n c => (hexDigit? c).map (16 * n + ·)) 0

/-- A number as written: `digits * 10 ^ exponent` with a sign. -/
structure Numeral where
  neg : Bool
  digits : Nat
  exponent : Int
  /-- Neither a fraction nor an exponent is written. -/
  plain : Bool
deriving DecidableEq, Repr

namespace Numeral

def digitValue (c : Char) : Nat := c.toNat - '0'.toNat

def value (ds : List Char) : Nat := ds.foldl (fun n c => 10 * n + digitValue c) 0

def leading (cs : List Char) : List Char := cs.takeWhile Char.isDigit

def behind (cs : List Char) : List Char := cs.dropWhile Char.isDigit

theorem leading_append_behind (cs : List Char) : leading cs ++ behind cs = cs :=
  List.takeWhile_append_dropWhile

theorem length_behind (cs : List Char) : (leading cs).length + (behind cs).length = cs.length := by
  rw [← List.length_append, leading_append_behind]

def signed? : List Char → Bool × List Char
  | '-' :: rest => (true, rest)
  | cs => (false, cs)

/-- The digits in front of the point: one zero, or digits that start with another one. -/
def whole? (cs : List Char) : Option (List Char × List Char) :=
  match leading cs with
  | [] => none
  | ['0'] => some (['0'], behind cs)
  | '0' :: _ => none
  | ds => some (ds, behind cs)

/-- The digits behind a point, none without a point; a point needs digits. -/
def fraction? : List Char → Option (List Char × List Char)
  | '.' :: cs => if leading cs = [] then none else some (leading cs, behind cs)
  | cs => some ([], cs)

def powerDigits? (neg : Bool) (cs : List Char) : Option (Int × List Char) :=
  if leading cs = [] then none
  else some (if neg then -(value (leading cs) : Int) else value (leading cs), behind cs)

def power? : List Char → Option (Int × List Char)
  | '+' :: cs => powerDigits? false cs
  | '-' :: cs => powerDigits? true cs
  | cs => powerDigits? false cs

def exponent? : List Char → Option (Option Int × List Char)
  | 'e' :: cs | 'E' :: cs => (power? cs).map fun (e, rest) => (some e, rest)
  | cs => some (none, cs)

def read? (cs : List Char) : Option (Numeral × List Char) :=
  (whole? (signed? cs).2).bind fun (whole, cs₁) =>
  (fraction? cs₁).bind fun (frac, cs₂) =>
  (exponent? cs₂).map fun (power, rest) =>
    ({ neg := (signed? cs).1
       digits := value (whole ++ frac)
       exponent := power.getD 0 - frac.length
       plain := frac.isEmpty && power.isNone }, rest)

theorem length_signed? (cs : List Char) : (signed? cs).2.length ≤ cs.length := by
  unfold signed?; split <;> simp

theorem length_of_whole? {cs ds rest : List Char} (h : whole? cs = some (ds, rest)) :
    rest.length < cs.length := by
  have := length_behind cs
  unfold whole? at h
  split at h
  · simp at h
  · rename_i he; simp only [Option.some.injEq, Prod.mk.injEq] at h
    rw [he, h.2] at this; simp only [List.length_cons] at this; omega
  · simp at h
  · rename_i hne _ _; simp only [Option.some.injEq, Prod.mk.injEq] at h
    rw [h.2] at this
    have : 0 < (leading cs).length := List.length_pos_iff.mpr hne
    omega

theorem length_of_fraction? {cs ds rest : List Char} (h : fraction? cs = some (ds, rest)) :
    rest.length ≤ cs.length := by
  unfold fraction? at h
  split at h
  · rename_i cs
    have := length_behind cs
    split at h <;> simp only [Option.some.injEq, Prod.mk.injEq, reduceCtorEq] at h
    rw [h.2] at this; simp only [List.length_cons]; omega
  · simp_all

theorem length_of_powerDigits? {neg : Bool} {cs rest : List Char} {e : Int}
    (h : powerDigits? neg cs = some (e, rest)) : rest.length ≤ cs.length := by
  have := length_behind cs
  unfold powerDigits? at h
  split at h <;> simp only [Option.some.injEq, Prod.mk.injEq, reduceCtorEq] at h
  rw [h.2] at this; omega

theorem length_of_power? {cs rest : List Char} {e : Int}
    (h : power? cs = some (e, rest)) : rest.length ≤ cs.length := by
  unfold power? at h
  split at h
  · have := length_of_powerDigits? h; simp only [List.length_cons]; omega
  · have := length_of_powerDigits? h; simp only [List.length_cons]; omega
  · exact length_of_powerDigits? h

theorem length_of_exponent? {cs rest : List Char} {e : Option Int}
    (h : exponent? cs = some (e, rest)) : rest.length ≤ cs.length := by
  unfold exponent? at h
  split at h
  all_goals simp only [Option.map_eq_some_iff, Option.some.injEq, Prod.mk.injEq, Prod.exists] at h
  · obtain ⟨_, _, hp, _, rfl⟩ := h
    have := length_of_power? hp; simp only [List.length_cons]; omega
  · obtain ⟨_, _, hp, _, rfl⟩ := h
    have := length_of_power? hp; simp only [List.length_cons]; omega
  · simp [h.2]

theorem length_of_read? {cs rest : List Char} {n : Numeral} (h : read? cs = some (n, rest)) :
    rest.length < cs.length := by
  simp only [read?, Option.bind_eq_some_iff, Option.map_eq_some_iff, Prod.exists,
    Prod.mk.injEq] at h
  obtain ⟨_, _, hw, _, _, hf, _, _, he, _, rfl⟩ := h
  have := length_signed? cs
  have := length_of_whole? hw
  have := length_of_fraction? hf
  have := length_of_exponent? he
  omega

def toBinary64 (n : Numeral) : Binary64 := Binary64.ofDecimal n.neg n.digits n.exponent

/-- The whole number that a plain numeral of at most 64 bits denotes; `-0` denotes a double. -/
def integer? (n : Numeral) : Option Int :=
  if n.plain = false ∨ (n.neg ∧ n.digits = 0) then none
  else if n.neg then if n.digits ≤ 0x8000_0000_0000_0000 then some (-n.digits) else none
  else if n.digits < 0x1_0000_0000_0000_0000 then some n.digits else none

end Numeral

end CampusQuery
