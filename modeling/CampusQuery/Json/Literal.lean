import CampusQuery.Number.Numeral

namespace CampusQuery.Literal

def letter? : Char → Option Char
  | '"' => some '"'
  | '\\' => some '\\'
  | '/' => some '/'
  | 'b' => some '\x08'
  | 'f' => some '\x0c'
  | 'n' => some '\n'
  | 'r' => some '\r'
  | 't' => some '\t'
  | _ => none

def single? (unit : Nat) : Option Char :=
  if unit < 0xD800 ∨ 0xE000 ≤ unit then some (Char.ofNat unit) else none

def pair? (high low : Nat) : Option Char :=
  if 0xD800 ≤ high ∧ high < 0xDC00 ∧ 0xDC00 ≤ low ∧ low < 0xE000 then
    some (Char.ofNat (0x10000 + (high - 0xD800) * 0x400 + (low - 0xDC00)))
  else none

def trailing? (high : Nat) : List Char → Option (Char × List Char)
  | '\\' :: 'u' :: a :: b :: c :: d :: rest => do
    return (← pair? high (← hexValue? [a, b, c, d]), rest)
  | _ => none

def escaped? : List Char → Option (Char × List Char)
  | 'u' :: a :: b :: c :: d :: rest => do
    let unit ← hexValue? [a, b, c, d]
    match single? unit with
    | some ch => return (ch, rest)
    | none => trailing? unit rest
  | c :: rest => (letter? c).map (·, rest)
  | [] => none

theorem length_of_trailing? {high : Nat} {cs rest : List Char} {ch : Char}
    (h : trailing? high cs = some (ch, rest)) : rest.length < cs.length := by
  unfold trailing? at h
  split at h
  · simp [Option.bind_eq_some_iff] at h
    obtain ⟨_, _, _, _, _, rfl⟩ := h
    simp only [List.length_cons]; omega
  · simp at h

theorem length_of_escaped? {cs rest : List Char} {ch : Char}
    (h : escaped? cs = some (ch, rest)) : rest.length < cs.length := by
  unfold escaped? at h
  split at h
  · simp only [Option.bind_eq_bind, Option.bind_eq_some_iff] at h
    obtain ⟨unit, _, h⟩ := h
    split at h
    · simp only [pure, Option.some.injEq, Prod.mk.injEq] at h
      obtain ⟨_, rfl⟩ := h
      simp only [List.length_cons]; omega
    · have := length_of_trailing? h
      simp only [List.length_cons]; omega
  · simp only [Option.map_eq_some_iff, Prod.mk.injEq] at h
    obtain ⟨_, _, _, rfl⟩ := h
    simp
  · simp at h

/-- Reads up to the closing quote, and gives the text behind it; `read` holds the characters so
far, newest first. -/
def read? (read : List Char) (cs : List Char) : Option (String × List Char) :=
  match cs with
  | '"' :: rest => some (String.ofList read.reverse, rest)
  | '\\' :: rest =>
    match _h : escaped? rest with
    | some (ch, rest') => read? (ch :: read) rest'
    | none => none
  | c :: rest => if c.toNat < 0x20 then none else read? (c :: read) rest
  | [] => none
termination_by cs.length
decreasing_by
  · have := length_of_escaped? _h
    simp only [List.length_cons]; omega
  · simp

theorem length_of_read? {read cs rest : List Char} {s : String}
    (h : read? read cs = some (s, rest)) : rest.length < cs.length := by
  fun_induction read? read cs with
  | case1 => simp_all
  | case2 read rest' ch rest'' he ih =>
    have := ih h
    have := length_of_escaped? he
    simp only [List.length_cons]; omega
  | case3 => simp at h
  | case4 => simp at h
  | case5 read c rest' _ _ hc ih =>
    have := ih h
    simp only [List.length_cons]; omega
  | case6 => simp at h

def escape (c : Char) : List Char :=
  match c with
  | '"' => ['\\', '"']
  | '\\' => ['\\', '\\']
  | '\x08' => ['\\', 'b']
  | '\x0c' => ['\\', 'f']
  | '\n' => ['\\', 'n']
  | '\r' => ['\\', 'r']
  | '\t' => ['\\', 't']
  | c =>
    if c.toNat < 0x20 then
      ['\\', 'u', '0', '0', Nat.digitChar (c.toNat / 16), Nat.digitChar (c.toNat % 16)]
    else [c]

def render (s : String) : List Char := '"' :: s.toList.flatMap escape ++ ['"']

end CampusQuery.Literal
