import CampusQuery.Number.Integer
import CampusQuery.Number.Layout

namespace CampusQuery

structure Quad where
  a : Nat
  b : Nat
  c : Nat
  d : Nat
deriving DecidableEq, Repr

inductive SocketAddress where
  | quad (host : Quad) (number : Nat)
  | groups (host : List Nat) (scope number : Nat)
deriving DecidableEq, Repr

namespace SocketAddress

abbrev Scan (α : Type) := StateT (List Char) Option α

def separator (sep : Char) (first : Bool) : Scan Unit := fun cs =>
  if first then some ((), cs)
  else match cs with
    | c :: rest => if c = sep then some ((), rest) else none
    | [] => none

def expect (c : Char) : Scan Unit := separator c false

def decimal (bound : Nat) : Scan Nat := fun cs =>
  match Integer.magnitude bound (Numeral.leading cs) with
  | .ok n => some (n, Numeral.behind cs)
  | .error _ => none

def byte : Scan Nat := fun cs =>
  match Numeral.leading cs with
  | '0' :: _ :: _ => none
  | _ => decimal 255 cs

def quadPart : Scan Quad := do
  let a ← byte
  expect '.'
  let b ← byte
  expect '.'
  let c ← byte
  expect '.'
  let d ← byte
  return ⟨a, b, c, d⟩

def hexGroup : Scan Nat := fun cs =>
  let ds := cs.takeWhile fun c => (hexDigit? c).isSome
  if ds.isEmpty ∨ 4 < ds.length then none
  else (hexValue? ds).map (·, cs.drop ds.length)

/-- At most `room` groups with colons between them, and whether four bytes stand for the last two.
What is no group ends the run. -/
def groupRun : (room : Nat) → (first : Bool) → List Char → List Nat × Bool × List Char
  | 0, _, cs => ([], false, cs)
  | room + 1, first, cs =>
    let quad := if room = 0 then none else (do separator ':' first; quadPart).run cs
    match quad, (do separator ':' first; hexGroup).run cs with
    | some (q, rest), _ => ([256 * q.a + q.b, 256 * q.c + q.d], true, rest)
    | none, some (g, rest) =>
      let (gs, closed, rest) := groupRun room false rest
      (g :: gs, closed, rest)
    | none, none => ([], false, cs)

/-- Eight groups, or fewer with two colons for the missing zeros. -/
def groupPart : Scan (List Nat) := fun cs =>
  let (head, closed, rest) := groupRun 8 true cs
  if head.length = 8 then some (head, rest)
  else if closed then none
  else match rest with
    | ':' :: ':' :: rest =>
      let (tail, _, rest) := groupRun (8 - (head.length + 1)) true rest
      some (head ++ List.replicate (8 - head.length - tail.length) 0 ++ tail, rest)
    | _ => none

def socketNumber : Scan Nat := do
  expect ':'
  decimal 0xffff

def quadAddress : Scan SocketAddress := return quad (← quadPart) (← socketNumber)

def scope : Scan Nat := fun cs =>
  match (do expect '%'; decimal 0xffff_ffff).run cs with
  | some (n, rest) => some (n, rest)
  | none => some (0, cs)

def groupAddress : Scan SocketAddress := do
  expect '['
  let host ← groupPart
  let scope ← scope
  expect ']'
  return groups host scope (← socketNumber)

/-- Four decimal bytes, or eight hexadecimal groups in brackets, and the number of the socket behind
a colon. -/
def read? (s : String) : Option SocketAddress :=
  match (quadAddress <|> groupAddress).run s.toList with
  | some (a, []) => some a
  | _ => none

def Quad.text (q : Quad) : String := s!"{q.a}.{q.b}.{q.c}.{q.d}"

def zeroRun (gs : List Nat) : Nat := (gs.takeWhile (· = 0)).length

/-- The place and length of the first of the longest runs of at least two zeros. -/
def longestZeros? (gs : List Nat) : Option (Nat × Nat) :=
  ((List.range gs.length).map fun i => (i, zeroRun (gs.drop i))).foldl (fun best (i, n) =>
    if 1 < n ∧ best.elim 1 (·.2) < n then some (i, n) else best) none

def hexText (gs : List Nat) : String :=
  ":".intercalate (gs.map fun g => String.ofList (Nat.toDigits 16 g))

def groupsText : List Nat → String
  | [0, 0, 0, 0, 0, 0xffff, g, h] =>
    "::ffff:" ++ Quad.text ⟨g / 256, g % 256, h / 256, h % 256⟩
  | gs =>
    match longestZeros? gs with
    | some (i, n) => hexText (gs.take i) ++ "::" ++ hexText (gs.drop (i + n))
    | none => hexText gs

def text : SocketAddress → String
  | quad host number => s!"{Quad.text host}:{number}"
  | groups host 0 number => s!"[{groupsText host}]:{number}"
  | groups host scope number => s!"[{groupsText host}%{scope}]:{number}"

end SocketAddress

end CampusQuery
