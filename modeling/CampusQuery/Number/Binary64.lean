namespace CampusQuery

/-- Where a quotient goes that lies halfway between two whole numbers. -/
inductive Tie where
  | even
  | away
deriving DecidableEq, Repr

def roundDiv (tie : Tie) (num den : Nat) : Nat :=
  let q := num / den
  match compare (2 * (num % den)) den with
  | .lt => q
  | .gt => q + 1
  | .eq => if tie = .even ∧ q % 2 = 0 then q else q + 1

theorem roundDiv_of_dvd (tie : Tie) {num den : Nat} (hd : 0 < den) (h : den ∣ num) :
    roundDiv tie num den = num / den := by
  have hr : num % den = 0 := Nat.mod_eq_zero_of_dvd h
  have hc : compare (2 * (num % den)) den = .lt := by rw [hr, Nat.compare_eq_lt]; omega
  simp only [roundDiv, hc]

theorem roundDiv_le (tie : Tie) (num den : Nat) : roundDiv tie num den ≤ num / den + 1 := by
  unfold roundDiv
  dsimp only
  split
  · exact Nat.le_succ _
  · exact Nat.le_refl _
  · split
    · exact Nat.le_succ _
    · exact Nat.le_refl _

/-- The magnitude bits of a finite double: eleven of exponent above fifty-two of fraction. -/
abbrev Magnitude := Fin 0x7ff0_0000_0000_0000

namespace Magnitude

def zero : Magnitude := ⟨0, by decide⟩

def mantissa (m : Magnitude) : Nat :=
  if m.val < 0x10_0000_0000_0000 then m.val
  else 0x10_0000_0000_0000 + m.val % 0x10_0000_0000_0000

def exponent (m : Magnitude) : Int :=
  if m.val < 0x10_0000_0000_0000 then -1074 else (m.val / 0x10_0000_0000_0000 : Nat) - 1075

def num (m : Magnitude) : Nat := m.mantissa <<< m.exponent.toNat

def den (m : Magnitude) : Nat := 1 <<< (-m.exponent).toNat

theorem den_pos (m : Magnitude) : 0 < m.den := by
  rw [den, Nat.one_shiftLeft]
  exact Nat.two_pow_pos _

/-- The exponent of the last mantissa bit of the double nearest to the positive `num / den`. -/
def lastPlace (num den : Nat) : Int :=
  let k : Int := num.log2 - den.log2
  let e := if num <<< (-k).toNat < den <<< k.toNat then k - 1 else k
  max (-1074) (e - 52)

/-- The magnitude nearest to `num / den`, ties to even; `none` where that exceeds every double. -/
def ofRatio? (num den : Nat) : Option Magnitude :=
  if num = 0 then some zero
  else
    let q := lastPlace num den
    let m := roundDiv .even (num <<< (-q).toNat) (den <<< q.toNat)
    let bits := (q + 1074).toNat * 0x10_0000_0000_0000 + m
    if h : bits < 0x7ff0_0000_0000_0000 then some ⟨bits, h⟩ else none

end Magnitude

/-- What a quiet NaN carries below its quiet bit. -/
abbrev Payload := Fin 0x8_0000_0000_0000

/-- A double. All NaNs are quiet, as arithmetic makes them, and every operation is the exact
rational result rounded once. -/
inductive Binary64 where
  | finite (neg : Bool) (mag : Magnitude)
  | infinite (neg : Bool)
  | quietNaN (neg : Bool) (payload : Payload)
deriving DecidableEq, Repr

namespace Binary64

def zero : Binary64 := .finite false .zero

instance : Inhabited Binary64 := ⟨zero⟩

/-- The NaN with an empty payload; operations without a result give the negative one. -/
def nan (neg : Bool) : Binary64 := .quietNaN neg ⟨0, by decide⟩

def ofRatio (neg : Bool) (num den : Nat) : Binary64 :=
  match Magnitude.ofRatio? num den with
  | some m => .finite neg m
  | none => .infinite neg

def ofInt (n : Int) : Binary64 := ofRatio (n < 0) n.natAbs 1

def ofNat (n : Nat) : Binary64 := ofRatio false n 1

/-- `digits * 10 ^ exponent`, rounded once. Far outside the range of doubles no power is formed. -/
def ofDecimal (neg : Bool) (digits : Nat) (exponent : Int) : Binary64 :=
  let size : Int := (Nat.toDigits 10 digits).length
  if digits = 0 ∨ size + exponent < -330 then .finite neg .zero
  else if 320 < size + exponent then .infinite neg
  else ofRatio neg (digits * Nat.pow 10 exponent.toNat) (Nat.pow 10 (-exponent).toNat)

def isNegative : Binary64 → Bool
  | .finite neg _ | .infinite neg | .quietNaN neg _ => neg

def isFinite : Binary64 → Bool
  | .finite .. => true
  | _ => false

def isNaN : Binary64 → Bool
  | .quietNaN .. => true
  | _ => false

/-- The place of a number on the line, the two zeros in one; a NaN has none. -/
def level? : Binary64 → Option Int
  | .finite neg m => some (if neg then -m.val else m.val)
  | .infinite neg => some (if neg then -0x7ff0_0000_0000_0000 else 0x7ff0_0000_0000_0000)
  | .quietNaN .. => none

def relates (r : Int → Int → Bool) (x y : Binary64) : Bool :=
  match x.level?, y.level? with
  | some i, some j => r i j
  | _, _ => false

def lt : Binary64 → Binary64 → Bool := relates (· < ·)

def le : Binary64 → Binary64 → Bool := relates (· ≤ ·)

def same : Binary64 → Binary64 → Bool := relates (· == ·)

def magnitudeBits : Binary64 → Nat
  | .finite _ m => m.val
  | .infinite _ => 0x7ff0_0000_0000_0000
  | .quietNaN _ payload => 0x7ff8_0000_0000_0000 + payload.val

/-- The place in the total order: negative NaNs, -∞, …, -0, 0, …, ∞, positive NaNs. -/
def rank (x : Binary64) : Int := if x.isNegative then -x.magnitudeBits - 1 else x.magnitudeBits

def totalCompare (x y : Binary64) : Ordering := compare x.rank y.rank

/-- The larger number; a NaN gives way to any number, and of equals the second is taken. -/
def max (x y : Binary64) : Binary64 := if x.isNaN || x.le y then y else x

def min (x y : Binary64) : Binary64 := if x.isNaN || y.le x then y else x

def neg : Binary64 → Binary64
  | .finite s m => .finite (!s) m
  | .infinite s => .infinite (!s)
  | .quietNaN s p => .quietNaN (!s) p

def abs : Binary64 → Binary64
  | .finite _ m => .finite false m
  | .infinite _ => .infinite false
  | .quietNaN _ p => .quietNaN false p

/-- A sum of zero is negative only if both terms are. -/
def add : Binary64 → Binary64 → Binary64
  | .quietNaN s p, _ => .quietNaN s p
  | _, .quietNaN t p => .quietNaN t p
  | .infinite s, .infinite t => if s = t then .infinite s else nan true
  | .infinite s, _ => .infinite s
  | _, .infinite t => .infinite t
  | .finite s x, .finite t y =>
    let a : Int := x.num * y.den
    let b : Int := y.num * x.den
    let sum := (if s then -a else a) + (if t then -b else b)
    if sum = 0 then .finite (s && t) .zero else ofRatio (sum < 0) sum.natAbs (x.den * y.den)

def mul : Binary64 → Binary64 → Binary64
  | .quietNaN s p, _ => .quietNaN s p
  | _, .quietNaN t p => .quietNaN t p
  | .infinite s, .infinite t => .infinite (s != t)
  | .infinite s, .finite t y => if y.num = 0 then nan true else .infinite (s != t)
  | .finite s x, .infinite t => if x.num = 0 then nan true else .infinite (s != t)
  | .finite s x, .finite t y => ofRatio (s != t) (x.num * y.num) (x.den * y.den)

def div : Binary64 → Binary64 → Binary64
  | .quietNaN s p, _ => .quietNaN s p
  | _, .quietNaN t p => .quietNaN t p
  | .infinite _, .infinite _ => nan true
  | .infinite s, .finite t _ => .infinite (s != t)
  | .finite s _, .infinite t => .finite (s != t) .zero
  | .finite s x, .finite t y =>
    if y.num = 0 then if x.num = 0 then nan true else .infinite (s != t)
    else ofRatio (s != t) (x.num * y.den) (x.den * y.num)

def round : Binary64 → Binary64
  | .finite s m => ofRatio s (roundDiv .away m.num m.den) 1
  | x => x

def toInt? : Binary64 → Option Int
  | .finite s m =>
    if m.num % m.den = 0 then
      let n : Int := (m.num / m.den : Nat)
      some (if s then -n else n)
    else none
  | _ => none

/-- Up to this magnitude the doubles hold every whole number. -/
def maxExactInteger : Nat := 0x1f_ffff_ffff_ffff

def exactInteger? (x : Binary64) : Option Int :=
  x.toInt?.filter (·.natAbs ≤ maxExactInteger)

end Binary64

end CampusQuery
