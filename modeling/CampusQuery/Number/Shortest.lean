import CampusQuery.Number.Binary64

namespace CampusQuery

/-- The number `digits * 10 ^ exponent`. -/
structure Decimal where
  digits : Nat
  exponent : Int
deriving DecidableEq, Repr

namespace Decimal

def stripZeros : (fuel : Nat) → Decimal → Decimal
  | 0, d => d
  | fuel + 1, d =>
    if d.digits ≠ 0 ∧ d.digits % 10 = 0 then stripZeros fuel ⟨d.digits / 10, d.exponent + 1⟩ else d

end Decimal

namespace Magnitude

def compareScaled (a : Nat) (i : Int) (n : Nat) (j : Int) : Ordering :=
  compare ((a * Nat.pow 10 i.toNat) <<< (-j).toNat) (n <<< j.toNat * Nat.pow 10 (-i).toNat)

/-- At a power of two the double below is half as far away as the double above. -/
def narrowBelow (m : Magnitude) : Bool :=
  m.val % 0x10_0000_0000_0000 == 0 && 0x20_0000_0000_0000 ≤ m.val

/-- `d` lies among the reals that round to `m`; the ends of the interval do if `m` is even. -/
def readsBack (m : Magnitude) (d : Decimal) : Bool :=
  let low := 4 * m.mantissa - if m.narrowBelow then 1 else 2
  let high := 4 * m.mantissa + 2
  let ends := m.mantissa % 2 == 0
  let below := compareScaled d.digits d.exponent low (m.exponent - 2)
  let above := compareScaled d.digits d.exponent high (m.exponent - 2)
  (below == .gt || ends && below == .eq) && (above == .lt || ends && above == .eq)

/-- The least `k` with `m < 10 ^ k`, searched from a lower estimate through the binary logarithm. -/
def decimalScale (m : Magnitude) : Int :=
  let start := (m.mantissa.log2 + m.exponent) * 30103 / 100000 - 1
  let above (k : Int) : Bool := compareScaled 1 k m.mantissa m.exponent == .gt
  ((List.range 4).map fun (i : Nat) => start + i).find? above |>.getD (start + 4)

def gridFloor (m : Magnitude) (g : Int) : Nat :=
  m.num * Nat.pow 10 (-g).toNat / (m.den * Nat.pow 10 g.toNat)

/-- Of the grid points next to `m` the one that reads back, of two the nearer. -/
def gridHit? (tie : Tie) (m : Magnitude) (g : Int) : Option Decimal :=
  let a := m.gridFloor g
  let low : Decimal := ⟨a, g⟩
  let high : Decimal := ⟨a + 1, g⟩
  match decide (a ≠ 0) && m.readsBack low, m.readsBack high with
  | true, true =>
    match compareScaled (2 * a + 1) g (2 * m.mantissa) m.exponent with
    | .gt => some low
    | .lt => some high
    | .eq => some (if tie = .even ∧ a % 2 = 0 then low else high)
  | true, false => some low
  | false, true => some high
  | false, false => none

def exactDecimal (m : Magnitude) : Decimal :=
  if 0 ≤ m.exponent then ⟨m.num, 0⟩ else ⟨m.mantissa * Nat.pow 5 (-m.exponent).toNat, m.exponent⟩

/-- The fewest digits that read back to `m`, nearest to it among those. -/
def shortest (tie : Tie) (m : Magnitude) : Decimal :=
  if m.val = 0 then ⟨0, 0⟩
  else
    let k := m.decimalScale
    let hit := (List.range 17).findSome? fun (n : Nat) => m.gridHit? tie (k - n - 1)
    (hit.getD m.exactDecimal).stripZeros 400

end Magnitude

end CampusQuery
