import CampusQuery.Number.Shortest

namespace CampusQuery

/-- The number `coeff / 10 ^ scale`. Numbers of one value and different scales are kept apart:
rounding leaves one that has few places as it is, and the way to a double leads through the scale.
-/
structure FixedPoint where
  coeff : Int
  scale : Nat
deriving DecidableEq, Repr

namespace FixedPoint

def maxScale : Nat := 28

def coeffBound : Nat := 1 <<< 96

def zero : FixedPoint := ⟨0, 0⟩

def signed (neg : Bool) (n : Nat) : Int := if neg then -n else n

/-- The value of a decimal, cut to `maxScale` places; `none` where the whole part does not fit. -/
def ofDecimal? (neg : Bool) (d : Decimal) : Option FixedPoint :=
  if 0 ≤ d.exponent then
    let n := d.digits * Nat.pow 10 d.exponent.toNat
    if n < coeffBound then some ⟨signed neg n, 0⟩ else none
  else
    let places := (-d.exponent).toNat
    if places ≤ maxScale then some ⟨signed neg d.digits, places⟩
    else some ⟨signed neg (roundDiv .away d.digits (Nat.pow 10 (places - maxScale))), maxScale⟩

/-- A double taken by its display digits. -/
def ofBinary64? : Binary64 → Option FixedPoint
  | .finite neg m => ofDecimal? neg (m.shortest .away)
  | _ => none

/-- Drops as few places as bring the coefficient below the bound. -/
def fit? (coeff : Int) (scale : Nat) : Option FixedPoint :=
  (List.range (scale + 1)).findSome? fun k =>
    let c := roundDiv .even coeff.natAbs (Nat.pow 10 k)
    if c < coeffBound then some ⟨signed (coeff < 0) c, scale - k⟩ else none

/-- Zero adds nothing, not even places. -/
def add? (x y : FixedPoint) : Option FixedPoint :=
  if x.coeff = 0 then some y
  else if y.coeff = 0 then some x
  else
    let scale := max x.scale y.scale
    fit? (x.coeff * Nat.pow 10 (scale - x.scale) + y.coeff * Nat.pow 10 (scale - y.scale)) scale

/-- By how many places `c` can grow below the bound, at most `most`. -/
def growth (c : Nat) : (most : Nat) → Nat
  | 0 => 0
  | most + 1 => if c * Nat.pow 10 (most + 1) < coeffBound then most + 1 else growth c most

theorem growth_le (c most : Nat) : growth c most ≤ most := by
  induction most with
  | zero => simp [growth]
  | succ n ih => unfold growth; split <;> omega

/-- The coefficient nearest to `num / den`, one place shorter if it reaches the bound. -/
def settle (num den scale : Nat) : Nat × Nat :=
  let c := roundDiv .even num den
  if c < coeffBound then (c, scale) else (roundDiv .even num (10 * den), scale - 1)

/-- Coefficient and scale of `num / den / 10 ^ scale`: while the division leaves a rest, it goes on
by as many places as fit, at most nine at a time. -/
def quotient (num den scale : Nat) : Nat × Nat :=
  if num % den = 0 then (num / den, scale)
  else
    let k := growth (num / den) (min 9 (maxScale - scale))
    if k = 0 then settle num den scale
    else if coeffBound ≤ num * Nat.pow 10 k / den then settle (num * Nat.pow 10 k) den (scale + k)
    else quotient (num * Nat.pow 10 k) den (scale + k)
termination_by maxScale - scale
decreasing_by
  have := growth_le (num / den) (min 9 (maxScale - scale))
  omega

def dropPlaces (k : Nat) (c scale : Nat) : Nat × Nat :=
  if k ≤ scale ∧ c % Nat.pow 10 k = 0 then (c / Nat.pow 10 k, scale - k) else (c, scale)

/-- Drops eight zeros at a time, as long as the coefficient ends in thirty-two zero bits. -/
def dropEights (c scale : Nat) : Nat × Nat :=
  if 8 ≤ scale ∧ c % 0x1_0000_0000 = 0 ∧ c % Nat.pow 10 8 = 0 then
    dropEights (c / Nat.pow 10 8) (scale - 8)
  else (c, scale)
termination_by scale

def dropZeros (c scale : Nat) : Nat × Nat :=
  let (c, scale) := dropEights c scale
  let (c, scale) := dropPlaces 4 c scale
  let (c, scale) := dropPlaces 2 c scale
  dropPlaces 1 c scale

/-- The quotient by a count. Only a division that leaves a rest drops zeros. -/
def divNat (x : FixedPoint) (n : Nat) : FixedPoint :=
  let m := x.coeff.natAbs
  let (c, scale) := quotient m n x.scale
  let (c, scale) := if m % n = 0 then (c, scale) else dropZeros c scale
  ⟨signed (x.coeff < 0) c, scale⟩

/-- Rounded half away from zero; a number with no more places is kept. -/
def roundPlaces (places : Nat) (x : FixedPoint) : FixedPoint :=
  if x.scale ≤ places then x
  else
    let c := roundDiv .away x.coeff.natAbs (Nat.pow 10 (x.scale - places))
    ⟨signed (x.coeff < 0) c, places⟩

/-- Whole part and fraction are converted apart, and their sum is rounded to the scale again. -/
def toBinary64 (x : FixedPoint) : Binary64 :=
  let m := x.coeff.natAbs
  let power := Binary64.ofNat (Nat.pow 10 x.scale)
  let whole := Binary64.ofNat (m / Nat.pow 10 x.scale)
  let magnitude :=
    if m % Nat.pow 10 x.scale = 0 then whole
    else
      let fraction := (Binary64.ofNat (m % Nat.pow 10 x.scale)).div power
      ((whole.add fraction).mul power).round.div power
  if x.coeff < 0 then magnitude.neg else magnitude

end FixedPoint

end CampusQuery
