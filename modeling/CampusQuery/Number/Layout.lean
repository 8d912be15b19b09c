import CampusQuery.Number.Shortest

namespace CampusQuery

structure Layout where
  /-- The exponents of the leading digit that are written positionally. -/
  positional : Int → Bool
  /-- Whole numbers end in `.0`. -/
  pointZero : Bool
  /-- Which of two equally near decimals is written. -/
  tie : Tie

namespace Layout

/-- Display text: never an exponent, no fraction on whole numbers. -/
def display : Layout := ⟨fun _ => true, false, .away⟩

/-- JSON text: positional from a hundred-thousandth up to sixteen digits before the point. -/
def json : Layout := ⟨fun e => -5 ≤ e && e ≤ 15, true, .even⟩

def digitText (n : Nat) : List Char := Nat.toDigits 10 n

def intText (n : Int) : List Char := (if n < 0 then ['-'] else []) ++ digitText n.natAbs

def positionalText (pointZero : Bool) (d : Decimal) : List Char :=
  let ds := digitText d.digits
  let point : Int := ds.length + d.exponent
  if 0 ≤ d.exponent then
    ds ++ List.replicate d.exponent.toNat '0' ++ if pointZero then ['.', '0'] else []
  else if 0 < point then ds.take point.toNat ++ '.' :: ds.drop point.toNat
  else '0' :: '.' :: List.replicate (-point).toNat '0' ++ ds

def scientificText (d : Decimal) : List Char :=
  let ds := digitText d.digits
  let e : Int := ds.length + d.exponent - 1
  let fraction := match ds.drop 1 with
    | [] => []
    | rest => '.' :: rest
  ds.take 1 ++ fraction ++ 'e' :: (if e < 0 then '-' else '+') :: digitText e.natAbs

def magnitudeText (l : Layout) (m : Magnitude) : List Char :=
  let d := m.shortest l.tie
  let e : Int := (digitText d.digits).length + d.exponent - 1
  if l.positional e then positionalText l.pointZero d else scientificText d

def render (l : Layout) : Binary64 → String
  | .finite neg m => String.ofList ((if neg then ['-'] else []) ++ l.magnitudeText m)
  | .infinite neg => if neg then "-inf" else "inf"
  | .quietNaN .. => "NaN"

end Layout

end CampusQuery
