import CampusQuery.Number.Numeral
import CampusQuery.Text

namespace CampusQuery

/-- Seconds since 1970-01-01T00:00:00Z, and nanoseconds. A leap second is the second before it with
a billion or more of these. -/
structure Timestamp where
  seconds : Int
  nanos : Nat
deriving DecidableEq, Repr

inductive TimestampError where
  | tooShort
  | invalid
  | outOfRange
  | tooLong
  | impossible
deriving DecidableEq, Repr

def TimestampError.message : TimestampError → String
  | tooShort => "premature end of input"
  | invalid => "input contains invalid characters"
  | outOfRange => "input is out of range"
  | tooLong => "trailing input"
  | impossible => "no possible date and time matching input"

namespace Timestamp

def epoch : Timestamp := ⟨0, 0⟩

/-- Days since 1970-01-01 of a date of the Gregorian calendar. Years are counted from March, so that
a leap day ends its year. -/
def dayNumber (year : Int) (month day : Nat) : Int :=
  let y := if month ≤ 2 then year - 1 else year
  let era := y.fdiv 400
  let yearOfEra := y - era * 400
  let dayOfYear : Int := (153 * ((month + 9) % 12) + 2) / 5 + day - 1
  era * 146097 + yearOfEra * 365 + yearOfEra / 4 - yearOfEra / 100 + dayOfYear - 719468

def date (days : Int) : Int × Nat × Nat :=
  let z := days + 719468
  let era := z.fdiv 146097
  let doe := (z - era * 146097).toNat
  let yoe := (doe - doe / 1460 + doe / 36524 - doe / 146096) / 365
  let doy := doe - (365 * yoe + yoe / 4 - yoe / 100)
  let mp := (5 * doy + 2) / 153
  let month := if mp < 10 then mp + 3 else mp - 9
  (era * 400 + yoe + if month ≤ 2 then 1 else 0, month, doy - (153 * mp + 2) / 5 + 1)

def isLeapYear (year : Int) : Bool := year % 4 = 0 && (year % 100 ≠ 0 || year % 400 = 0)

def monthLength (year : Int) (month : Nat) : Nat :=
  if month = 2 then if isLeapYear year then 29 else 28
  else if month ∈ [4, 6, 9, 11] then 30 else 31

abbrev Scan (α : Type) := StateT (List Char) (Except TimestampError) α

def skipBlanks : Scan Unit := modify (·.dropWhile isBlank)

def digits (most : Nat) : Scan Nat := do
  let cs ← get
  if cs.isEmpty then throw .tooShort
  let ds := Numeral.leading (cs.take most)
  if ds.isEmpty then throw .invalid
  set (cs.drop ds.length)
  return Numeral.value ds

def between (low high : Nat) : Scan Nat := do
  skipBlanks
  let n ← digits 2
  if n < low ∨ high < n then throw .outOfRange
  return n

def literal (c : Char) : Scan Unit := do
  skipBlanks
  match ← get with
  | [] => throw .tooShort
  | d :: rest => if d = c then set rest else throw .invalid

/-- Four digits, or any number of them behind a sign. -/
def signedDigits : Scan Int := do
  skipBlanks
  match ← get with
  | '-' :: rest => set rest; return -(← digits rest.length)
  | '+' :: rest => set rest; return ← digits rest.length
  | _ => return ← digits 4

def year : Scan Int := do
  let n ← signedDigits
  if n < -0x8000_0000 ∨ 0x8000_0000 ≤ n then throw .outOfRange
  return n

/-- Nine digits of a second's fraction; further ones are dropped. -/
def fraction : Scan Nat := do
  match ← get with
  | '.' :: rest =>
    set rest
    let n ← digits 9
    let width := min 9 (Numeral.leading rest).length
    set (Numeral.behind rest)
    return n * Nat.pow 10 (9 - width)
  | _ => return 0

/-- Two digits. What is left is too short if it has less than two bytes. -/
def pair : Scan Nat := do
  match ← get with
  | a :: b :: rest =>
    if a.isDigit && b.isDigit then set rest; return Numeral.value [a, b] else throw .invalid
  | [a] => if a.utf8Size < 2 then throw .tooShort else throw .invalid
  | [] => throw .tooShort

def hoursAndMinutes : Scan Nat := do
  let hours ← pair
  modify (·.dropWhile fun c => c = ':' || isBlank c)
  let minutes ← pair
  if 60 ≤ minutes then throw .outOfRange
  return 3600 * hours + 60 * minutes

def offset : Scan Int := do
  skipBlanks
  match ← get with
  | [] => throw .tooShort
  | 'Z' :: rest | 'z' :: rest => set rest; return 0
  | '+' :: rest => set rest; return ← hoursAndMinutes
  | '-' :: rest | '−' :: rest => set rest; return -(← hoursAndMinutes)
  | a :: b :: c :: rest =>
    if [a, b, c].map Char.toUpper = ['U', 'T', 'C'] then set rest; return 0 else throw .invalid
  | _ => throw .invalid

def dateEnd : Scan Unit := do
  match ← get with
  | 'T' :: rest | 't' :: rest | ' ' :: rest => set rest
  | [] => throw .tooShort
  | _ => throw .invalid

def firstYear : Int := -262143

def lastYear : Int := 262142

def inUse (days : Int) : Bool := dayNumber firstYear 1 1 ≤ days && days ≤ dayNumber lastYear 12 31

def secondsOfDay : Nat := 86400

def moment : Scan Timestamp := do
  let year ← year
  literal '-'
  let month ← between 1 12
  literal '-'
  let day ← between 1 31
  dateEnd
  let hour ← between 0 23
  literal ':'
  let minute ← between 0 59
  literal ':'
  let second ← between 0 60
  let nanos ← fraction
  let east ← offset
  skipBlanks
  unless (← get).isEmpty do throw .tooLong
  if year < firstYear ∨ lastYear < year ∨ monthLength year month < day ∨
      secondsOfDay ≤ east.natAbs then
    throw .outOfRange
  let leap := if second = 60 then 1 else 0
  let time := 3600 * hour + 60 * minute + second - leap
  let seconds := dayNumber year month day * secondsOfDay + time - east
  unless inUse (seconds.fdiv secondsOfDay) do throw .impossible
  return ⟨seconds, nanos + leap * 1000000000⟩

def read (s : String) : Except TimestampError Timestamp := moment.run' s.toList

def padded (width n : Nat) : String :=
  let ds := Nat.toDigits 10 n
  String.ofList (List.replicate (width - ds.length) '0' ++ ds)

def yearText (year : Int) : String :=
  if 0 ≤ year ∧ year ≤ 9999 then padded 4 year.toNat
  else (if year < 0 then "-" else "+") ++ padded 4 year.natAbs

/-- No fraction, or the three, six or nine digits that hold it. -/
def fractionText (nanos : Nat) : String :=
  if nanos = 0 then ""
  else if nanos % 1000000 = 0 then "." ++ padded 3 (nanos / 1000000)
  else if nanos % 1000 = 0 then "." ++ padded 6 (nanos / 1000)
  else "." ++ padded 9 nanos

def render (t : Timestamp) : String :=
  let leap := t.nanos / 1000000000
  let (year, month, day) := date (t.seconds.fdiv secondsOfDay)
  let second := (t.seconds.fmod secondsOfDay).toNat
  s!"{yearText year}-{padded 2 month}-{padded 2 day}T{padded 2 (second / 3600)}:" ++
    s!"{padded 2 (second / 60 % 60)}:{padded 2 (second % 60 + leap)}" ++
    fractionText (t.nanos % 1000000000) ++ "Z"

end Timestamp

end CampusQuery
