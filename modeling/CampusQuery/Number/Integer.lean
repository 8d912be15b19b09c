import CampusQuery.Number.Numeral

namespace CampusQuery

inductive IntegerError where
  | empty
  | badDigit
  | tooLarge
deriving DecidableEq, Repr

namespace IntegerError

def message : IntegerError → String
  | empty => "cannot parse integer from empty string"
  | badDigit => "invalid digit found in string"
  | tooLarge => "number too large to fit in target type"

end IntegerError

namespace Integer

/-- The value of digits, at most `bound`. Of two faults the one further left counts. -/
def magnitude (bound : Nat) : List Char → Except IntegerError Nat
  | [] => .error .badDigit
  | ds => ds.foldlM (fun n c =>
      if c.isDigit then
        let m := 10 * n + Numeral.digitValue c
        if m ≤ bound then .ok m else .error .tooLarge
      else .error .badDigit) 0

def natural (bound : Nat) : List Char → Except IntegerError Nat
  | [] => .error .empty
  | '+' :: ds => magnitude bound ds
  | ds => magnitude bound ds

def int32 : List Char → Except IntegerError Int32
  | '-' :: ds => (magnitude 0x8000_0000 ds).map fun n => Int32.ofInt (-n)
  | cs => (natural 0x7fff_ffff cs).map fun n => Int32.ofInt n

end Integer

end CampusQuery
