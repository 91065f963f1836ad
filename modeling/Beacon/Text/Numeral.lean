/-!
# Decimal numerals

Digits are the ten ASCII digits. A numeral may have leading zeros; a signed one may have one `+` or
`-` in front.
-/

namespace Beacon.Text

/-- The value of a list of digits, most significant first. -/
def digitsValue (cs : List Char) : Nat :=
  cs.foldl (fun value c => 10 * value + (c.toNat - '0'.toNat)) 0

/-- A natural number: one or more digits. -/
def natural? (cs : List Char) : Option Nat :=
  if cs ≠ [] ∧ cs.all Char.isDigit then some (digitsValue cs) else none

/-- An integer: a natural number after an optional sign. -/
def integer? : List Char → Option Int
  | '-' :: cs => (natural? cs).map fun n => -(n : Int)
  | '+' :: cs => (natural? cs).map fun n => (n : Int)
  | cs => (natural? cs).map fun n => (n : Int)

/-- An integer between two bounds, both included. -/
def integerWithin? (lo hi : Int) (cs : List Char) : Option Int :=
  (integer? cs).filter fun n => lo ≤ n ∧ n ≤ hi

end Beacon.Text
