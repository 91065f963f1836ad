import Beacon.Precision
import Beacon.Text.Numeral

/-!
# Durations

A duration is a number of nanoseconds. Its written form is `0`, or one or more groups of a decimal
number and a unit, such as `1.5s` or `1h2m3s`, after an optional `+`. The groups are summed in
double precision, so a written duration is exact as long as its nanoseconds fit in 53 bits.
-/

namespace Beacon

/-- A length of time, in nanoseconds. -/
structure Duration where
  nanos : Nat
  deriving DecidableEq, Repr, Inhabited

namespace Duration

/-- No time at all. -/
def zero : Duration := ⟨0⟩

/-- The units of written durations. -/
inductive Span
  | nanosecond | microsecond | millisecond | second | minute | hour
  deriving DecidableEq, Repr

namespace Span

/-- The length of a unit in nanoseconds. -/
def nanos : Span → Nat
  | nanosecond => 1
  | microsecond => 1000
  | millisecond => 1000000
  | second => 1000000000
  | minute => 60 * 1000000000
  | hour => 3600 * 1000000000

/-- A written unit. Microseconds are written `us`, or with the micro sign, or with the Greek letter
mu. -/
def ofChars? : List Char → Option Span
  | ['n', 's'] => some nanosecond
  | ['u', 's'] | ['µ', 's'] | ['μ', 's'] => some microsecond
  | ['m', 's'] => some millisecond
  | ['s'] => some second
  | ['m'] => some minute
  | ['h'] => some hour
  | _ => none

end Span

/-- The characters of a decimal number. -/
def isNumberChar (c : Char) : Bool := c.isDigit || c == '.'

/-- A decimal number: digits with at most one point, and at least one digit. -/
def number? (cs : List Char) : Option Rat :=
  let whole := cs.takeWhile Char.isDigit
  match cs.dropWhile Char.isDigit with
  | [] => (Text.natural? whole).map fun n => (n : Rat)
  | '.' :: part =>
    if part.all Char.isDigit then
      (Text.natural? (whole ++ part)).map fun n => (n : Rat) / (Nat.pow 10 part.length : Rat)
    else none
  | _ => none

/-- The longest runs of characters that are all, or none of them, characters of a number. -/
def runs (cs : List Char) : List (List Char) :=
  cs.splitBy fun a b => isNumberChar a == isNumberChar b

/-- The sum of a list of numbers, each followed by its unit, added to `total`; every number, every
product and every sum is rounded to double precision. -/
def sum? (total : Rat) : List (List Char) → Option Rat
  | [] => some total
  | number :: unit :: rest => do
    let value ← number? number
    let span ← Span.ofChars? unit
    sum? (Precision.double (total + Precision.double (Precision.double value * span.nanos))) rest
  | [_] => none

/-- The longest duration that can be written. -/
def longest : Duration := ⟨UInt64.size - 1⟩

/-- The duration of a sum of nanoseconds: rounded to the nearest one, a half upwards. A sum above
`2 ^ 64` is no duration, and `2 ^ 64` itself counts as the longest one. -/
def ofTotal? (total : Rat) : Option Duration :=
  if total ≤ (UInt64.size : Rat) then
    some ⟨min (Precision.nearestUp total).toNat longest.nanos⟩
  else none

/-- A written duration without its sign. -/
def ofUnsigned? (cs : List Char) : Option Duration :=
  if cs = ['0'] then some zero
  else if cs = [] then none
  else (sum? 0 (runs cs)).bind ofTotal?

/-- A written duration. -/
def ofChars? : List Char → Option Duration
  | '+' :: cs => ofUnsigned? cs
  | cs => ofUnsigned? cs

end Duration

end Beacon
