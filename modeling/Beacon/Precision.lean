/-!
# Rounding to a fixed number of significant bits

Exact rational arithmetic with an explicit rounding step: a value is rounded to the nearest number
with 53 significant bits, a tie to the neighbour whose last bit is even. There is no bound on the
exponent. A quantity outside the usual range of exponents is either far above every limit that this
library compares with, or so small that it vanishes beside the numbers it is added to.
-/

namespace Beacon.Precision

/-- Two to an integral power. -/
def twoTo (e : Int) : Rat :=
  if 0 ≤ e then (Nat.pow 2 e.toNat : Rat) else 1 / (Nat.pow 2 (-e).toNat : Rat)

/-- The `e` with `2 ^ e ≤ |x| < 2 ^ (e + 1)`, for an `x` other than zero. -/
def exponent (x : Rat) : Int :=
  let e : Int := Nat.log2 x.num.natAbs - Nat.log2 x.den
  if twoTo e ≤ (x.num.natAbs : Rat) / x.den then e else e - 1

/-- The nearest integer, a tie to the even one. -/
def nearestEven (x : Rat) : Int :=
  let below := x.floor
  let part := x - below
  if part < 1 / 2 then below
  else if 1 / 2 < part then below + 1
  else if below % 2 = 0 then below else below + 1

/-- The nearest integer, a tie away from zero, for an `x` that is not negative. -/
def nearestUp (x : Rat) : Int := (x + 1 / 2).floor

/-- The nearest number with `bits` significant bits, a tie to the even last bit. -/
def toBits (bits : Nat) (x : Rat) : Rat :=
  if x = 0 then 0
  else
    let unit := twoTo (exponent x - bits + 1)
    nearestEven (x / unit) * unit

/-- Rounding to the 53 significant bits of double precision. -/
def double (x : Rat) : Rat := toBits 53 x

end Beacon.Precision
