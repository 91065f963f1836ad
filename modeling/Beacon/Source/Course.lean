import Beacon.Frame
import Beacon.Source.Level

/-!
# The course of a blend

A blend goes from one colour to another in equal steps, twenty to the second. Each channel is a
running sum in double precision, so what rounding takes away is carried on from frame to frame.
-/

namespace Beacon

/-- The seconds of a duration in double precision: whole seconds and the fraction are rounded each
for itself, then their sum is. -/
def Duration.seconds (d : Duration) : Rat :=
  Precision.double (Precision.double ((d.nanos / 1000000000 : Nat) : Rat)
    + Precision.double (((d.nanos % 1000000000 : Nat) : Rat) / 1000000000))

/-- What is left of a blend: the frames still to come, how long each stays, the levels of the frame
before, and what every frame adds to them. -/
structure Course where
  left : Nat
  delay : Duration
  current : Levels
  step : Levels
  deriving DecidableEq, Repr

namespace Course

/-- How many frames a blend has: twenty for every second, and at least one. -/
def samples (d : Duration) : Nat :=
  min (max (Precision.nearestUp (Precision.double (20 * d.seconds))).toNat 1) (UInt32.size - 1)

/-- The course of a blend from its start. -/
def ofBlend (start goal : Color) (d : Duration) : Course where
  left := samples d
  delay := ⟨d.nanos / samples d⟩
  current := Levels.ofColor start
  step := (Levels.ofColor goal).zipWith
    (fun goal start => Precision.double ((goal - start) / samples d)) (Levels.ofColor start)

/-- The levels of the next frame. -/
def advance (c : Course) : Levels :=
  c.current.zipWith (fun level step => Precision.double (level + step)) c.step

/-- The next frame and the course after it. -/
def next (c : Course) : Option (Frame × Course) :=
  match c.left with
  | 0 => none
  | left + 1 => some (⟨c.advance.color, c.delay⟩, { c with left, current := c.advance })

end Course

end Beacon
