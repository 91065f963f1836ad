import Beacon.Color
import Beacon.Precision

/-!
# Channels as exact numbers

Blending and burning compute each channel as a number and cut it down to a channel at the end.
-/

namespace Beacon

/-- The channel nearest below a number: negative numbers give 0, numbers above 255 give 255, and a
fraction is dropped. -/
def channelOf (x : Rat) : UInt8 := UInt8.ofNat (min x.floor.toNat 255)

/-- A number for each of the three channels. -/
structure Levels where
  red : Rat
  green : Rat
  blue : Rat
  deriving DecidableEq, Repr

namespace Levels

/-- The channels of a colour as numbers. -/
def ofColor (c : Color) : Levels := ⟨c.red.toNat, c.green.toNat, c.blue.toNat⟩

/-- The same operation on the three channels of two triples. -/
def zipWith (f : Rat → Rat → Rat) (a b : Levels) : Levels :=
  ⟨f a.red b.red, f a.green b.green, f a.blue b.blue⟩

/-- The colour of three numbers. -/
def color (a : Levels) : Color := ⟨channelOf a.red, channelOf a.green, channelOf a.blue⟩

end Levels

end Beacon
