import Beacon.Frame

/-!
# The ramp of a fade

A fade goes up from darkness to its colour and down again, in as many steps each way as the
brightest channel has levels. The other channels follow it by their share in whole percent.
-/

namespace Beacon.Ramp

/-- A channel's share of the brightest one, in whole percent; all shares of black are zero. -/
def share (c : Color) (channel : UInt8) : Nat := channel.toNat * 100 / c.peak.toNat

/-- How many steps lead from darkness to the colour. Black has no brightest channel to count by and
takes as many steps as the brightest of colours. -/
def steps (c : Color) : Nat := if c.peak = 0 then 255 else c.peak.toNat

/-- The colour at a step of the ramp. -/
def color (c : Color) (step : Nat) : Color :=
  c.map fun channel => UInt8.ofNat (min (step * share c channel / 100) 255)

/-- The frames of one cycle: up to the colour, then down to darkness. -/
def cycle (c : Color) (delay : Duration) : List Frame :=
  (List.range' 1 (steps c) ++ (List.range (steps c)).reverse).map fun step => ⟨color c step, delay⟩

end Beacon.Ramp
