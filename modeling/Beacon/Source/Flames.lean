import Beacon.Frame
import Beacon.Random.Dice
import Beacon.Source.Level

/-!
# The flames of a fire

A fire flickers under an envelope that rises from darkness to full brightness in the middle of the
run and falls again: a parabola as wide as a run of 1024 frames, cut to the length of the run. Each
channel adds its own jitter to the envelope and lets its own part of the sum through, most of all
red.
-/

namespace Beacon

/-- What is left of a fire: its length in frames, how many have been shown, how long each stays, and
the source of the jitter. -/
structure Flames (γ : Type) where
  length : Nat
  shown : Nat
  delay : Duration
  dice : γ
  deriving DecidableEq, Repr

namespace Flames

open Precision (double)

/-- The curvature of the envelope: 255 levels at a distance of 512 frames. -/
def falloff : Rat := -255 / 262144

/-- The envelope of a run of a given length at its frame `t`, counted from the middle of the run. -/
def envelope (length t : Nat) : Rat :=
  let offset : Rat := (t : Int) - ((length / 2 : Nat) : Int)
  double (double (double (falloff * offset) * offset) + 255)

/-- The level of a channel that lets the part `factor` of the jittered envelope through. -/
def level (factor envelope : Rat) (jitter : Int) : Rat :=
  double (double factor * double (envelope + jitter))

/-- The bounds of the jitter of red, green and blue. -/
def redBound : Nat := 50
@[inherit_doc redBound] def greenBound : Nat := 70
@[inherit_doc redBound] def blueBound : Nat := 80

/-- The colour under an envelope for the jitter of red, green and blue. -/
def colorAt (envelope : Rat) (red green blue : Int) : Color :=
  Levels.color ⟨level 1 envelope red, level (1 / 10) envelope green, level (1 / 100) envelope blue⟩

/-- The next frame and the flames after it. Red, green and blue are rolled in this order. -/
def next {γ : Type} [Random.Dice γ] (f : Flames γ) : Option (Frame × Flames γ) :=
  if f.shown < f.length then
    let (red, dice) := Random.Dice.roll redBound f.dice
    let (green, dice) := Random.Dice.roll greenBound dice
    let (blue, dice) := Random.Dice.roll blueBound dice
    let color := colorAt (envelope f.length f.shown) red green blue
    some (⟨color, f.delay⟩, { f with shown := f.shown + 1, dice })
  else none

end Flames

end Beacon
