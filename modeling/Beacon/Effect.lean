import Beacon.Color
import Beacon.Duration

/-!
# Effects

An effect says how a light behaves over time: it shows one colour, flashes, fades, blends from one
colour to another, or burns like a fire.
-/

namespace Beacon

/-- What flashing, fading and burning have in common: how long each frame stays, the colour, and how
often the cycle is run. A negative count never ends, zero shows nothing. -/
structure Pattern where
  delay : Duration
  color : Color
  count : Int
  deriving DecidableEq, Repr, Inhabited

/-- A behaviour of the light. -/
inductive Effect
  | solid (color : Color)
  | fade (pattern : Pattern)
  | flash (pattern : Pattern)
  | blend (start goal : Color) (duration : Duration)
  | fire (pattern : Pattern)
  deriving DecidableEq, Repr, Inhabited

namespace Effect

/-- The kinds of effects. -/
inductive Kind
  | solid | fade | flash | blend | fire
  deriving DecidableEq, Repr, Inhabited

/-- The name of a kind in a journal. -/
def Kind.name : Kind → String
  | .solid => "color"
  | .fade => "fade"
  | .flash => "flash"
  | .blend => "blend"
  | .fire => "fire"

/-- The kind of an effect. -/
def kind : Effect → Kind
  | solid _ => .solid
  | fade _ => .fade
  | flash _ => .flash
  | blend .. => .blend
  | fire _ => .fire

/-- The name of an effect in a journal. -/
def name (e : Effect) : String := e.kind.name

end Effect

end Beacon
