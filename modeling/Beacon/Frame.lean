import Beacon.Color
import Beacon.Duration

/-!
# Frames
-/

namespace Beacon

/-- A colour, and how long it stays before the next frame. -/
structure Frame where
  color : Color
  delay : Duration
  deriving DecidableEq, Repr, Inhabited

end Beacon
