import Beacon.Token

/-!
# Keeping pace

A frame is held for its delay, counted from the moment it was written. Time that has passed since
then is not waited for again.
-/

namespace Beacon.Pace

/-- What is left of a delay when the frame is `age` old. -/
def remaining (delay age : Duration) : Duration := ⟨delay.nanos - age.nanos⟩

/-- Holds a frame of a given age under a token; the answer is whether it was held to the end. -/
def hold (delay age : Duration) (t : Token) : Bool := (t.sleep (remaining delay age) none).1

end Beacon.Pace
