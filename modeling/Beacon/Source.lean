import Beacon.Effect
import Beacon.Source.Course
import Beacon.Source.Flames
import Beacon.Source.Ramp

/-!
# Sources of frames

A source is what is left of an effect while it plays: asked for the next frame, it gives the frame
and the source after it, or nothing once the effect is over. Flashing and fading run through a cycle
of frames again and again; blending and burning compute each frame from the one before.
-/

namespace Beacon

/-- How often a cycle is still to be run. -/
inductive Rounds
  | endless
  | times (n : Nat)
  deriving DecidableEq, Repr

/-- A negative count never ends. -/
def Rounds.ofCount (count : Int) : Rounds := if count < 0 then endless else times count.toNat

/-- One round less, if there is one. -/
def Rounds.pred? : Rounds → Option Rounds
  | endless => some endless
  | times 0 => none
  | times (n + 1) => some (times n)

/-- What is left of an effect. -/
inductive Source (γ : Type)
  | cycle (rest : List Frame) (frames : List Frame) (rounds : Rounds)
  | course (course : Course)
  | flames (flames : Flames γ)
  deriving DecidableEq, Repr

namespace Effect

/-- The frames of one cycle of a flash: the colour, then darkness. -/
def flashCycle (p : Pattern) : List Frame := [⟨p.color, p.delay⟩, ⟨Color.black, p.delay⟩]

/-- The source of all frames of an effect. Only a fire uses the jitter. -/
def source {γ : Type} (dice : γ) : Effect → Source γ
  | solid color => .cycle [⟨color, Duration.zero⟩] [] (.times 0)
  | flash p => .cycle [] (flashCycle p) (.ofCount p.count)
  | fade p => .cycle [] (Ramp.cycle p.color p.delay) (.ofCount p.count)
  | blend start goal duration => .course (.ofBlend start goal duration)
  | fire p => .flames ⟨p.count.toNat, 0, p.delay, dice⟩

end Effect

namespace Source

variable {γ : Type} [Random.Dice γ]

/-- The next frame and the source after it. -/
def next : Source γ → Option (Frame × Source γ)
  | cycle (frame :: rest) frames rounds => some (frame, cycle rest frames rounds)
  | cycle [] frames rounds =>
    match rounds.pred?, frames with
    | some rounds, frame :: rest => some (frame, cycle rest frames rounds)
    | _, _ => none
  | course c => c.next.map fun (frame, c) => (frame, course c)
  | flames f => f.next.map fun (frame, f) => (frame, flames f)

/-- The first frames, at most `n`. -/
def take : Nat → Source γ → List Frame
  | 0, _ => []
  | n + 1, s =>
    match s.next with
    | none => []
    | some (frame, s) => frame :: take n s

/-- The source after its first `n` frames, and how many there were of them. -/
def skip : Nat → Source γ → Nat × Source γ
  | 0, s => (0, s)
  | n + 1, s =>
    match s.next with
    | none => (0, s)
    | some (_, s) =>
      let (skipped, s) := skip n s
      (skipped + 1, s)

/-- How many frames are left, unless they never end. -/
def size? : Source γ → Option Nat
  | cycle rest frames (.times n) => some (rest.length + n * frames.length)
  | cycle rest [] .endless => some rest.length
  | cycle _ (_ :: _) .endless => none
  | course c => some c.left
  | flames f => some (f.length - f.shown)

end Source

end Beacon
