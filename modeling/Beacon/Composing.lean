import Beacon.Source

/-!
# Effects that put out their frames

An effect can also be run the other way round: it puts its frames into an output, one after the
other, and the output tells after each whether more are wanted. The effect stops as soon as no more
are, so even one without end comes to an end when the output refuses a frame.
-/

namespace Beacon

/-- Whether an output wants more frames, by all frames that were put there. -/
abbrev Output := List Frame → Bool

/-- What is done with an output, and which frames were put there by then; nothing if that never
ends. -/
abbrev Composing (α : Type) := StateT (List Frame) Option α

namespace Output

/-- Puts out a frame, and tells whether more are wanted. -/
def emit (wants : Output) (frame : Frame) : Composing Bool := do
  modify (· ++ [frame])
  return wants (← get)

/-- Puts out frames one after the other for as long as more are wanted, and tells whether they still
are behind the last. -/
def emitAll (wants : Output) : List Frame → Composing Bool
  | [] => return true
  | frame :: rest => do
    if ← wants.emit frame then wants.emitAll rest
    else return false

end Output

/-- Runs a cycle as often as a count says, without end if it is negative, for as long as more frames
are wanted. -/
def forEachCycle (cycle : Composing Bool) (count : Int) : Composing Unit := do
  let mut remaining := count
  while remaining ≠ 0 do
    if !(← cycle) then break
    if 0 < remaining then remaining := remaining - 1

/-- Puts out the frames of a blend that are `left`. -/
def Course.compose (wants : Output) : Nat → Course → Composing Unit
  | 0, _ => return
  | left + 1, c => do
    let current := c.advance
    if ← wants.emit ⟨current.color, c.delay⟩ then
      compose wants left { c with left, current }

namespace Flames

variable {γ : Type} [Random.Dice γ]

/-- The colour of frame `t` of a fire of a given length, and the dice after it. -/
def sample (t length : Nat) (dice : γ) : Color × γ :=
  let (red, dice) := Random.Dice.roll redBound dice
  let (green, dice) := Random.Dice.roll greenBound dice
  let (blue, dice) := Random.Dice.roll blueBound dice
  (colorAt (envelope length t) red green blue, dice)

/-- Puts out the frames of a fire of a given length at the times listed. -/
def compose (wants : Output) (length : Nat) (delay : Duration) : List Nat → γ → Composing Unit
  | [], _ => return
  | t :: rest, dice => do
    let (color, dice) := sample t length dice
    if ← wants.emit ⟨color, delay⟩ then
      compose wants length delay rest dice

end Flames

/-- Puts out the frames of an effect. Only a fire uses the dice. -/
def Effect.compose {γ : Type} [Random.Dice γ] (wants : Output) (dice : γ) : Effect → Composing Unit
  | solid color => do
    let _ ← wants.emit ⟨color, Duration.zero⟩
  | flash p =>
    forEachCycle (wants.emit ⟨p.color, p.delay⟩ <&&> wants.emit ⟨Color.black, p.delay⟩) p.count
  | fade p =>
    let steps := List.range' 1 (Ramp.steps p.color) ++ (List.range (Ramp.steps p.color)).reverse
    forEachCycle (wants.emitAll (steps.map fun step => ⟨Ramp.color p.color step, p.delay⟩)) p.count
  | blend start goal duration =>
    Course.compose wants (Course.samples duration) (.ofBlend start goal duration)
  | fire p =>
    Flames.compose wants p.count.toNat p.delay (List.range p.count.toNat) dice

end Beacon
