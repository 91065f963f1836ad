/-!
# Clocks

Time as the queue sees it, in nanoseconds. Every step of the queue takes as long as it must, and
beyond that as long as it happens to: `lag` gives this for each step in turn. A clock whose steps
never lag shows the earliest times at which anything can happen.
-/

namespace Beacon

/-- A reading, how many steps have been timed, and how long each step takes beyond what it must. -/
structure Clock where
  now : Nat
  steps : Nat
  lag : Nat → Nat

namespace Clock

/-- A clock at zero on which nothing takes longer than it must. -/
def prompt : Clock := ⟨0, 0, fun _ => 0⟩

/-- One step that takes at least `least`. -/
def pass (c : Clock) (least : Nat) : Clock :=
  { c with now := c.now + least + c.lag c.steps, steps := c.steps + 1 }

theorem now_add_le_pass (c : Clock) (least : Nat) : c.now + least ≤ (c.pass least).now :=
  Nat.le_add_right _ _

end Clock

end Beacon
