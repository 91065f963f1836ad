import Beacon.Duration

/-!
# Tokens

A token is a stop signal shared by the one who plays an effect and those who may stop it. Cancelling
raises its flag and leaves one wake-up in its slot, which ends a sleep that is under way.
-/

namespace Beacon

/-- A stop signal: its flag, and whether a wake-up lies in its slot. -/
structure Token where
  cancelled : Bool
  wake : Bool
  deriving DecidableEq, Repr, Inhabited

namespace Token

/-- A token that nobody has cancelled. -/
def fresh : Token := ⟨false, false⟩

/-- Raises the flag. Only the call that raises it leaves a wake-up. -/
def cancel (t : Token) : Token := if t.cancelled then t else ⟨true, true⟩

/-- How a sleep on a token ends: whether it lasted its whole time, and the token after it. With
`cancelAfter`, somebody cancels the token that long after the sleep has begun, be it still under way
or not. -/
def sleep (t : Token) (d : Duration) (cancelAfter : Option Duration) : Bool × Token :=
  if t.cancelled then (false, t)
  else match cancelAfter with
    | none => (true, t)
    | some c =>
      -- A sleep that is cut short takes the wake-up out of the slot.
      if c.nanos < d.nanos then (false, { t.cancel with wake := false })
      else (true, t.cancel)

@[simp] theorem cancelled_cancel (t : Token) : t.cancel.cancelled = true := by
  unfold cancel
  split <;> simp_all

theorem cancel_of_cancelled {t : Token} (h : t.cancelled = true) : t.cancel = t := by
  simp [cancel, h]

end Token

end Beacon
