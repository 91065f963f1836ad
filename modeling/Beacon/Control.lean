import Beacon.Journal
import Beacon.Token

/-!
# Control

What the player of effects shares with those who steer it. The epoch counts interrupts; a ticket is
the epoch at the time of a request, so a request whose ticket is not the present epoch came before
an interrupt and is stale. The slot for the running effect holds its token, and the closed flag,
once raised, makes every request stale.
-/

namespace Beacon

/-- The epoch at which something was requested. -/
structure Ticket where
  epoch : UInt64
  deriving DecidableEq, Repr, Inhabited

/-- The epoch, the closed flag, and the token of the running effect. -/
structure Control where
  epoch : UInt64
  closed : Bool
  active : Option Token
  deriving DecidableEq, Repr

namespace Control

/-- The control of a queue that has never been used. -/
def fresh : Control := ⟨0, false, none⟩

/-- The ticket of a request made now. -/
def ticket (c : Control) : Ticket := ⟨c.epoch⟩

/-- Whether a request with this ticket must not be played any more. -/
def isStale (c : Control) (t : Ticket) : Bool := c.closed || c.ticket ≠ t

/-- The first half of an interrupt: the next epoch begins. -/
def bump (c : Control) : Control := { c with epoch := c.epoch + 1 }

/-- The second half of an interrupt: the running effect, if there is one, is cancelled. -/
def cancelActive (c : Control) : Control := { c with active := c.active.map Token.cancel }

/-- Stops the running effect and makes all earlier requests stale. -/
def interrupt (c : Control) : Control := c.bump.cancelActive

/-- Whether an effect is running. -/
def running (c : Control) : Bool := c.active.isSome

/-- Whether the running effect has been cancelled. -/
def stopped (c : Control) : Bool := c.active.any Token.cancelled

/-- Stops the running effect for good: from now on every request is stale. -/
def close (c : Control) : Control := { c with closed := true }.interrupt

/-- Puts the token of an effect into the slot, or clears the slot. -/
def setActive (c : Control) (active : Option Token) : Control := { c with active }

@[simp] theorem epoch_interrupt (c : Control) : c.interrupt.epoch = c.epoch + 1 := rfl

@[simp] theorem closed_interrupt (c : Control) : c.interrupt.closed = c.closed := rfl

@[simp] theorem closed_close (c : Control) : c.close.closed = true := rfl

end Control

/-- Control, and the journal of what was done with it. -/
structure Panel where
  control : Control
  journal : Journal

namespace Panel

/-- The panel of a queue that has never been used. -/
def fresh : Panel := ⟨Control.fresh, #[]⟩

/-- Adds an entry to the journal. -/
def note (p : Panel) (level : Level) (message : String) : Panel :=
  { p with journal := p.journal.push ⟨level, message⟩ }

/-- Interrupts without a word; the answer is whether an effect was running. -/
def interrupt (p : Panel) : Bool × Panel :=
  (p.control.running, { p with control := p.control.interrupt })

/-- Interrupts on behalf of a new effect, and gives the ticket for it. -/
def preempt (p : Panel) : Ticket × Panel :=
  let after := { p with control := p.control.interrupt }
  (after.control.ticket,
    if p.control.running then after.note .info "Interrupted running effect" else after)

/-- Closes the queue. -/
def close (p : Panel) : Panel := { p with control := p.control.close }

end Panel

end Beacon
