import Beacon.Arguments
import Beacon.Client

/-!
# The sender's command

The command line of the sender: where the server is, the effects, and whether to check them first.
-/

namespace Beacon.Client

open Arguments (UsageError Grammar)

/-- What the sender is asked to do. -/
structure Command where
  host : String
  port : UInt16
  effects : List String
  unchecked : Bool
  deriving DecidableEq, Repr

namespace Command

/-- The command line of the sender. -/
def grammar : Grammar where
  options :=
    [⟨"host", none, .single, .anything⟩, ⟨"port", some 'p', .single, .port⟩,
     ⟨"no-check", none, .flag, .anything⟩]
  operands := true

/-- The command of a command line. -/
def ofWords (words : List String) : Except UsageError Command := do
  let r ← Arguments.read grammar words
  return {
    host := (r.value? "host").getD "localhost"
    port := ((r.value? "port").bind Arguments.port?).getD 3333
    effects := r.operands
    unchecked := r.given "no-check" }

/-- The address of the server. -/
def address (c : Command) : String := c.host ++ ":" ++ toString c.port.toNat

/-- How a command ended: the exit code, the bytes that reached the server if it was reached, and the
journal. -/
structure Ending where
  exit : Nat
  received : Option (List UInt8)
  journal : Journal

/-- Ends without having reached the server, saying why. -/
def giveUp (exit : Nat) (reason : String) : Ending := ⟨exit, none, #[⟨.error, reason⟩]⟩

/-- Sends the effects to the server, if `connect` reaches one at the address. -/
def sendTo (connect : String → Except String Behaviour) (c : Command) : Ending :=
  match connect c.address with
  | .error reason =>
    giveUp 1 ("Unable to connect to `catlightd` at " ++ c.address ++ ": " ++ reason)
  | .ok behaviour =>
    match send (Sink.fresh behaviour) c.effects with
    | (.error e, sink) => ⟨1, some sink.taken.toList, #[⟨.error, e.message⟩]⟩
    | (.ok (), sink) =>
      let sent := "Sent " ++ toString c.effects.length ++ " effect(s) to " ++ c.address
      ⟨0, some sink.taken.toList, #[⟨.debug, sent⟩]⟩

/-- Does what the command line says. -/
def run (connect : String → Except String Behaviour) (words : List String) : Ending :=
  match ofWords words with
  | .error .help => ⟨0, none, #[]⟩
  | .error _ => ⟨2, none, #[]⟩
  | .ok c =>
    if c.unchecked then sendTo connect c
    else match check c.effects with
      | .error (effect, e) => giveUp 2 (refusal effect e)
      | .ok () => sendTo connect c

end Command

end Beacon.Client
