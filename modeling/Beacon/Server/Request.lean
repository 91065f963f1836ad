import Beacon.Control
import Beacon.Effect.Spec
import Beacon.Text.Utf8

/-!
# Requests

What arrives over a connection, line by line: an effect to be played, or a reason to end the
connection. A request waits for the queue with the ticket that it got when it was read, so that an
interrupt also reaches those who wait.
-/

namespace Beacon

/-- The lines of a connection that have not been read yet. -/
abbrev Connection := List (List UInt8)

/-- The lines of the bytes that a sender sends before it is done. -/
def Connection.ofBytes (bytes : List UInt8) : Connection := Text.lines 0x0A bytes

/-- What a line means. -/
inductive Request
  | blank
  | unreadable
  | refused (error : SpecError)
  | play (line : String) (effect : Effect)
  deriving DecidableEq, Repr

/-- The meaning of a line. The blanks at its ends do not count, among them the carriage return of a
line that ends in one. -/
def Request.ofLine (bytes : List UInt8) : Request :=
  match Text.decode? bytes with
  | none => .unreadable
  | some cs =>
    let spec := Text.trim cs
    if spec = [] then .blank
    else match Effect.parseTrimmed spec with
      | .error e => .refused e
      | .ok effect => .play (String.ofList spec) effect

/-- A request that waits for the queue, and the rest of its connection. -/
structure Waiting where
  line : String
  effect : Effect
  ticket : Ticket
  rest : Connection
  deriving DecidableEq, Repr

/-- Reads a connection up to the next effect. Nothing is the answer if the connection has ended: at
its last line, or at one that can not be played. Each new effect may preempt what is running. -/
def Connection.await (preempt : Bool) (panel : Panel) : Connection → Option Waiting × Panel
  | [] => (none, panel)
  | line :: rest =>
    match Request.ofLine line with
    | .blank => await preempt panel rest
    | .unreadable =>
      (none, panel.note .warn
        "Unable to read from connection: stream did not contain valid UTF-8")
    | .refused e => (none, panel.note .warn ("Unable to process effect: " ++ e.message))
    | .play line effect =>
      let panel := panel.note .info ("Playing " ++ line)
      let (ticket, panel) := if preempt then panel.preempt else (panel.control.ticket, panel)
      (some ⟨line, effect, ticket, rest⟩, panel)

end Beacon
