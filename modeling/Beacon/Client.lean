import Beacon.Effect.Spec
import Beacon.Journal
import Beacon.Sink

/-!
# Sending effects

The sender's side: all effects are checked before the first one is sent, since the other side ends a
connection at the first line that it cannot read. Each effect is then sent as one line.
-/

namespace Beacon.Client

/-- The first effect that is no good, if there is one, with what is wrong. -/
def check (effects : List String) : Except (String × SpecError) Unit :=
  effects.forM fun effect =>
    match Effect.parse effect with
    | .ok _ => .ok ()
    | .error e => .error (effect, e)

/-- What is said about effects that are not sent. -/
def refusal (effect : String) (e : SpecError) : String :=
  "Refusing to send `" ++ effect ++ "`: " ++ e.message

/-- The line that an effect is sent as. -/
def lineOf (effect : String) : List UInt8 :=
  Text.encode (Text.trim effect.toList ++ ['\n'])

/-- Why sending stopped: at an effect, or at the end. -/
inductive SendError
  | effect (effect : String) (error : IoError)
  | finish (error : IoError)
  deriving DecidableEq, Repr

/-- What is said when sending stops. -/
def SendError.message : SendError → String
  | effect text e => "Cannot send effect `" ++ text ++ "`: " ++ e.message
  | finish e => e.message

/-- Sends effects one line after the other, and flushes once at the end. -/
def send (s : Sink) : List String → Except SendError Unit × Sink
  | [] =>
    match s.flush with
    | (.ok (), s) => (.ok (), s)
    | (.error e, s) => (.error (.finish e), s)
  | effect :: rest =>
    match s.writeAll (lineOf effect) with
    | (.ok (), s) => send s rest
    | (.error e, s) => (.error (.effect effect e), s)

end Beacon.Client
