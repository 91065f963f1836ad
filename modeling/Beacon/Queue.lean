import Beacon.Clock
import Beacon.Control
import Beacon.Pace
import Beacon.Sink
import Beacon.Source

/-!
# The queue

The queue owns the light and plays one effect at a time on it. A request holds a ticket: if it is
stale, the effect is skipped; otherwise its frames are written one after the other, each held for
its delay, until they end, the effect is cancelled, or the light fails.

While a line is being written, others may act on the panel. An agenda says what happens during which
line; besides the panel it may change a state of its own, of any type `σ`.
-/

namespace Beacon

/-- What others do while lines are written: `act n` happens during the line number `n`, counted over
the whole life of the sink, and nothing happens after the line `last`. -/
structure Agenda (σ : Type) where
  last : Nat
  act : Nat → Panel × σ → Panel × σ

namespace Agenda

variable {σ : Type}

/-- Nothing ever happens. -/
def idle : Agenda σ := ⟨0, fun _ x => x⟩

/-- What happens during one line. -/
def during (a : Agenda σ) (line : Nat) (x : Panel × σ) : Panel × σ :=
  if line ≤ a.last then a.act line x else x

/-- What happens during `count` lines after the line `line`. -/
def throughout (a : Agenda σ) (line : Nat) : Nat → Panel × σ → Panel × σ
  | 0, x => x
  | count + 1, x => a.throughout (line + 1) count (a.during (line + 1) x)

/-- What a table has for a line. -/
def entries {α : Type} (table : List (Nat × List α)) (line : Nat) : List α :=
  (table.filter (·.1 = line)).flatMap (·.2)

/-- The agenda of a table: what it has for a line happens in order. -/
def ofTable {α : Type} (table : List (Nat × List α)) (act : α → Panel × σ → Panel × σ) :
    Agenda σ where
  last := table.foldr (fun row last => max row.1 last) 0
  act line x := (entries table line).foldl (fun x a => act a x) x

end Agenda

/-- How a request ended. -/
inductive Outcome
  | completed (frames : Nat)
  | interrupted (frames : Nat)
  | skipped
  deriving DecidableEq, Repr

/-- The form of an outcome in a journal. -/
def Outcome.text : Outcome → String
  | completed n => "Completed \x7b frames: " ++ toString n ++ " \x7d"
  | interrupted n => "Interrupted \x7b frames: " ++ toString n ++ " \x7d"
  | skipped => "Skipped"

/-- The light, the generator that seeds the effects, the panel, the clock, and when each frame was
begun. -/
structure Queue where
  sink : Sink
  generator : Random.Generator
  panel : Panel
  clock : Clock
  begun : Array Nat

namespace Queue

/-- A queue that has played nothing yet. -/
def fresh (b : Behaviour) (generator : Random.Generator) : Queue :=
  ⟨Sink.fresh b, generator, Panel.fresh, Clock.prompt, #[]⟩

/-- What is said when the light fails. -/
def failureMessage (e : IoError) : String := "cannot write to light driver: " ++ e.message

/-- The queue with an entry added to the journal. -/
def note (q : Queue) (level : Level) (message : String) : Queue :=
  { q with panel := q.panel.note level message }

/-- The queue with another token in the slot of the running effect. -/
def setActive (q : Queue) (active : Option Token) : Queue :=
  { q with panel.control := q.panel.control.setActive active }

/-- Whether the running effect has been cancelled. -/
def stopped (q : Queue) : Bool := q.panel.control.stopped

variable {σ : Type}

/-- Writes a frame. What the agenda has for the lines that are completed happens meanwhile. Getting
the frame and writing it are two steps of the clock, and the frame is begun between them. -/
def display (a : Agenda σ) (c : Color) (q : Queue) (s : σ) : Except IoError Unit × Queue × σ :=
  let (result, sink) := q.sink.writeFrame c
  let completed := sink.completed - q.sink.completed
  let (panel, s) := a.throughout q.sink.completed completed (q.panel, s)
  let clock := q.clock.pass 0
  (result, { q with sink, panel, clock := clock.pass 0, begun := q.begun.push clock.now }, s)

/-- Waits out the delay of a frame that was written when the clock showed `written`. A cancelled
effect does not wait. -/
def hold (delay : Duration) (written : Nat) (q : Queue) : Queue :=
  if q.stopped then q
  else
    let clock := q.clock.pass 0
    { q with clock := clock.pass (Pace.remaining delay ⟨clock.now - written⟩).nanos }

/-- What a turn of playing comes to: the effect has ended, or a frame has been written and the rest
is still to come. -/
inductive Turn
  | ended (result : Except IoError Outcome)
  | shown (frame : Frame) (rest : Source Random.Generator)

/-- One turn of playing an effect, `frames` of whose frames have been written. That it has been
cancelled is seen before the next frame is asked for, and so also after the last one. -/
def turn (a : Agenda σ) (frames : Nat) (source : Source Random.Generator) (q : Queue) (s : σ) :
    Turn × Queue × σ :=
  if q.stopped then (.ended (.ok (.interrupted frames)), q, s)
  else match source.next with
    | none => (.ended (.ok (.completed frames)), q, s)
    | some (frame, rest) =>
      match q.display a frame.color s with
      | (.error e, q, s) => (.ended (.error e), q, s)
      | (.ok (), q, s) => (.shown frame rest, q, s)

/-- Plays what is left of an effect, after `frames` of its frames. Nothing is the answer if that
does not come to an end within `fuel` frames. -/
def drain (a : Agenda σ) : Nat → Nat → Source Random.Generator → Queue → σ →
    Option (Except IoError Outcome × Queue × σ)
  | 0, _, _, _, _ => none
  | fuel + 1, frames, source, q, s =>
    match q.turn a frames source s with
    | (.ended result, q, s) => some (result, q, s)
    | (.shown frame rest, q, s) =>
      drain a fuel (frames + 1) rest (q.hold frame.delay q.clock.now) s

/-- How many frames decide how an effect ends. An endless one goes on for ever once nothing more is
on the agenda and the sink has settled. -/
def enough (a : Agenda σ) (source : Source Random.Generator) (q : Queue) : Nat :=
  match source.size? with
  | some n => n + 1
  | none => a.last + q.sink.behaviour.settled + 2

/-- Starts an effect that was requested when `ticket` was given: its source is seeded, and a fresh
token is put into the slot. A stale request is not started. -/
def start (ticket : Ticket) (e : Effect) (q : Queue) : Option (Source Random.Generator × Queue) :=
  if q.panel.control.isStale ticket then none
  else
    let (seed, generator) := q.generator.wide
    let source := e.source (Random.Generator.ofSeed seed)
    some (source, { q with generator }.setActive (some Token.fresh))

/-- The queue after a request that was not started. -/
def skip (name : String) (q : Queue) : Queue :=
  q.note .debug (name ++ " skipped, superseded while waiting")

/-- The queue after the end of an effect: the slot is empty, and how the effect ended is noted. -/
def finish (name : String) (result : Except IoError Outcome) (q : Queue) : Queue :=
  match result with
  | .ok outcome => (q.setActive none).note .debug (name ++ " finished: " ++ outcome.text)
  | .error e => (q.setActive none).note .error (name ++ " aborted: " ++ failureMessage e)

/-- Plays an effect that was requested when `ticket` was given. Nothing is the answer if the effect
never ends. -/
def pushWith (a : Agenda σ) (ticket : Ticket) (e : Effect) (q : Queue) (s : σ) :
    Option (Except IoError Outcome × Queue × σ) :=
  match q.start ticket e with
  | none => some (.ok .skipped, q.skip e.name, s)
  | some (source, q) =>
    match drain a (q.enough a source) 0 source q s with
    | none => none
    | some (result, q, s) => some (result, q.finish e.name result, s)

/-- Plays an effect that is requested now. -/
def push (a : Agenda σ) (e : Effect) (q : Queue) (s : σ) :
    Option (Except IoError Outcome × Queue × σ) :=
  pushWith a q.panel.control.ticket e q s

/-- Turns the light off, whatever has been closed or interrupted. -/
def turnOff (a : Agenda σ) (q : Queue) (s : σ) : Except IoError Unit × Queue × σ :=
  q.display a Color.black s

end Queue

end Beacon
