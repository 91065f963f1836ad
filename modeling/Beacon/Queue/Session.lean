import Beacon.Queue

/-!
# Sessions

A session is a queue together with the tickets that have been given out, each under a name. Calls on
the panel can be made between requests, and also while a line is being written.
-/

namespace Beacon

/-- A call on the panel; a ticket is kept under a name. -/
inductive Call
  | ticket (name : String)
  | preempt (name : String)
  | interrupt
  | close
  deriving DecidableEq, Repr

/-- The answer to a call. -/
inductive Reply
  | issued (ticket : Ticket)
  | running (running : Bool)
  | done
  deriving DecidableEq, Repr

/-- Tickets by name, the latest of a name first. -/
abbrev Tickets := List (String × Ticket)

/-- Makes a call. -/
def Call.perform (panel : Panel) (tickets : Tickets) : Call → Reply × Panel × Tickets
  | ticket name =>
    let t := panel.control.ticket
    (.issued t, panel, (name, t) :: tickets)
  | preempt name =>
    let (t, panel) := panel.preempt
    (.issued t, panel, (name, t) :: tickets)
  | interrupt =>
    let (was, panel) := panel.interrupt
    (.running was, panel, tickets)
  | close => (.done, panel.close, tickets)

/-- One step of a session. -/
inductive Step
  | push (effect : Effect)
  | pushWith (name : String) (effect : Effect)
  | turnOff
  | call (call : Call)
  deriving DecidableEq, Repr

/-- The answer to a step. -/
inductive Answer
  | pushed (outcome : Outcome)
  | failed (error : IoError)
  | unknownTicket
  | turnedOff
  | replied (reply : Reply)
  deriving DecidableEq, Repr

/-- A queue and the tickets that have been given out. -/
structure Session where
  queue : Queue
  tickets : Tickets

namespace Session

/-- A session on a new queue. -/
def fresh (b : Behaviour) (generator : Random.Generator) : Session :=
  ⟨Queue.fresh b generator, []⟩

/-- The calls of a table, made during the lines that it names. Their answers are kept, the latest
first. -/
def agenda (table : List (Nat × List Call)) : Agenda (Tickets × List Reply) :=
  .ofTable table fun call (panel, tickets, replies) =>
    let (reply, panel, tickets) := call.perform panel tickets
    (panel, tickets, reply :: replies)

/-- Takes the tickets back from the end of a request. -/
def collect (result : Except IoError Outcome × Queue × Tickets × List Reply) :
    Answer × List Reply × Session :=
  let (result, queue, tickets, replies) := result
  let answer := match result with
    | .ok outcome => .pushed outcome
    | .error e => .failed e
  (answer, replies.reverse, ⟨queue, tickets⟩)

/-- Makes a step. Besides the answer it gives the answers to the calls made meanwhile. Nothing is
the answer if the step never ends. -/
def step (table : List (Nat × List Call)) (s : Session) :
    Step → Option (Answer × List Reply × Session)
  | .push e => (s.queue.push (agenda table) e (s.tickets, [])).map collect
  | .pushWith name e =>
    match s.tickets.lookup name with
    | none => some (.unknownTicket, [], s)
    | some ticket => (s.queue.pushWith (agenda table) ticket e (s.tickets, [])).map collect
  | .turnOff =>
    let (result, queue, tickets, replies) := s.queue.turnOff (agenda table) (s.tickets, [])
    let answer := match result with
      | .ok () => .turnedOff
      | .error e => .failed e
    some (answer, replies.reverse, ⟨queue, tickets⟩)
  | .call call =>
    let (reply, panel, tickets) := call.perform s.queue.panel s.tickets
    some (.replied reply, [], ⟨{ s.queue with panel }, tickets⟩)

end Session

end Beacon
