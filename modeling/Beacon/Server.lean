import Beacon.Queue
import Beacon.Server.Request

/-!
# The server

Connections bring effects to one queue. In serial dispatch a connection is read only when the one
before it has ended; in concurrent dispatch each is read as soon as it arrives, and its requests
wait for the queue in the order in which they came. A line that can not be played ends its
connection and nothing else; a light that fails ends the server.
-/

namespace Beacon

/-- How connections are handled. -/
inductive Dispatch
  | serial | concurrent
  deriving DecidableEq, Repr

/-- A server: how it handles connections, and whether a new effect is to stop the running one. -/
structure Server where
  dispatch : Dispatch
  preempt : Bool
  deriving DecidableEq, Repr

/-- Those who have arrived: the requests that wait for the queue, and the connections that have not
been read yet. -/
structure Crowd where
  waiting : List Waiting
  unread : List Connection
  deriving DecidableEq, Repr

/-- Nobody has arrived. -/
def Crowd.nobody : Crowd := ⟨[], []⟩

/-- What can happen while a line is being written: a connection arrives, or the server is asked to
stop. -/
inductive Event
  | arrival (connection : Connection)
  | shutdown
  deriving DecidableEq, Repr

namespace Server

/-- Preemption is for concurrent dispatch only; a serial server says so when it is set up. -/
def preempts (s : Server) : Bool := s.preempt && s.dispatch = .concurrent

/-- Sets up the server on a panel. -/
def setUp (s : Server) (panel : Panel) : Panel :=
  if s.preempt && s.dispatch = .serial then
    panel.note .warn "Preemption only applies to async dispatch"
  else panel

/-- Reads on in a connection; the request that it comes to waits behind all others. -/
def readOn (s : Server) (c : Connection) (x : Panel × Crowd) : Panel × Crowd :=
  let (waiting, panel) := c.await s.preempts x.1
  (panel, { x.2 with waiting := x.2.waiting ++ waiting.toList })

/-- A connection arrives. -/
def arrive (s : Server) (c : Connection) (x : Panel × Crowd) : Panel × Crowd :=
  match s.dispatch with
  | .serial => (x.1, { x.2 with unread := x.2.unread ++ [c] })
  | .concurrent => s.readOn c x

/-- The server is asked to stop: no effect is played from now on. -/
def shutDown (panel : Panel) : Panel :=
  (panel.note .info "Shutting down, turning the light off").close

/-- Something happens. -/
def react (s : Server) : Event → Panel × Crowd → Panel × Crowd
  | .arrival c => s.arrive c
  | .shutdown => fun x => (shutDown x.1, x.2)

/-- Lets the crowd change the panel of a queue. -/
def update (f : Panel × Crowd → Panel × Crowd) (q : Queue) (crowd : Crowd) : Queue × Crowd :=
  let (panel, crowd) := f (q.panel, crowd)
  ({ q with panel }, crowd)

/-- The queue after the request of one who waited was skipped. -/
def drop (w : Waiting) (q : Queue) : Queue :=
  q.note .info ("Dropped " ++ w.line ++ ", a newer effect took over")

/-- Plays the request of one who waits. A request that was skipped is noted as dropped. -/
def play (a : Agenda Crowd) (w : Waiting) (q : Queue) (crowd : Crowd) :
    Option (Except IoError Unit × Queue × Crowd) :=
  match q.pushWith a w.ticket w.effect crowd with
  | none => none
  | some (.error e, q, crowd) => some (.error e, q, crowd)
  | some (.ok .skipped, q, crowd) => some (.ok (), drop w q, crowd)
  | some (.ok _, q, crowd) => some (.ok (), q, crowd)

/-- Serves until nobody waits any more, or the light fails. Nothing is the answer if an effect never
ends, or if the crowd has more than `fuel` lines and connections. -/
def serveWithin (s : Server) (a : Agenda Crowd) : Nat → Queue → Crowd →
    Option (Except IoError Unit × Queue × Crowd)
  | 0, _, _ => none
  | fuel + 1, q, crowd =>
    match crowd.waiting, crowd.unread with
    | w :: waiting, _ =>
      match play a w q { crowd with waiting } with
      | none => none
      | some (.error e, q, crowd) => some (.error e, q, crowd)
      | some (.ok (), q, crowd) =>
        let (q, crowd) := update (s.readOn w.rest) q crowd
        serveWithin s a fuel q crowd
    | [], c :: unread =>
      let (q, crowd) := update (s.readOn c) q { crowd with unread }
      serveWithin s a fuel q crowd
    | [], [] => some (.ok (), q, crowd)

/-- How many turns a connection can take: one for each line, and one for being read. -/
def turns (c : Connection) : Nat := c.length + 1

/-- How many turns an event can lead to. -/
def Event.turns : Event → Nat
  | .arrival c => Server.turns c
  | .shutdown => 0

/-- The events of a table, happening during the lines that it names. -/
def agenda (s : Server) (table : List (Nat × List Event)) : Agenda Crowd :=
  .ofTable table s.react

/-- What a run of the server shows: the lines that came with each connection, and the failure that
ended it, if one did. -/
structure Run where
  lines : List (List (List UInt8))
  failure : Option IoError
  queue : Queue

/-- Serves connections one after the other, each until nobody waits any more; meanwhile things
happen as the table says. After a failure of the light no connection is opened. Nothing is the
answer if an effect never ends. -/
def run (s : Server) (table : List (Nat × List Event)) (q : Queue) :
    List Connection → Option Run
  | [] => some ⟨[], none, q⟩
  | c :: rest => do
    let fuel := turns c + ((table.flatMap (·.2)).map Event.turns).foldr (· + ·) 0 + 1
    let (arrived, crowd) := update (s.arrive c) q Crowd.nobody
    let (result, after, _) ← s.serveWithin (s.agenda table) fuel arrived crowd
    let lines := after.sink.lines.drop q.sink.completed
    match result with
    | .error e => return ⟨[lines], some e, after⟩
    | .ok () =>
      let others ← run s table after rest
      return { others with lines := lines :: others.lines }

end Server

end Beacon
