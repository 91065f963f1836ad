import Beacon.Arguments
import Beacon.Driver
import Beacon.Server
import Beacon.Settings

/-!
# The daemon

The daemon takes its settings from its command line and a settings file, attaches the light, and
serves until the light fails or it is asked to stop. Asked to stop, it turns the light off.
-/

namespace Beacon.Daemon

open Arguments (UsageError Grammar Reading)

/-- The command line of the daemon. -/
def grammar : Grammar where
  options :=
    [⟨"config", some 'c', .single, .path⟩, ⟨"host", none, .single, .anything⟩,
     ⟨"port", some 'p', .single, .port⟩, ⟨"async", none, .flag, .anything⟩,
     ⟨"preempt", none, .flag, .anything⟩, ⟨"driver", none, .many, .anything⟩]
  operands := false

/-- Settings with the options of a command line put over them. A flag can only turn something on. -/
def override (s : Settings) (r : Reading) : Settings where
  host := (r.value? "host").getD s.host
  port := ((r.value? "port").bind Arguments.port?).getD s.port
  concurrent := s.concurrent || r.given "async"
  preempt := s.preempt || r.given "preempt"
  driver := if r.given "driver" then r.values "driver" else s.driver

/-- Why the daemon has no settings. -/
inductive CommandError
  | usage (error : UsageError)
  | settings (error : SettingsError)
  deriving DecidableEq, Repr

/-- The settings of a command line, and the file that they come from, if one is named; `read` gives
the bytes of a file. -/
def settings (read : String → Option (List UInt8)) (words : List String) :
    Except CommandError (Settings × Option String) :=
  match Arguments.read grammar words with
  | .error e => .error (.usage e)
  | .ok r =>
    match r.value? "config" with
    | none => .ok (override Settings.default r, none)
    | some path =>
      match Settings.load read path with
      | .error e => .error (.settings e)
      | .ok s => .ok (override s r, some path)

/-- A sender that visits the daemon. One that holds the line stays while its effect plays, and the
next one comes once `hold` lines have been shown in all. -/
structure Visit where
  connection : Connection
  hold : Option Nat
  deriving DecidableEq, Repr

/-- The visits that come once the one before them is over, and what happens during which line. When
the last sender holds the line, the daemon is asked to stop while it does. -/
def plan : List Visit → List Connection × List (Nat × List Event)
  | [] => ([], [])
  | first :: rest =>
    let (opening, table) := follow first.hold rest
    (first.connection :: opening, table)
where
  /-- What comes after a visit. -/
  follow : Option Nat → List Visit → List Connection × List (Nat × List Event)
    | none, [] => ([], [])
    | some line, [] => ([], [(line, [.shutdown])])
    | none, v :: rest =>
      let (opening, table) := follow v.hold rest
      (v.connection :: opening, table)
    | some line, v :: rest =>
      let (opening, table) := follow v.hold rest
      (opening, (line, [.arrival v.connection]) :: table)

/-- What the daemon finds around it: files, whether it can listen at an address or why not, whether
anybody reads what it prints, and where its jitter comes from. -/
structure Surroundings where
  read : String → Option (List UInt8)
  listen : String → Except String Unit
  readers : Bool
  generator : Random.Generator

/-- How a run ended: the exit code, what was printed, and the journal. -/
structure Ending where
  exit : Nat
  printed : List UInt8
  journal : Journal

/-- How a bad command line ends: with help, or with a complaint. -/
def usageExit : UsageError → Nat
  | .help => 0
  | _ => 2

/-- The failure of printing when nobody reads. -/
def nobodyReads : IoError := ⟨.brokenPipe, "Broken pipe (os error 32)"⟩

/-- How the light takes frames. Only printing can fail, when nobody reads. -/
def behaviour (w : Surroundings) : Driver.Light → Behaviour
  | .printed =>
    if w.readers then .ofTables none [] []
    else
      { write _ := .fails nobodyReads, flush _ := none, settled := 0, write_settled _ _ := rfl,
        flush_settled _ _ := rfl, lively := rfl }
  | .driven .. => .ofTables none [] []

/-- Turns the light off for the last time. -/
def extinguish (q : Queue) : Queue :=
  match q.turnOff .idle () with
  | (.ok (), q, ()) => q
  | (.error e, q, ()) => q.note .warn ("Could not turn the light off: " ++ Queue.failureMessage e)

/-- Asks the daemon to stop, unless it has been asked, and turns the light off. -/
def stop (light : Driver.Light) (q : Queue) : Ending :=
  let q := extinguish
    (if q.panel.control.closed then q else { q with panel := Server.shutDown q.panel })
  ⟨0, (light.run q.sink.taken.toList).printed, q.panel.journal⟩

/-- The server of some settings. -/
def server (s : Settings) : Server :=
  ⟨if s.concurrent then .concurrent else .serial, s.preempt⟩

/-- Settings, a light attached as they say, and what was noted meanwhile. -/
structure Prepared where
  settings : Settings
  light : Driver.Light
  journal : Journal

/-- Prepares to serve as a command line says, or ends for want of settings or of a light. -/
def prepare (read : String → Option (List UInt8)) (words : List String) : Except Ending Prepared :=
  match settings read words with
  | .error (.usage e) => .error ⟨usageExit e, [], #[]⟩
  | .error (.settings e) =>
    .error ⟨1, [], #[⟨.error, "Cannot read configuration: " ++ e.message⟩]⟩
  | .ok (s, file) =>
    let loaded := file.toArray.map fun path => ⟨.info, "Loaded configuration from " ++ path⟩
    match Driver.attach s.driver with
    | .error e =>
      .error ⟨1, [], loaded.push ⟨.error, "Unable to hook up to the light driver: " ++ e.message⟩⟩
    | .ok light => .ok ⟨s, light, loaded.push light.entry⟩

/-- How the daemon ends when it can not listen. -/
def unheard (p : Prepared) (reason : String) : Ending :=
  ⟨2, [], p.journal.push ⟨.error, "Error listening on " ++ p.settings.listenAddress ++
    ": listener failed: " ++ reason⟩⟩

/-- The queue that the daemon serves from. -/
def queue (p : Prepared) (b : Behaviour) (g : Random.Generator) : Queue :=
  let fresh := Queue.fresh b g
  { fresh with panel := (server p.settings).setUp { fresh.panel with journal := p.journal } }

/-- Serves visits and then stops. Nothing is the answer if an effect never ends. -/
def serve (w : Surroundings) (p : Prepared) (visits : List Visit) : Option Ending := do
  let (opening, table) := plan visits
  let run ← (server p.settings).run table (queue p (behaviour w p.light) w.generator) opening
  match run.failure with
  | none => return stop p.light run.queue
  | some e =>
    let q := run.queue.note .error (Queue.failureMessage e)
    return ⟨3, (p.light.run q.sink.taken.toList).printed, q.panel.journal⟩

/-- Runs the daemon with a command line. -/
def run (w : Surroundings) (words : List String) (visits : List Visit) : Option Ending :=
  match prepare w.read words with
  | .error ending => some ending
  | .ok p =>
    match w.listen p.settings.listenAddress with
    | .error reason => some (unheard p reason)
    | .ok () => serve w p visits

end Beacon.Daemon
