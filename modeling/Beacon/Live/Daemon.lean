import Beacon.Daemon
import Beacon.Live.Address
import Std.Async.Signal
import Std.Async.TCP
import Std.Sync.CancellationToken
import Std.Sync.Channel

/-!
# Serving over a network

The daemon with real connections and a real clock. One thread plays: it owns the queue and takes the
requests in the order in which they come. Connections are read beside it; like an interrupt from the
terminal, they meet the player only in the panel.
-/

namespace Beacon.Live

open Std.Async

/-- A daemon that is running. The queue is the player's own; the panel that counts is the one that
all share. -/
structure Post where
  server : Server
  light : Driver.Light
  panel : IO.Ref Panel
  queue : IO.Ref Queue
  requests : Std.CloseableChannel (Waiting × IO.Promise Unit)
  stopped : Std.CancellationToken

namespace Post

/-- Shows what has been noted. -/
def report (p : Post) : IO Unit := do
  let journal ← p.panel.modifyGet fun panel => (panel.journal, { panel with journal := #[] })
  for entry in Journal.coarse journal do
    IO.eprintln entry.renderIndented

/-- Changes the panel. -/
def steer {α : Type} (p : Post) (f : Panel → α × Panel) : IO α := do
  let a ← p.panel.modifyGet f
  p.report
  return a

/-- Changes the queue, with the panel as it is at this moment. -/
def change {α : Type} (p : Post) (f : Queue → α × Queue) : IO α := do
  let q ← p.queue.get
  let (a, q) ← p.panel.modifyGet fun panel =>
    let (a, q) := f { q with panel }
    ((a, q), q.panel)
  p.queue.set q
  p.report
  return a

/-- Notes something. -/
def note (p : Post) (message : String) : IO Unit :=
  p.steer fun panel => ((), panel.note .info message)

/-- Prints what the light has got since the last time, if it is printed. -/
def print (p : Post) : IO (Except IoError Unit) := do
  match p.light with
  | .driven .. => return .ok ()
  | .printed =>
    let q ← p.queue.modifyGet fun q => (q, { q with sink.taken := #[], begun := #[] })
    try
      let out ← IO.getStdout
      out.write ⟨q.sink.taken⟩
      out.flush
      return .ok ()
    catch _ => return .error Daemon.nobodyReads

/-- Lets a driver have its input, now that all of it is there. A printed light has had its own. -/
def handOver (p : Post) : IO Unit := do
  match p.light with
  | .printed => return
  | .driven _ program =>
    let q ← p.queue.get
    let output := program q.sink.taken.toList
    for (path, bytes) in output.files do
      IO.FS.writeBinFile path ⟨bytes.toArray⟩
    (← IO.getStdout).write ⟨output.printed.toArray⟩

/-! ## Playing -/

/-- Waits until the clock shows `deadline`, or the running effect has been cancelled. -/
partial def hold (p : Post) (deadline : Nat) : IO Unit := do
  let now ← IO.monoNanosNow
  if now < deadline && !(← p.panel.get).control.stopped then
    IO.sleep (min 5 ((deadline - now) / 1000000 + 1)).toUInt32
    p.hold deadline

/-- Plays what is left of an effect. -/
partial def drain (p : Post) (frames : Nat) (source : Source Random.Generator) :
    IO (Except IoError Outcome) := do
  let turn ← p.change fun q =>
    let (turn, q, ()) := q.turn .idle frames source ()
    (turn, q)
  match turn with
  | .ended result => return result
  | .shown frame rest =>
    match ← p.print with
    | .error e => return .error e
    | .ok () =>
      p.hold ((← IO.monoNanosNow) + frame.delay.nanos)
      p.drain (frames + 1) rest

/-- Plays a request. -/
def play (p : Post) (w : Waiting) : IO (Except IoError Unit) := do
  let started ← p.change fun q =>
    match q.start w.ticket w.effect with
    | none => (none, Server.drop w (q.skip w.effect.name))
    | some (source, q) => (some source, q)
  match started with
  | none => return .ok ()
  | some source =>
    let result ← p.drain 0 source
    p.change fun q => (result.map fun _ => (), q.finish w.effect.name result)

/-- No more requests are taken, and nobody waits for anything any more. -/
def shut (p : Post) : IO Unit := do
  discard (EIO.toBaseIO p.requests.close)
  p.stopped.cancel

/-- Plays requests until there are no more, and then turns the light off, or until the light fails.
The answer is the exit code. -/
partial def attend (p : Post) : IO UInt32 := do
  match ← p.requests.sync.recv with
  | some (w, played) =>
    match ← p.play w with
    | .ok () =>
      played.resolve ()
      p.attend
    | .error e =>
      p.change fun q => ((), q.note .error (Queue.failureMessage e))
      p.shut
      return 3
  | none =>
    p.change fun q => ((), Daemon.extinguish q)
    discard p.print
    p.handOver
    return 0

/-! ## Connections -/

/-- Reads a line of a connection and waits until it has been played; the answer is whether the
connection goes on. -/
def accept (p : Post) (line : List UInt8) : Async Bool := do
  if Request.ofLine line = .blank then return true
  match ← p.steer fun panel => Connection.await p.server.preempts panel [line] with
  | none => return false
  | some w =>
    let played ← IO.Promise.new
    if ← p.requests.trySend (w, played) then
      discard (await played.result?)
      return true
    else return false

/-- The next bytes of a connection. Nothing is the answer at its end, or when the daemon stops. -/
def receive (p : Post) (socket : TCP.Socket.Client) : Async (Option ByteArray) :=
  Selectable.one
    #[.case (socket.recvSelector 4096) pure, .case p.stopped.selector fun () => pure none]

/-- Reads a connection to its end. -/
def converse (p : Post) (socket : TCP.Socket.Client) : Async Unit := do
  let mut pending : List UInt8 := []
  let mut going := true
  while going do
    match ← p.receive socket with
    | some bytes =>
      let parts := Text.fields Sink.newline (pending ++ bytes.toList)
      for line in parts.dropLast do
        if going then going ← p.accept line
      pending := parts.getLastD []
    | none =>
      unless ← p.stopped.isCancelled do
        for line in Connection.ofBytes pending do discard (p.accept line)
      going := false

/-- Reads a connection to its end, or notes why that is not possible. -/
def welcome (p : Post) (socket : TCP.Socket.Client) : Async Unit := do
  try
    p.note ("Connection from " ++ toString (← socket.getPeerName).ipAddr)
    p.converse socket
  catch e =>
    p.steer fun panel => ((), panel.note .warn ("Unable to read from connection: " ++ toString e))

/-- Welcomes connections until the daemon stops. -/
def listen (p : Post) (listener : TCP.Socket.Server) : Async Unit := do
  let mut going := true
  while going do
    let socket? : Option TCP.Socket.Client ← Selectable.one
      #[.case listener.acceptSelector fun socket => pure (some socket),
        .case p.stopped.selector fun () => pure none]
    match socket? with
    | none => going := false
    | some socket =>
      match p.server.dispatch with
      | .serial => p.welcome socket
      | .concurrent => background (p.welcome socket)

/-- Stops the daemon when the terminal interrupts it; further interrupts change nothing. -/
def heed (p : Post) : Async Unit := do
  let terminal ← Signal.Waiter.mk .sigint true
  while true do
    discard (await (← terminal.wait))
    unless ← p.stopped.isCancelled do
      p.steer fun panel => ((), Server.shutDown panel)
      p.shut

end Post

/-! ## The daemon -/

/-- The bytes of the file that a command line names. -/
def settingsFile (words : List String) : IO (Option (List UInt8)) := do
  match Arguments.read Daemon.grammar words with
  | .error _ => return none
  | .ok r =>
    match r.value? "config" with
    | none => return none
    | some path =>
      try return some (← IO.FS.readBinFile path).toList
      catch _ => return none

/-- Shows how the daemon ended before it served. -/
def conclude (e : Daemon.Ending) : IO UInt32 := do
  for entry in Journal.coarse e.journal do
    IO.eprintln entry.renderIndented
  return e.exit.toUInt32

/-- A socket that listens as the settings say. -/
def listener (s : Settings) : Async TCP.Socket.Server :=
  reach s.host s.port fun address => do
    let socket ← TCP.Socket.Server.mk
    socket.bind address
    socket.listen 128
    return socket

/-- Serves with a socket that listens. -/
def occupy (prepared : Daemon.Prepared) (socket : TCP.Socket.Server) : IO UInt32 := do
  let seed := (← IO.getRandomBytes 8).foldl (fun (n : UInt64) b => n <<< 8 ||| b.toUInt64) 0
  let queue := Daemon.queue prepared (.ofTables none [] []) (.ofSeed seed)
  let p : Post :=
    { server := Daemon.server prepared.settings
      light := prepared.light
      panel := ← IO.mkRef queue.panel
      queue := ← IO.mkRef queue
      requests := ← Std.CloseableChannel.new
      stopped := ← Std.CancellationToken.new }
  p.note ("Listening on " ++ prepared.settings.host ++ ":" ++ toString (← socket.getSockName).port)
  discard (Async.toIO p.heed)
  discard (Async.toIO (p.listen socket))
  p.attend

/-- Runs the daemon with a command line; the answer is the exit code. -/
def serve (words : List String) : IO UInt32 := do
  let file ← settingsFile words
  match Daemon.prepare (fun _ => file) words with
  | .error ending => conclude ending
  | .ok prepared =>
    match ← EIO.toBaseIO (listener prepared.settings).block with
    | .error e => conclude (Daemon.unheard prepared (toString e))
    | .ok socket => occupy prepared socket

end Beacon.Live
