import Beacon.Client.Command
import Beacon.Live.Address
import Std.Async.TCP

/-!
# Sending over a network

The sender with a real server at the other end of its line.
-/

namespace Beacon.Live

open Std.Async

/-- Connects to the server of a command and sends its effects, each line in one go. The answer is
why the server was not reached, or how its side of the line behaved. -/
def deliver (c : Client.Command) : Async (Except String Behaviour) := do
  let connect address := do
    let socket ← TCP.Socket.Client.mk
    socket.connect address
    return socket
  match ← (try pure (Except.ok (← reach c.host c.port connect)) catch e => pure (.error e)) with
  | .error e => return .error (toString e)
  | .ok socket =>
    let mut sent := 0
    for effect in c.effects do
      try socket.send ⟨(Client.lineOf effect).toArray⟩
      catch e => return .ok (.ofTables none [(sent + 1, .fails ⟨.brokenPipe, toString e⟩)] [])
      sent := sent + 1
    try socket.shutdown
    catch e => return .ok (.ofTables none [] [(1, ⟨.brokenPipe, toString e⟩)])
    return .ok (.ofTables none [] [])

/-- Does what the command line of the sender says; the answer is the exit code. A server is looked
for only if the command comes to that. -/
def send (words : List String) : IO UInt32 := do
  let alone := Client.Command.run (fun _ => .ok (.ofTables none [] [])) words
  let ending ← match alone.received, Client.Command.ofWords words with
    | some _, .ok command =>
      let line ← (deliver command).block
      pure (Client.Command.run (fun _ => line) words)
    | _, _ => pure alone
  for entry in Journal.coarse ending.journal do
    IO.eprintln entry.renderIndented
  return ending.exit.toUInt32

end Beacon.Live
