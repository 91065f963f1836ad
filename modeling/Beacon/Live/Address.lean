import Std.Async.DNS

/-!
# Addresses

A host has one or more addresses, and whoever wants to reach it or to listen at it tries them in
turn.
-/

namespace Beacon.Live

open Std.Async Std.Net

/-- The socket addresses of a port of a host. -/
def addresses (host : String) (port : UInt16) : Async (List SocketAddress) := do
  let found ← DNS.getAddrInfo host ""
  return found.toList.map fun
    | .v4 ip => .v4 ⟨ip, port⟩
    | .v6 ip => .v6 ⟨ip, port⟩

/-- The first success among attempts at the addresses of a port of a host, or else the last
failure. -/
def reach {α : Type} (host : String) (port : UInt16) (attempt : SocketAddress → Async α) :
    Async α := do
  let mut failure := IO.userError "the host has no address"
  for address in ← addresses host port do
    match ← (try pure (Except.ok (← attempt address)) catch e => pure (.error e)) with
    | .ok a => return a
    | .error e => failure := e
  throw failure

end Beacon.Live
