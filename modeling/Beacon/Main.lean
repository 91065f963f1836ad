import Beacon.Live.Daemon
import Beacon.Live.Sender

/-!
# The program

`beacon serve` runs the daemon, and `beacon send` sends effects to one.
-/

/-- Runs the daemon or the sender. -/
def main : List String → IO UInt32
  | "serve" :: words => Beacon.Live.serve words
  | "send" :: words => Beacon.Live.send words
  | _ => do
    IO.eprintln "usage: beacon serve [OPTION]... | beacon send [OPTION]... EFFECT..."
    return 2
