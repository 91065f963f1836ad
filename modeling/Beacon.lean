import Beacon.Main
import Beacon.Playback
import Beacon.Queue.Session
import Beacon.Proofs.Relay
import Beacon.Proofs.Scene
import Beacon.Proofs.Scene.Blocks
import Beacon.Proofs.Scene.Causes
import Beacon.Proofs.Scene.Hush
import Beacon.Proofs.Scene.Interrupts
import Beacon.Proofs.Scene.Lines
import Beacon.Proofs.Scene.Newest
import Beacon.Proofs.Scene.Refinement
import Beacon.Proofs.Scene.Schedule
import Beacon.Proofs.Scene.Shutdown
import Beacon.Proofs.Scene.Supply
import Beacon.Proofs.Scene.Upkeep
import Beacon.Proofs.Sink.Faultless
import Beacon.Proofs.Source.Size
import Beacon.Proofs.Trace
import Beacon.Proofs.Handover
import Beacon.Proofs.Effect.Grammar
import Beacon.Proofs.Queue.Playing
import Beacon.Proofs.Server.Serving
import Beacon.Proofs.Client.Cut
import Beacon.Proofs.Server.Concurrent
import Beacon.Proofs.Scene.Progress
import Beacon.Proofs.Sink.Writing
import Beacon.Proofs.Queue.Draining
import Beacon.Proofs.Server.Serial
import Beacon.Proofs.Queue.Calls
import Beacon.Proofs.Queue.History
import Beacon.Proofs.Queue.Failing
import Beacon.Proofs.Effect.Refusal
import Beacon.Composing
import Beacon.Proofs.Source.Composing
import Beacon.Proofs.Scene.Seeds
import Beacon.Proofs.Queue.Pacing
import Beacon.Proofs.Scene.Pacing
import Beacon.Proofs.Scene.Requests
import Beacon.Duration.Reading
import Beacon.Proofs.Duration.Grammar
import Beacon.Proofs.Precision
import Beacon.Proofs.Duration.Reading
import Beacon.Proofs.Source.Whole
import Beacon.Proofs.Source.Ramp
import Beacon.Proofs.Source.Course
import Beacon.Proofs.Precision.Nearest
import Beacon.Proofs.Source.Drift
import Beacon.Proofs.Source.Envelope
import Beacon.Proofs.Sink.Decoding
import Beacon.Proofs.Sleepers
import Beacon.Proofs.Sink.Attempts
import Beacon.Proofs.Queue.Lines
import Beacon.Proofs.Server.Dispatch
