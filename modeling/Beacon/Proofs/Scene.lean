import Beacon.Proofs.Relay
import Beacon.Proofs.Trace
import Mathlib.Logic.Function.Basic

/-!
# Scenes

A queue that many threads share. Each thread asks for the queue, gets tickets and halts effects as
it likes; the scene is all that they share, together with what each of them is doing, and `Step` is
one atomic step of one of them, or of a composer. All that a thread reads or writes beside its own
data is a step of its own: the closed flag, the epoch, the lock of the active slot, a token's flag,
its wake-up, the slot for a frame, a line for the light. A run is any sequence of steps, so it
covers every number of threads, every mix of operations and every interleaving.

1. **What threads do**: `Job` (what is asked of the queue), `Halt` (the calls that interrupt),
   `Point` (where a thread is), `Play` and `Phase` (where the one is who has the queue).
2. **The scene** and its steps: `Scene`, `Turn` (a step of the one who has the queue), `Step`.
3. **Runs**: `Run`, with the events that its steps show.

The queue is behind a lock, and so is the active slot: `desk` and `latch` say who holds these locks,
and nobody else can. A thread that keeps the queue for several operations behaves like one that gets
it anew for each of them.
-/

namespace Beacon

/-! ## What threads do -/

/-- What is asked of the queue. -/
inductive Job
  | push (effect : Effect)
  | pushWith (ticket : Ticket) (effect : Effect)
  | turnOff
  deriving DecidableEq, Repr

/-- The calls that interrupt the running effect. -/
inductive Halt
  | interrupt | preempt | close
  deriving DecidableEq, Repr

/-- Where a thread is. One that asks for the queue is `queued` until it has left the queue. A call
that interrupts draws the next epoch and then strikes at the running effect; closing raises the
closed flag before. -/
inductive Point
  | idle
  | queued (job : Job)
  | closing
  | drawing (halt : Halt)
  | striking (halt : Halt) (epoch : UInt64)
  deriving DecidableEq, Repr

/-- How far a call has come that holds the lock of the active slot: it is to look for a token, it
has raised the flag of a token and is to leave the wake-up, or it has done. -/
inductive Grip
  | aim
  | rouse (relay : Nat)
  | spent
  deriving DecidableEq, Repr

/-- Who holds the lock of the active slot: a call, or the one who has the queue. -/
inductive Latch (ι : Type)
  | caller (thread : ι) (grip : Grip)
  | player
  deriving DecidableEq, Repr

/-- An effect that was started: the ticket of its request, what is played, the seed of its jitter,
its relay, and how many of its frames were written. -/
structure Show where
  ticket : Ticket
  effect : Effect
  seed : UInt64
  relay : Nat
  shown : Nat
  deriving DecidableEq, Repr

/-- The source of all frames of what is played. -/
def Show.source (w : Show) : Source Random.Generator :=
  w.effect.source (Random.Generator.ofSeed w.seed)

/-- Where the player of a started effect is: entering the token in the active slot; looking once
more whether the request is stale, and if so cancelling the token; going through the frames, each of
which is looked for, received, written and held; and ending, by a last look at the flag, clearing
the slot, and dropping the sequence of frames, which cancels the token. -/
inductive Phase
  | enroll | recheckClosed | recheckEpoch | abort | abortRouse
  | look | receive | write (frame : Frame) | hold (delay : Duration) | sleep | timedOut
  | judge
  | clear (result : Except IoError Outcome)
  | drop (result : Except IoError Outcome)
  | dropRouse (result : Except IoError Outcome)
  | deafen (result : Except IoError Outcome)

/-- What a thread has done with the queue. -/
inductive Report
  | turnedOff (result : Except IoError Unit)
  | skipped (ticket : Ticket) (effect : Effect)
  | played (showing : Show) (result : Except IoError Outcome)

/-- Where the one is who has the queue: getting a ticket, looking whether the request is stale,
starting an effect or playing it, turning the light off, or leaving. -/
inductive Play
  | ask (effect : Effect)
  | checkClosed (ticket : Ticket) (effect : Effect)
  | checkEpoch (ticket : Ticket) (effect : Effect)
  | start (ticket : Ticket) (effect : Effect)
  | on (showing : Show) (phase : Phase)
  | black
  | done (report : Report)

/-- The first thing to do with the queue. -/
def Job.first : Job → Play
  | push e => .ask e
  | pushWith t e => .checkClosed t e
  | turnOff => .black

/-- Whether a job can be asked for when these tickets have been issued. -/
def Job.Allowed (issued : List Ticket) : Job → Prop
  | pushWith t _ => t ∈ issued
  | _ => True

instance (issued : List Ticket) : DecidablePred (Job.Allowed issued)
  | .push _ => .isTrue trivial
  | .pushWith t _ => inferInstanceAs (Decidable (t ∈ issued))
  | .turnOff => .isTrue trivial

/-- Where a call begins. -/
def Halt.first : Halt → Point
  | close => .closing
  | halt => .drawing halt

/-- The tickets that have been issued when a call has returned. -/
def Halt.issue (e : UInt64) (issued : List Ticket) : Halt → List Ticket
  | preempt => ⟨e⟩ :: issued
  | _ => issued

/-- What a step shows: a thread gets a ticket, closes the queue, draws an epoch, raises the flag of
the running effect's token, or has its call returned; a thread gets the queue, cancels an effect
that it finds stale, writes a line, makes up its mind whether the effect was cancelled, or
leaves. -/
inductive Scene.Event (ι : Type)
  | quiet
  | issued (thread : ι) (ticket : Ticket)
  | shut (thread : ι)
  | drew (thread : ι) (epoch : UInt64)
  | struck (thread : ι) (epoch : UInt64) (relay : Nat)
  | returned (thread : ι) (halt : Halt) (epoch : UInt64)
  | took (thread : ι) (job : Job)
  | aborted (thread : ι) (ticket : Ticket) (relay : Nat)
  | wrote (thread : ι) (ticket : Ticket) (color : Color)
  | blackened (thread : ι)
  | judged (thread : ι) (relay : Nat) (cancelled : Bool)
  | left (thread : ι) (report : Report)

/-! ## The scene -/

/-- What the threads share, and what each of them is doing. `desk` is the one who has the queue,
`latch` the one who holds the lock of the active slot; the first `born` relays are in use, and
`issued` are the tickets that have been given out. -/
structure Scene (ι : Type) where
  epoch : UInt64
  closed : Bool
  active : Option Nat
  latch : Option (Latch ι)
  desk : Option (ι × Play)
  sink : Sink
  generator : Random.Generator
  relays : Nat → Relay
  born : Nat
  issued : List Ticket
  doing : ι → Point

namespace Scene

variable {ι : Type}

/-- The scene of a queue that nobody has used yet. -/
def fresh (b : Behaviour) (generator : Random.Generator) : Scene ι where
  epoch := 0
  closed := false
  active := none
  latch := none
  desk := none
  sink := Sink.fresh b
  generator := generator
  relays := fun _ => ⟨Token.fresh, none, .gone, true⟩
  born := 0
  issued := []
  doing := fun _ => .idle

/-- The control that the threads of a scene share. -/
def control (s : Scene ι) : Control :=
  ⟨s.epoch, s.closed, s.active.map fun k => (s.relays k).token⟩

/-- The token of a started effect. -/
def token (s : Scene ι) (w : Show) : Token := (s.relays w.relay).token

/-- The scene with a change at one relay. -/
def onRelay (s : Scene ι) (k : Nat) (f : Relay → Relay) : Scene ι :=
  { s with relays := Function.update s.relays k (f (s.relays k)) }

/-- The scene with a change of one token. -/
def onToken (s : Scene ι) (k : Nat) (f : Token → Token) : Scene ι := s.onRelay k (Relay.onToken f)

/-- The effect that a request starts: its seed is drawn from the generator of the queue, and its
relay is the next one. -/
def opening (s : Scene ι) (t : Ticket) (e : Effect) : Show := ⟨t, e, s.generator.wide.1, s.born, 0⟩

/-- The scene after an effect was started. -/
def opened (s : Scene ι) (e : Effect) : Scene ι :=
  { s with
    generator := s.generator.wide.2
    relays := Function.update s.relays s.born (Relay.ofEffect e s.generator.wide.1)
    born := s.born + 1 }

/-- The desk says who has the queue and where that one is. -/
theorem desk_inj {i j : ι} {p q : Play} (h : some (i, p) = some (j, q)) : i = j ∧ p = q :=
  Prod.mk.inj (Option.some.inj h)

/-- One step of the thread that has the queue, from one point of its play to the next. What it
shares with others changes as the second scene says; that scene is read without its desk. -/
inductive Turn (i : ι) (s : Scene ι) : Play → Event ι → Scene ι → Play → Prop
  | ask {e} : Turn i s (.ask e) .quiet s (.checkClosed ⟨s.epoch⟩ e)
  | refuseClosed {t e} (hc : s.closed = true) :
      Turn i s (.checkClosed t e) .quiet s (.done (.skipped t e))
  | passClosed {t e} (hc : s.closed = false) :
      Turn i s (.checkClosed t e) .quiet s (.checkEpoch t e)
  | refuseEpoch {t e} (he : s.epoch ≠ t.epoch) :
      Turn i s (.checkEpoch t e) .quiet s (.done (.skipped t e))
  | passEpoch {t e} (he : s.epoch = t.epoch) : Turn i s (.checkEpoch t e) .quiet s (.start t e)
  | start {t e} : Turn i s (.start t e) .quiet (s.opened e) (.on (s.opening t e) .enroll)
  | lockEnroll {w} (hl : s.latch = none) :
      Turn i s (.on w .enroll) .quiet { s with latch := some .player } (.on w .enroll)
  | enroll {w} (hl : s.latch = some .player) :
      Turn i s (.on w .enroll) .quiet { s with active := some w.relay, latch := none }
        (.on w .recheckClosed)
  | staleClosed {w} (hc : s.closed = true) : Turn i s (.on w .recheckClosed) .quiet s (.on w .abort)
  | freshClosed {w} (hc : s.closed = false) :
      Turn i s (.on w .recheckClosed) .quiet s (.on w .recheckEpoch)
  | staleEpoch {w} (he : s.epoch ≠ w.ticket.epoch) :
      Turn i s (.on w .recheckEpoch) .quiet s (.on w .abort)
  | freshEpoch {w} (he : s.epoch = w.ticket.epoch) :
      Turn i s (.on w .recheckEpoch) .quiet s (.on w .look)
  | abort {w} (ht : (s.token w).cancelled = false) :
      Turn i s (.on w .abort) (.aborted i w.ticket w.relay) (s.onToken w.relay Token.raise)
        (.on w .abortRouse)
  | abortAgain {w} (ht : (s.token w).cancelled = true) :
      Turn i s (.on w .abort) .quiet s (.on w .look)
  | abortRouse {w} :
      Turn i s (.on w .abortRouse) .quiet (s.onToken w.relay Token.rouse) (.on w .look)
  | lookCancelled {w} (ht : (s.token w).cancelled = true) :
      Turn i s (.on w .look) .quiet s (.on w .judge)
  | lookOn {w} (ht : (s.token w).cancelled = false) :
      Turn i s (.on w .look) .quiet s (.on w .receive)
  | receive {w frame} (hs : (s.relays w.relay).slot = some frame) :
      Turn i s (.on w .receive) .quiet (s.onRelay w.relay Relay.emptied) (.on w (.write frame))
  | receiveEnd {w} (hs : (s.relays w.relay).slot = none)
      (hc : (s.relays w.relay).composer = .gone) :
      Turn i s (.on w .receive) .quiet s (.on w .judge)
  | write {w frame} (hw : (s.sink.writeFrame frame.color).1 = .ok ()) :
      Turn i s (.on w (.write frame)) (.wrote i w.ticket frame.color)
        { s with sink := (s.sink.writeFrame frame.color).2 }
        (.on { w with shown := w.shown + 1 } (.hold frame.delay))
  | writeFails {w frame error} (hw : (s.sink.writeFrame frame.color).1 = .error error) :
      Turn i s (.on w (.write frame)) (.wrote i w.ticket frame.color)
        { s with sink := (s.sink.writeFrame frame.color).2 } (.on w (.clear (.error error)))
  | holdCancelled {w delay} (ht : (s.token w).cancelled = true) :
      Turn i s (.on w (.hold delay)) .quiet s (.on w .judge)
  | holdOver {w delay} (age : Duration) (ht : (s.token w).cancelled = false)
      (hr : (Pace.remaining delay age).nanos = 0) :
      Turn i s (.on w (.hold delay)) .quiet s (.on w .look)
  | holdOn {w delay} (age : Duration) (ht : (s.token w).cancelled = false)
      (hr : (Pace.remaining delay age).nanos ≠ 0) :
      Turn i s (.on w (.hold delay)) .quiet s (.on w .sleep)
  | wake {w} (ht : (s.token w).wake = true) :
      Turn i s (.on w .sleep) .quiet (s.onToken w.relay Token.settle) (.on w .judge)
  | timeout {w} : Turn i s (.on w .sleep) .quiet s (.on w .timedOut)
  | timedOutCancelled {w} (ht : (s.token w).cancelled = true) :
      Turn i s (.on w .timedOut) .quiet s (.on w .judge)
  | timedOutOn {w} (ht : (s.token w).cancelled = false) :
      Turn i s (.on w .timedOut) .quiet s (.on w .look)
  | judgeCancelled {w} (ht : (s.token w).cancelled = true) :
      Turn i s (.on w .judge) (.judged i w.relay true) s
        (.on w (.clear (.ok (.interrupted w.shown))))
  | judgeOn {w} (ht : (s.token w).cancelled = false) :
      Turn i s (.on w .judge) (.judged i w.relay false) s
        (.on w (.clear (.ok (.completed w.shown))))
  | lockClear {w result} (hl : s.latch = none) :
      Turn i s (.on w (.clear result)) .quiet { s with latch := some .player }
        (.on w (.clear result))
  | clear {w result} (hl : s.latch = some .player) :
      Turn i s (.on w (.clear result)) .quiet { s with active := none, latch := none }
        (.on w (.drop result))
  | drop {w result} (ht : (s.token w).cancelled = false) :
      Turn i s (.on w (.drop result)) .quiet (s.onToken w.relay Token.raise)
        (.on w (.dropRouse result))
  | dropAgain {w result} (ht : (s.token w).cancelled = true) :
      Turn i s (.on w (.drop result)) .quiet s (.on w (.deafen result))
  | dropRouse {w result} :
      Turn i s (.on w (.dropRouse result)) .quiet (s.onToken w.relay Token.rouse)
        (.on w (.deafen result))
  | deafen {w result} :
      Turn i s (.on w (.deafen result)) .quiet (s.onRelay w.relay Relay.deafened)
        (.done (.played w result))
  | black (hw : (s.sink.writeFrame Color.black).1 = .ok ()) :
      Turn i s .black (.blackened i) { s with sink := (s.sink.writeFrame Color.black).2 }
        (.done (.turnedOff (.ok ())))
  | blackFails {error} (hw : (s.sink.writeFrame Color.black).1 = .error error) :
      Turn i s .black (.blackened i) { s with sink := (s.sink.writeFrame Color.black).2 }
        (.done (.turnedOff (.error error)))

section Steps

variable [DecidableEq ι]

/-- The scene after a thread has gone to another point. -/
def go (s : Scene ι) (i : ι) (p : Point) : Scene ι :=
  { s with doing := Function.update s.doing i p }

/-- One atomic step of a scene: of a thread that does not have the queue, of the one that has it
(`turn`), or of a composer (`compose`). -/
inductive Step (s : Scene ι) : Event ι → Scene ι → Prop
  | request {i} (job : Job) (hd : s.doing i = .idle) (hj : job.Allowed s.issued) :
      Step s .quiet (s.go i (.queued job))
  | ticket {i} (hd : s.doing i = .idle) :
      Step s (.issued i ⟨s.epoch⟩) { s with issued := ⟨s.epoch⟩ :: s.issued }
  | call {i} (halt : Halt) (hd : s.doing i = .idle) : Step s .quiet (s.go i halt.first)
  | shut {i} (hd : s.doing i = .closing) :
      Step s (.shut i) { s.go i (.drawing .close) with closed := true }
  | draw {i halt} (hd : s.doing i = .drawing halt) :
      Step s (.drew i (s.epoch + 1))
        { s.go i (.striking halt (s.epoch + 1)) with epoch := s.epoch + 1 }
  | grab {i halt e} (hd : s.doing i = .striking halt e) (hl : s.latch = none) :
      Step s .quiet { s with latch := some (.caller i .aim) }
  | miss {i} (hl : s.latch = some (.caller i .aim)) (ha : s.active = none) :
      Step s .quiet { s with latch := some (.caller i .spent) }
  | strikeAgain {i k} (hl : s.latch = some (.caller i .aim)) (ha : s.active = some k)
      (ht : (s.relays k).token.cancelled = true) :
      Step s .quiet { s with latch := some (.caller i .spent) }
  | strike {i halt e k} (hd : s.doing i = .striking halt e)
      (hl : s.latch = some (.caller i .aim)) (ha : s.active = some k)
      (ht : (s.relays k).token.cancelled = false) :
      Step s (.struck i e k) { s.onToken k Token.raise with latch := some (.caller i (.rouse k)) }
  | rouse {i k} (hl : s.latch = some (.caller i (.rouse k))) :
      Step s .quiet { s.onToken k Token.rouse with latch := some (.caller i .spent) }
  | release {i halt e} (hd : s.doing i = .striking halt e)
      (hl : s.latch = some (.caller i .spent)) :
      Step s (.returned i halt e)
        { s.go i .idle with latch := none, issued := halt.issue e s.issued }
  | take {i job} (hd : s.doing i = .queued job) (hq : s.desk = none) :
      Step s (.took i job) { s with desk := some (i, job.first) }
  | turn {i p ev s' p'} (hq : s.desk = some (i, p)) (ht : Turn i s p ev s' p') :
      Step s ev { s' with desk := some (i, p') }
  | leave {i report} (hq : s.desk = some (i, .done report)) :
      Step s (.left i report) { s.go i .idle with desk := none }
  | compose {k r} (hc : Relay.Compose (s.relays k) r) : Step s .quiet (s.onRelay k fun _ => r)

/-! ## Runs -/

/-- A run from one scene to another, with what its steps show. -/
inductive Run (s₀ : Scene ι) : List (Event ι) → Scene ι → Prop
  | refl : Run s₀ [] s₀
  | step {events s ev s'} (hrun : Run s₀ events s) (hstep : Step s ev s') :
      Run s₀ (events ++ [ev]) s'

namespace Run

variable {s₀ s₁ s₂ : Scene ι} {before after : List (Event ι)}

theorem trace_iff {events : List (Event ι)} : Run s₀ events s₁ ↔ Trace Step s₀ events s₁ := by
  constructor <;> intro h
  all_goals
    induction h with
    | refl => exact .refl
    | step _ hstep ih => exact ih.step hstep

/-- A run can be continued by another one. -/
theorem append (h₁ : Run s₀ before s₁) (h₂ : Run s₁ after s₂) : Run s₀ (before ++ after) s₂ :=
  trace_iff.2 ((trace_iff.1 h₁).append (trace_iff.1 h₂))

/-- A run passes through a scene after any first part of its steps. -/
theorem split (h : Run s₀ (before ++ after) s₂) : ∃ s₁, Run s₀ before s₁ ∧ Run s₁ after s₂ := by
  rcases (trace_iff.1 h).split with ⟨s₁, hbefore, hafter⟩
  exact ⟨s₁, trace_iff.2 hbefore, trace_iff.2 hafter⟩

/-- The step that shows an event of a run stands between what comes before and after it. -/
theorem split_at {ev : Event ι} (h : Run s₀ (before ++ ev :: after) s₂) :
    ∃ s s', Run s₀ before s ∧ Step s ev s' ∧ Run s' after s₂ := by
  rcases (trace_iff.1 h).split_at with ⟨s, s', hbefore, hstep, hafter⟩
  exact ⟨s, s', trace_iff.2 hbefore, hstep, trace_iff.2 hafter⟩

/-- What holds at the start and is kept by every step of a run holds at its end. -/
theorem invariant_of_mem {P : Scene ι → Prop}
    (hstep : ∀ s ev s', ev ∈ before → Step s ev s' → P s → P s') (h : Run s₀ before s₁)
    (h₀ : P s₀) : P s₁ :=
  (trace_iff.1 h).invariant_of_mem hstep h₀

/-- What holds at the start and is kept by every step holds at the end. -/
theorem invariant {P : Scene ι → Prop} (hstep : ∀ s ev s', Step s ev s' → P s → P s')
    (h : Run s₀ before s₁) (h₀ : P s₀) : P s₁ :=
  (trace_iff.1 h).invariant hstep h₀

end Run

end Steps

end Scene

end Beacon
