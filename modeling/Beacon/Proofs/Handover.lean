import Beacon.Playback
import Beacon.Proofs.Relay
import Beacon.Proofs.Trace
import Mathlib.Logic.Function.Basic

/-!
# Handing over

The frames of one effect on their way from the composer, which works by itself, to the one listener
who asks for them, while others may cancel the token at any time. Each look at the flag, each use of
the slot and each half of a cancellation is a step of its own, and a run is any sequence of steps.

1. **Steps**: `Handover`, `Handover.Step`, and runs with what their steps show.
2. **Frames**: those received and the one in the slot are the first frames of the effect
   (`Handover.Sound`).
3. **Silence**: once the flag is up, or the composer has gone and the slot is empty, the listener
   gets nothing more, and is not kept waiting (`Handover.Silent`).
4. **The whole**: handing over is no more and no less than reading the frames of the effect in order
   (`Handover.Run.hands_over`), and what a `Playback` answers is what the listener of some run is
   answered (`Handover.Follows.exists_run_next`).
-/

namespace Beacon

/-- Where the listener is: between two questions, or it has asked for a frame and is to look at the
flag, or waits for the slot; or it gives up the sequence of frames, which cancels the token, and
has given it up. -/
inductive Listener
  | idle | looking | waiting | dropping | rousing | deafening | gone
  deriving DecidableEq, Repr

/-- The relay of an effect, where its listener is, which of the others are in the middle of a
cancellation, and, as a history, the frames that were received and how many were emitted. -/
structure Handover (ι : Type) where
  relay : Relay
  listener : Listener
  rousing : ι → Bool
  received : List Frame
  emitted : Nat

namespace Handover

variable {ι : Type}

/-- The frame in the slot, if there is one. -/
def inSlot (h : Handover ι) : List Frame := h.relay.slot.toList

/-- The start of an effect whose jitter comes from a given generator. A single colour has been
emitted then. -/
def fresh (e : Effect) (g : Random.Generator) : Handover ι where
  relay := .withGenerator e g
  listener := .idle
  rousing := fun _ => false
  received := []
  emitted := (Relay.withGenerator e g).slot.toList.length

/-- What a step shows: the listener asks for a frame, or is answered; somebody raises the flag, or
has its cancellation returned. -/
inductive Event (ι : Type)
  | quiet
  | asked
  | gave (answer : Option Frame)
  | raised
  | cancelled (thread : ι)
  deriving DecidableEq

variable [DecidableEq ι]

/-- One atomic step: of the composer (`compose`, `emit`), of one who cancels (`raise`, `raiseAgain`,
`rouse`), or of the listener. -/
inductive Step (h : Handover ι) : Event ι → Handover ι → Prop
  | compose {r} (hc : Relay.Compose h.relay r) (hs : r.slot = h.relay.slot) :
      Step h .quiet { h with relay := r }
  | emit {r frame} (hc : Relay.Compose h.relay r) (hs : h.relay.slot = none)
      (hr : r.slot = some frame) :
      Step h .quiet { h with relay := r, emitted := h.emitted + 1 }
  | raise {i} (hi : h.rousing i = false) (ht : h.relay.token.cancelled = false) :
      Step h .raised
        { h with relay := h.relay.onToken .raise, rousing := Function.update h.rousing i true }
  | raiseAgain {i} (hi : h.rousing i = false) (ht : h.relay.token.cancelled = true) :
      Step h (.cancelled i) h
  | rouse {i} (hi : h.rousing i = true) :
      Step h (.cancelled i)
        { h with relay := h.relay.onToken .rouse, rousing := Function.update h.rousing i false }
  | ask (hl : h.listener = .idle) : Step h .asked { h with listener := .looking }
  | stop (hl : h.listener = .looking) (ht : h.relay.token.cancelled = true) :
      Step h (.gave none) { h with listener := .idle }
  | wait (hl : h.listener = .looking) (ht : h.relay.token.cancelled = false) :
      Step h .quiet { h with listener := .waiting }
  | receive {frame} (hl : h.listener = .waiting) (hs : h.relay.slot = some frame) :
      Step h (.gave (some frame))
        { h with relay := h.relay.emptied, listener := .idle, received := h.received ++ [frame] }
  | finish (hl : h.listener = .waiting) (hs : h.relay.slot = none)
      (hc : h.relay.composer = .gone) : Step h (.gave none) { h with listener := .idle }
  | drop (hl : h.listener = .idle) : Step h .quiet { h with listener := .dropping }
  | dropRaise (hl : h.listener = .dropping) (ht : h.relay.token.cancelled = false) :
      Step h .raised { h with relay := h.relay.onToken .raise, listener := .rousing }
  | dropAgain (hl : h.listener = .dropping) (ht : h.relay.token.cancelled = true) :
      Step h .quiet { h with listener := .deafening }
  | dropRouse (hl : h.listener = .rousing) :
      Step h .quiet { h with relay := h.relay.onToken .rouse, listener := .deafening }
  | deafen (hl : h.listener = .deafening) :
      Step h .quiet { h with relay := h.relay.deafened, listener := .gone }

/-- Runs of a hand-over. -/
abbrev Run (h₀ : Handover ι) (events : List (Event ι)) (h : Handover ι) : Prop :=
  Trace Step h₀ events h

variable {h h' h₀ : Handover ι} {ev : Event ι} {before after events : List (Event ι)}
variable {origin : Source Random.Generator}

/-! ## Frames -/

/-- The frames received and the one in the slot are the first frames of the effect, and each of them
was emitted. Until its receiving end is given up, the relay supplies the frames after those that
were received. Whoever is in the middle of a cancellation has raised the flag. -/
structure Sound (origin : Source Random.Generator) (h : Handover ι) : Prop where
  frames : h.received ++ h.inSlot = origin.take (h.received.length + h.inSlot.length)
  emitted : h.emitted = h.received.length + h.inSlot.length
  supplies : h.relay.heard = true → h.relay.Supplies origin h.received.length
  heard : h.listener ≠ .gone → h.relay.heard = true
  rousing : ∀ i, h.rousing i = true → h.relay.token.cancelled = true

omit [DecidableEq ι] in
/-- The frames received are the first frames of the effect. -/
theorem Sound.received_eq (hs : Sound origin h) : h.received = origin.take h.received.length := by
  rw [← Source.take_take_add _ h.inSlot.length, ← hs.frames, List.take_left]

omit [DecidableEq ι] in
theorem Sound.fresh (e : Effect) (g : Random.Generator) :
    Sound (e.source g) (Handover.fresh e g : Handover ι) where
  frames := by cases e <;> rfl
  emitted := by cases e <;> rfl
  supplies _ := .withGenerator e g
  heard _ := by cases e <;> rfl
  rousing _ hnone := by cases hnone

omit [DecidableEq ι] in
/-- While the relay is heard, what it supplies says which frame lies in the slot. -/
theorem Sound.of_supplies (hs : h.relay.Supplies origin h.received.length)
    (hreceived : h.received = origin.take h.received.length)
    (hemitted : h.emitted = h.received.length + h.inSlot.length)
    (hrousing : ∀ i, h.rousing i = true → h.relay.token.cancelled = true) : Sound origin h where
  frames := by
    rw [inSlot, hs.take_slot, ← hreceived]
  emitted := hemitted
  supplies _ := hs
  heard _ := hs.heard
  rousing := hrousing

theorem Sound.step (hs : Sound origin h) (hstep : Step h ev h') : Sound origin h' := by
  have hreceived := hs.received_eq
  have hup := hs.rousing
  cases hstep with
  | @compose r hc hslot =>
    -- the composer goes on without touching the slot
    have hin : ({ h with relay := r } : Handover ι).inSlot = h.inSlot := by simp [inSlot, hslot]
    refine ⟨?_, ?_, ?_, ?_, ?_⟩
    · rw [hin]
      exact hs.frames
    · rw [hin]
      exact hs.emitted
    · intro hheard
      exact (hs.supplies (hc.heard_eq ▸ hheard)).compose hc
    · intro hlistener
      exact hc.heard_eq ▸ hs.heard hlistener
    · intro i hi
      exact hc.token_eq ▸ hup i hi
  | @emit r frame hc hslot hr =>
    -- the slot was empty, and now it holds the frame that was emitted
    rcases hc.slot_eq (by simp [hslot, hr]) with ⟨-, -, hheard⟩
    have hemitted := hs.emitted
    refine .of_supplies ((hs.supplies hheard).compose hc) hreceived ?_ ?_
    · simp [hemitted, inSlot, hslot, hr]
    · intro i hi
      exact hc.token_eq ▸ hup i hi
  | @raise i hi ht =>
    exact ⟨hs.frames, hs.emitted, fun hh => (hs.supplies hh).onToken fun _ => rfl, hs.heard,
      fun _ _ => rfl⟩
  | @rouse i hi =>
    have hcancelled := hup i hi
    exact ⟨hs.frames, hs.emitted, fun hh => (hs.supplies hh).onToken (f := Token.rouse) id,
      hs.heard, fun _ _ => hcancelled⟩
  | @receive frame hl hslot =>
    -- the frame goes from the slot to those received
    have hsupplies := hs.supplies (hs.heard (by simp [hl]))
    have htake := hsupplies.take_succ hslot
    have hemitted := hs.emitted
    refine .of_supplies ?_ ?_ ?_ hup
    · simpa using hsupplies.emptied hslot
    · simp [htake, ← hreceived]
    · simp [hemitted, inSlot, hslot, Relay.emptied]
  | dropRaise hl ht =>
    -- dropping the sequence raises the flag and leaves the wake-up, as a cancellation does
    have hheard := hs.heard (by simp [hl])
    exact ⟨hs.frames, hs.emitted, fun hh => (hs.supplies hh).onToken fun _ => rfl,
      fun _ => hheard, fun _ _ => rfl⟩
  | dropRouse hl =>
    have hheard := hs.heard (by simp [hl])
    exact ⟨hs.frames, hs.emitted, fun hh => (hs.supplies hh).onToken (f := Token.rouse) id,
      fun _ => hheard, hup⟩
  | deafen hl =>
    -- nobody listens any more, so nothing is said of the relay from now on
    exact ⟨hs.frames, hs.emitted, fun hh => (Bool.false_ne_true hh).elim,
      fun hne => absurd rfl hne, hup⟩
  | ask hl | stop hl | wait hl | finish hl | drop hl | dropAgain hl =>
    have hheard := hs.heard (by simp [hl])
    exact ⟨hs.frames, hs.emitted, hs.supplies, fun _ => hheard, hup⟩
  | raiseAgain => exact hs

theorem Run.sound {e : Effect} {g : Random.Generator} (hrun : Run (fresh e g) events h) :
    Sound (e.source g) h :=
  hrun.invariant (fun _ _ _ hstep hs => hs.step hstep) (Sound.fresh e g)

/-! ## Silence -/

/-- The listener gets nothing more: the flag is up, or the composer has gone and the slot is empty;
and if the listener has looked at the flag already, it is the latter. -/
structure Silent (h : Handover ι) : Prop where
  looking : h.relay.token.cancelled = true ∨ h.relay.slot = none ∧ h.relay.composer = .gone
  waiting : h.listener = .waiting → h.relay.slot = none ∧ h.relay.composer = .gone

theorem Silent.step (hs : Silent h) (hstep : Step h ev h') :
    Silent h' ∧ ∀ frame, ev ≠ .gave (some frame) := by
  have hlooking := hs.looking
  have hwaiting := hs.waiting
  cases hstep with
  | @compose r hc hslot =>
    -- the composer is still there, so it is the flag that keeps the listener from more
    have hstays := hc.composer_ne_gone
    refine ⟨⟨Or.inl ?_, ?_⟩, by simp⟩
    · rw [hc.token_eq]
      exact hlooking.resolve_right fun hgone => hstays hgone.2
    · intro hl
      exact absurd (hwaiting hl).2 hstays
  | @emit r frame hc hslot hr =>
    have hstays := hc.composer_ne_gone
    refine ⟨⟨Or.inl ?_, ?_⟩, by simp⟩
    · show r.token.cancelled = true
      rw [hc.token_eq]
      exact hlooking.resolve_right fun hgone => hstays hgone.2
    · intro hl
      exact absurd (hwaiting hl).2 hstays
  | receive hl hslot =>
    -- a listener that waits in silence finds nothing in the slot
    rw [(hwaiting hl).1] at hslot
    cases hslot
  | wait hl ht =>
    -- the listener has seen the flag down, so the composer must have gone
    have hgone := hlooking.resolve_left (by simp [ht])
    exact ⟨⟨Or.inr hgone, fun _ => hgone⟩, by simp⟩
  | raise => exact ⟨⟨Or.inl rfl, hwaiting⟩, by simp⟩
  | dropRaise => exact ⟨⟨Or.inl rfl, by simp⟩, by simp⟩
  | raiseAgain | rouse => exact ⟨⟨hlooking, hwaiting⟩, by simp⟩
  | _ => exact ⟨⟨hlooking, by simp⟩, by simp⟩

/-- Silence lasts. -/
theorem Run.silent (hrun : Run h events h') (hs : Silent h) :
    Silent h' ∧ ∀ frame, .gave (some frame) ∉ events := by
  induction hrun with
  | refl => exact ⟨hs, by simp⟩
  | step hrun hstep ih =>
    rcases ih.1.step hstep with ⟨hsilent, hev⟩
    refine ⟨hsilent, ?_⟩
    intro frame hmem
    rcases List.mem_append.1 hmem with hold | hnew
    · exact ih.2 frame hold
    · exact hev frame (List.mem_singleton.1 hnew).symm

/-- In silence the listener is not kept waiting. -/
theorem Silent.exists_answer (hs : Silent h)
    (hl : h.listener = .looking ∨ h.listener = .waiting) :
    ∃ more h', more.length ≤ 1 ∧ Run h (more ++ [.gave none]) h' := by
  rcases hl with hl | hl
  · cases ht : h.relay.token.cancelled with
    | true => exact ⟨[], _, Nat.zero_le 1, Trace.refl.step (.stop hl ht)⟩
    | false =>
      rcases hs.looking.resolve_left (by simp [ht]) with ⟨hslot, hgone⟩
      have hwait : Run h [.quiet] { h with listener := .waiting } := Trace.refl.step (.wait hl ht)
      exact ⟨[.quiet], _, Nat.le_refl 1, hwait.step (.finish rfl hslot hgone)⟩
  · rcases hs.waiting hl with ⟨hslot, hgone⟩
    exact ⟨[], _, Nat.zero_le 1, Trace.refl.step (.finish hl hslot hgone)⟩

/-- An answer that there is no frame begins a silence. -/
theorem Step.silent (hstep : Step h (.gave none) h') : Silent h' := by
  cases hstep with
  | stop hl ht => exact ⟨Or.inl ht, by simp⟩
  | finish hl hslot hgone => exact ⟨Or.inr ⟨hslot, hgone⟩, by simp⟩

/-- A flag that is up stays up. -/
theorem Step.cancelled (hstep : Step h ev h') (ht : h.relay.token.cancelled = true) :
    h'.relay.token.cancelled = true := by
  cases hstep with
  | compose hc | emit hc => exact hc.token_eq ▸ ht
  | raise | dropRaise => rfl
  | _ => exact ht

/-- The flag goes up only when somebody raises it. -/
theorem Run.raised {e : Effect} {g : Random.Generator} (hrun : Run (fresh e g) events h)
    (ht : h.relay.token.cancelled = true) : .raised ∈ events := by
  induction hrun with
  | refl => cases e <;> cases ht
  | @step events h ev h' hrun hstep ih =>
    cases hstep with
    | raise | dropRaise => simp
    | compose hc | emit hc => exact List.mem_append_left _ (ih (hc.token_eq ▸ ht))
    | _ => exact List.mem_append_left _ (ih ht)

/-- From some moment on, `later` being what has happened since, no frame is given any more; and a
listener that asks is answered so without waiting for anyone. -/
def Over (later : List (Event ι)) (h : Handover ι) : Prop :=
  (∀ frame, .gave (some frame) ∉ later) ∧
    (h.listener = .looking ∨ h.listener = .waiting →
      ∃ more h', more.length ≤ 1 ∧ Run h (more ++ [.gave none]) h')

theorem Run.over (hrun : Run h events h') (hs : Silent h) : Over events h' := by
  rcases Run.silent hrun hs with ⟨hsilent, hnone⟩
  exact ⟨hnone, hsilent.exists_answer⟩

/-- A question asked after a cancellation has returned is asked in silence. -/
theorem Run.over_of_cancelled {i : ι} {between later : List (Event ι)}
    (hs : Sound origin h) (hrun : Run h (.cancelled i :: between ++ .asked :: later) h') :
    Over later h' := by
  have hrun' : Run h ([] ++ .cancelled i :: (between ++ .asked :: later)) h' := by simpa using hrun
  rcases hrun'.split_at with ⟨h₁, h₂, hstart, hreturn, hafter⟩
  rcases hafter.split_at with ⟨h₃, h₄, hbetween, hask, hlater⟩
  obtain rfl := hstart.eq_of_nil
  have hreturned : h₂.relay.token.cancelled = true := by
    cases hreturn with
    | raiseAgain hi ht => exact ht
    | rouse hi => exact hs.rousing _ hi
  have hcancelled := hbetween.invariant (fun _ _ _ hstep => hstep.cancelled) hreturned
  cases hask with
  | ask hl => exact Run.over hlater ⟨Or.inl hcancelled, by simp⟩

/-! ## The whole -/

/-- An answer that there is no frame, with the flag down, means that all frames were received. -/
theorem Step.received_all (hs : Sound origin h) (hstep : Step h (.gave none) h')
    (ht : h.relay.token.cancelled = false) : origin.size? = some h.received.length := by
  cases hstep with
  | stop hl hup => cases ht.symm.trans hup
  | finish hl hslot hgone =>
    have hsupplies := hs.supplies (hs.heard (by simp [hl]))
    exact (hsupplies.size?_eq_of_over hslot hgone).resolve_left (by simp [ht])

/-- In silence nothing more is received. -/
theorem Run.received_eq (hrun : Run h events h') (hnone : ∀ frame, .gave (some frame) ∉ events) :
    h'.received = h.received := by
  refine hrun.invariant_of_mem (P := fun k => k.received = h.received) ?_ rfl
  intro k ev k' hmem hstep hk
  cases hstep with
  | receive => exact absurd hmem (hnone _)
  | _ => exact hk

/-- Handing over refines the plain list of frames. In every run, whatever the composer, the listener
and those who cancel do and in whatever order: the frames received and the one in the slot are the
first frames of the effect; at most one more frame was emitted than received; if the listener is
told that there is no frame before anybody has cancelled, then it has received all frames; whoever
asks after a cancellation has returned gets no frame; and once the listener was told that there is
no frame, it never gets one again. -/
theorem Run.hands_over {e : Effect} {g : Random.Generator} (hrun : Run (fresh e g) events h) :
    h.received ++ h.inSlot = (e.source g).take (h.received.length + h.inSlot.length) ∧
    h.emitted ≤ h.received.length + 1 ∧
    (∀ before later, events = before ++ .gave none :: later → .raised ∉ before →
      ∀ n, h.received.length ≤ n → (e.source g).take n = h.received) ∧
    (∀ before between later i, events = before ++ (.cancelled i :: between ++ .asked :: later) →
      Over later h) ∧
    (∀ before later, events = before ++ .gave none :: later → Over later h) := by
  have hsound := Run.sound hrun
  refine ⟨hsound.frames, ?_, ?_, ?_, ?_⟩
  · -- besides what was received there is at most the one frame in the slot
    have hslot : h.inSlot.length ≤ 1 := by
      unfold inSlot
      cases h.relay.slot <;> simp
    have hemitted := hsound.emitted
    omega
  · -- no flag was up when nothing was given, so the composer was gone and the slot empty
    rintro before later rfl hdown n hn
    rcases hrun.split_at with ⟨h₁, h₂, hbefore, hgave, hlater⟩
    have ht : h₁.relay.token.cancelled = false := by
      cases ht : h₁.relay.token.cancelled with
      | false => rfl
      | true => exact absurd (Run.raised hbefore ht) hdown
    have hall := Step.received_all (Run.sound hbefore) hgave ht
    have hkept : h.received = h₁.received := by
      have hafter := Run.received_eq hlater (Run.silent hlater hgave.silent).2
      cases hgave <;> exact hafter
    rw [← hkept] at hall
    exact (Source.take_of_size_le hall hn).trans hsound.received_eq.symm
  · -- whoever asks after a cancel has returned sees the flag
    rintro before between later i rfl
    rcases hrun.split with ⟨h₁, hbefore, hafter⟩
    exact Run.over_of_cancelled (Run.sound hbefore) hafter
  · -- to have been given nothing is to be silent from then on
    rintro before later rfl
    rcases hrun.split_at with ⟨h₁, h₂, hbefore, hgave, hlater⟩
    exact Run.over hlater hgave.silent

/-- A flash that is run once is received in two frames, and a third question is answered with none
before anybody has cancelled. Then the thread 0 cancels, and the listener asks once more. -/
theorem Run.hands_over_flash :
    ∃ h : Handover Nat,
      Run (fresh (.flash ⟨⟨5000000⟩, ⟨255, 0, 0⟩, 1⟩) (.ofSeed 0))
        ([.quiet, .quiet, .asked, .quiet, .gave (some ⟨⟨255, 0, 0⟩, ⟨5000000⟩⟩), .quiet, .quiet,
          .quiet, .asked, .quiet, .gave (some ⟨Color.black, ⟨5000000⟩⟩), .asked, .quiet] ++
          .gave none :: [.raised, .cancelled 0, .asked]) h ∧
      (∀ n, 2 ≤ n → (Effect.source (Random.Generator.ofSeed 0)
        (.flash ⟨⟨5000000⟩, ⟨255, 0, 0⟩, 1⟩)).take n =
          [⟨⟨255, 0, 0⟩, ⟨5000000⟩⟩, ⟨Color.black, ⟨5000000⟩⟩]) ∧
      Over [] h := by
  have hstart : Run (fresh (.flash ⟨⟨5000000⟩, ⟨255, 0, 0⟩, 1⟩) (.ofSeed 0)) []
    (fresh (.flash ⟨⟨5000000⟩, ⟨255, 0, 0⟩, 1⟩) (.ofSeed 0) : Handover Nat) := .refl
  have hred := ((((hstart.step (.compose (.offer rfl rfl rfl) rfl)).step
    (.emit (.send rfl rfl rfl) rfl rfl)).step (.ask rfl)).step (.wait rfl rfl)).step
    (.receive rfl rfl)
  have hblack := (((((hred.step (.compose (.offer rfl rfl rfl) rfl)).step
    (.emit (.send rfl rfl rfl) rfl rfl)).step (.compose (.ended rfl rfl) rfl)).step
    (.ask rfl)).step (.wait rfl rfl)).step (.receive rfl rfl)
  have hnone := ((hblack.step (.ask rfl)).step (.wait rfl rfl)).step (.finish rfl rfl rfl)
  have hrun := ((hnone.step (.raise (i := 0) rfl rfl)).step (.rouse (i := 0) rfl)).step (.ask rfl)
  rcases hands_over hrun with ⟨-, -, hall, hcancelled, -⟩
  exact ⟨_, hrun, hall [_, _, _, _, _, _, _, _, _, _, _, _, _] [_, _, _] rfl (by decide),
    hcancelled [_, _, _, _, _, _, _, _, _, _, _, _, _, _, _] [] [] 0 rfl⟩

/-! ## Playbacks -/

/-- A hand-over whose listener is between two questions, and a playback that has come as far. -/
structure Follows (p : Playback Random.Generator) (h : Handover ι) : Prop where
  listener : h.listener = .idle
  token : h.relay.token = p.token
  ready : h.relay.Ready p.source

variable {p : Playback Random.Generator}

omit [DecidableEq ι] in
theorem Follows.fresh (e : Effect) (g : Random.Generator) :
    Follows (.ofEffect g e) (Handover.fresh e g : Handover ι) :=
  ⟨rfl, by cases e <;> rfl, Relay.ready_withGenerator e g⟩

/-- What a composer can do in several steps is a run. -/
theorem exists_run_composes {r : Relay} (hc : Relation.ReflTransGen Relay.Compose h.relay r) :
    ∃ events emitted, Run h events { h with relay := r, emitted } := by
  induction hc with
  | refl => exact ⟨[], h.emitted, .refl⟩
  | @tail r r' _ hc ih =>
    rcases ih with ⟨events, emitted, hrun⟩
    by_cases hs : r'.slot = r.slot
    · exact ⟨_, emitted, hrun.step (.compose hc hs)⟩
    · rcases hc.slot_eq hs with ⟨hempty, ⟨frame, hfull⟩, -⟩
      exact ⟨_, emitted + 1, hrun.step (.emit hc hempty hfull)⟩

/-- What a playback answers is what the listener of some run is answered. -/
theorem Follows.exists_run_next (hf : Follows p h) :
    ∃ events h', Run h (events ++ [.gave p.next.1]) h' ∧ Follows p.next.2 h' := by
  have hask : Run h [.asked] { h with listener := .looking } := Trace.refl.step (.ask hf.listener)
  unfold Playback.next
  cases ht : p.token.cancelled with
  | true =>
    -- the flag is seen before the slot is looked at
    have hrun := hask.step (.stop rfl (hf.token ▸ ht))
    exact ⟨_, _, hrun, rfl, hf.token, hf.ready⟩
  | false =>
    have hwait := hask.step (.wait rfl (hf.token ▸ ht))
    cases hnext : p.source.next with
    | none =>
      -- the composer ends, and then the slot is found empty for good
      rcases hf.ready.exists_over hnext with ⟨r, hcomposes, hslot, hgone, htoken, hready⟩
      rcases exists_run_composes (h := { h with listener := .waiting }) hcomposes with
        ⟨events, emitted, hover⟩
      have hrun := (hwait.append hover).step (.finish rfl hslot hgone)
      exact ⟨_, _, hrun, rfl, htoken.trans hf.token, hready⟩
    | some found =>
      -- the composer offers the frame while it is waited for
      rcases found with ⟨frame, rest⟩
      rcases hf.ready.exists_offer (hf.token ▸ ht) hnext with
        ⟨r, hcomposes, hslot, htoken, hready⟩
      rcases exists_run_composes (h := { h with listener := .waiting }) hcomposes with
        ⟨events, emitted, hoffer⟩
      have hrun := (hwait.append hoffer).step (.receive rfl hslot)
      exact ⟨_, _, hrun, rfl, htoken.trans hf.token, hready⟩

/-- Cancelling a playback is a cancellation by some thread. -/
theorem Follows.exists_run_cancel {i : ι} (hf : Follows p h) (hi : h.rousing i = false) :
    ∃ events h', Run h (events ++ [.cancelled i]) h' ∧ Follows p.cancel h' := by
  have hcancel := p.token.cancel_eq
  cases ht : p.token.cancelled with
  | true =>
    have hrun : Run h ([] ++ [.cancelled i]) h :=
      Trace.refl.step (.raiseAgain hi (hf.token ▸ ht))
    exact ⟨[], h, hrun, hf.listener, by simpa [Playback.cancel, hcancel, ht] using hf.token,
      hf.ready⟩
  | false =>
    have hrun := (Trace.refl.step (Step.raise hi (hf.token ▸ ht))).step
      (.rouse (i := i) (by simp))
    refine ⟨_, _, hrun, hf.listener, ?_, hf.ready⟩
    simp [Playback.cancel, hcancel, ht, Relay.onToken, hf.token]

end Handover

end Beacon
