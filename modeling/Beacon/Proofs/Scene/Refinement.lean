import Beacon.Proofs.Scene.Lines
import Beacon.Queue.Session

/-!
# Queues that play in one go, and scenes

What a queue that plays in one go does between two lines, and what others do meanwhile, are runs of
a scene that write nothing.

1. **Calls in one go**: `Halt.apply`. A call that nobody disturbs does to the control what its steps
   do (`Scene.exists_run_call`).
2. **Following**: `Follows` relates a queue that plays an effect to a scene whose player is at some
   point. Whatever is done between two lines keeps it: seeing that the effect was cancelled or is
   over, getting the next frame, and calls.
3. **Before and after**: `Rests` relates a queue that plays nothing to a scene. Starting an effect
   goes from the one relation to the other, and ending it goes back.
-/

namespace Beacon

/-! ## Calls in one go -/

/-- What a call does to the control. -/
def Halt.apply : Halt → Control → Control
  | close, c => c.close
  | _, c => c.interrupt

/-- What calls do to the control, one after the other. -/
def Halt.applyAll (halts : List Halt) (c : Control) : Control :=
  halts.foldl (fun c halt => halt.apply c) c

/-- An agenda of calls: all that it does to the control is done by calls that interrupt. -/
def Agenda.Calls {σ : Type} (a : Agenda σ) : Prop :=
  ∀ line x, ∃ halts, (a.act line x).1.control = Halt.applyAll halts x.1.control

theorem Halt.applyAll_append (halts more : List Halt) (c : Control) :
    Halt.applyAll (halts ++ more) c = Halt.applyAll more (Halt.applyAll halts c) :=
  List.foldl_append

/-- An agenda of a table is one of calls if all that it has for a line is done by calls. -/
theorem Agenda.calls_ofTable {α σ : Type} {act : α → Panel × σ → Panel × σ}
    (hact : ∀ a x, ∃ halts, (act a x).1.control = Halt.applyAll halts x.1.control)
    (table : List (Nat × List α)) : (Agenda.ofTable table act).Calls := by
  intro line x
  show ∃ halts, ((Agenda.entries table line).foldl (fun x a => act a x) x).1.control = _
  generalize Agenda.entries table line = entries
  induction entries generalizing x with
  | nil => exact ⟨[], rfl⟩
  | cons a entries ih =>
    rcases hact a x with ⟨halts, hhalts⟩
    rcases ih (act a x) with ⟨more, hmore⟩
    refine ⟨halts ++ more, ?_⟩
    rw [List.foldl_cons, hmore, hhalts, Halt.applyAll_append]

/-- The agendas of sessions are agendas of calls. -/
theorem Session.calls_agenda (table : List (Nat × List Call)) :
    (Session.agenda table).Calls := by
  refine Agenda.calls_ofTable ?_ table
  intro call x
  cases call with
  | ticket name => exact ⟨[], rfl⟩
  | preempt name =>
    refine ⟨[.preempt], ?_⟩
    show x.1.preempt.2.control = x.1.control.interrupt
    rw [Panel.preempt]
    split <;> rfl
  | interrupt => exact ⟨[.interrupt], rfl⟩
  | close => exact ⟨[.close], rfl⟩

/-- What an agenda of calls does during some lines is done by calls. -/
theorem Agenda.Calls.throughout {σ : Type} {a : Agenda σ} (ha : a.Calls) (line count : Nat)
    (x : Panel × σ) :
    ∃ halts, (a.throughout line count x).1.control = Halt.applyAll halts x.1.control := by
  induction count generalizing line x with
  | zero => exact ⟨[], rfl⟩
  | succ count ih =>
    have hduring : ∃ halts,
        (a.during (line + 1) x).1.control = Halt.applyAll halts x.1.control := by
      unfold Agenda.during
      split
      · exact ha (line + 1) x
      · exact ⟨[], rfl⟩
    rcases hduring with ⟨halts, hhalts⟩
    rcases ih (line + 1) (a.during (line + 1) x) with ⟨more, hmore⟩
    refine ⟨halts ++ more, ?_⟩
    rw [Agenda.throughout, hmore, hhalts, Halt.applyAll_append]

namespace Scene

variable {ι : Type} {s s' s'' : Scene ι} {i j : ι}

/-- What calls leave alone: the light, the generator, who has the queue, which effect is in the
active slot, and all of the relays but the tokens. -/
structure Beside (s s' : Scene ι) : Prop where
  sink : s'.sink = s.sink
  generator : s'.generator = s.generator
  desk : s'.desk = s.desk
  active : s'.active = s.active
  latch : s'.latch = none
  slot : ∀ k, (s'.relays k).slot = (s.relays k).slot
  composer : ∀ k, (s'.relays k).composer = (s.relays k).composer
  heard : ∀ k, (s'.relays k).heard = (s.relays k).heard

theorem Beside.trans (h : Beside s s') (h' : Beside s' s'') : Beside s s'' where
  sink := h'.sink.trans h.sink
  generator := h'.generator.trans h.generator
  desk := h'.desk.trans h.desk
  active := h'.active.trans h.active
  latch := h'.latch
  slot k := (h'.slot k).trans (h.slot k)
  composer k := (h'.composer k).trans (h.composer k)
  heard k := (h'.heard k).trans (h.heard k)

variable [DecidableEq ι]

/-- A call that is about to draw an epoch, and that nobody disturbs, interrupts. -/
theorem exists_run_draw {halt : Halt} (hd : s.doing j = .drawing halt) (hl : s.latch = none) :
    ∃ events s', CalmRun s events s' ∧ Beside s s' ∧ s'.doing j = .idle ∧
      s'.control = s.control.interrupt := by
  have hstriking : Function.update s.doing j (.striking halt (s.epoch + 1)) j =
      .striking halt (s.epoch + 1) := Function.update_self ..
  have hdrawn := (CalmRun.refl.step (.draw hd)).step (.grab (i := j) hstriking hl)
  -- the call holds the lock: what it finds in the slot cannot change under its hands
  cases ha : s.active with
  | none =>
    have hrun := (hdrawn.step (.miss rfl ha)).step (.release hstriking rfl)
    refine ⟨_, _, hrun, ⟨rfl, rfl, rfl, rfl, rfl, fun _ => rfl, fun _ => rfl, fun _ => rfl⟩,
      by simp [go], ?_⟩
    simp [control, go, Control.interrupt, Control.bump, Control.cancelActive, ha]
  | some k =>
    cases ht : (s.relays k).token.cancelled with
    | true =>
      have hrun := (hdrawn.step (.strikeAgain rfl ha ht)).step (.release hstriking rfl)
      refine ⟨_, _, hrun, ⟨rfl, rfl, rfl, rfl, rfl, fun _ => rfl, fun _ => rfl, fun _ => rfl⟩,
        by simp [go], ?_⟩
      simp [control, go, Control.interrupt, Control.bump, Control.cancelActive, ha,
        Token.cancel_of_cancelled ht]
    | false =>
      have hrun := ((hdrawn.step (.strike hstriking rfl ha ht)).step
        (.rouse rfl)).step (.release hstriking rfl)
      refine ⟨_, _, hrun, ⟨rfl, rfl, rfl, rfl, rfl, ?_, ?_, ?_⟩, by simp [go], ?_⟩
      · intro k'
        by_cases hk : k' = k <;> simp [go, onToken, onRelay, Relay.onToken, hk]
      · intro k'
        by_cases hk : k' = k <;> simp [go, onToken, onRelay, Relay.onToken, hk]
      · intro k'
        by_cases hk : k' = k <;> simp [go, onToken, onRelay, Relay.onToken, hk]
      · simp [control, go, onToken, onRelay, Relay.onToken, Control.interrupt, Control.bump,
          Control.cancelActive, ha, Token.cancel_eq, ht]

/-- A call that nobody disturbs does to the control what it does in one go. -/
theorem exists_run_call (halt : Halt) (hd : s.doing j = .idle) (hl : s.latch = none) :
    ∃ events s', CalmRun s events s' ∧ Beside s s' ∧ s'.doing j = .idle ∧
      s'.control = halt.apply s.control := by
  have hcall := CalmRun.refl.step (.call halt hd)
  cases halt with
  | close =>
    have hclosing : Function.update s.doing j .closing j = .closing := Function.update_self ..
    have hshut := hcall.step (.shut (i := j) hclosing)
    obtain ⟨events, s', hrun, hbeside, hidle, hcontrol⟩ := exists_run_draw (j := j)
      (s := { (s.go j .closing).go j (.drawing .close) with closed := true })
      (Function.update_self ..) hl
    exact ⟨_, s', hshut.append hrun, ⟨hbeside.sink, hbeside.generator, hbeside.desk,
      hbeside.active, hbeside.latch, hbeside.slot, hbeside.composer, hbeside.heard⟩, hidle,
      hcontrol⟩
  | interrupt | preempt =>
    obtain ⟨events, s', hrun, hbeside, hidle, hcontrol⟩ := exists_run_draw (j := j)
      (s := s.go j (.drawing _)) (Function.update_self ..) hl
    exact ⟨_, s', hcall.append hrun, ⟨hbeside.sink, hbeside.generator, hbeside.desk,
      hbeside.active, hbeside.latch, hbeside.slot, hbeside.composer, hbeside.heard⟩, hidle,
      hcontrol⟩

/-- Calls one after the other do to the control what they do in one go. -/
theorem exists_run_calls (halts : List Halt) (hd : s.doing j = .idle) (hl : s.latch = none) :
    ∃ events s', CalmRun s events s' ∧ Beside s s' ∧ s'.doing j = .idle ∧
      s'.control = Halt.applyAll halts s.control := by
  induction halts generalizing s with
  | nil =>
    exact ⟨[], s, .refl, ⟨rfl, rfl, rfl, rfl, hl, fun _ => rfl, fun _ => rfl, fun _ => rfl⟩, hd,
      rfl⟩
  | cons halt halts ih =>
    rcases exists_run_call halt hd hl with ⟨events, s₁, hrun, hbeside, hidle, hcontrol⟩
    rcases ih hidle hbeside.latch with ⟨more, s₂, hmore, hbeside', hidle', hcontrol'⟩
    refine ⟨_, s₂, hrun.append hmore, hbeside.trans hbeside', hidle', ?_⟩
    rw [hcontrol', hcontrol]
    rfl

end Scene

/-! ## Following -/

namespace Scene

variable {ι : Type} {s s' : Scene ι} {i j : ι}

/-- A change at a relay that leaves the token alone leaves the control alone. -/
theorem control_onRelay {k : Nat} {f : Relay → Relay}
    (hf : (f (s.relays k)).token = (s.relays k).token) : (s.onRelay k f).control = s.control := by
  have htoken : ∀ k', ((s.onRelay k f).relays k').token = (s.relays k').token := by
    intro k'
    by_cases hk : k' = k
    · subst hk
      simpa [onRelay] using hf
    · simp [onRelay, hk]
  simp only [control, htoken]
  rfl

variable {source rest : Source Random.Generator} {frame : Frame} {k : Nat}

/-- A queue that plays an effect, `source` being what is left of it, and a scene whose player is at
some point of it. -/
structure Follows (i : ι) (w : Show) (ph : Phase) (source : Source Random.Generator) (q : Queue)
    (s : Scene ι) : Prop where
  sink : s.sink = q.sink
  generator : s.generator = q.generator
  control : s.control = q.panel.control
  active : s.active = some w.relay
  latch : s.latch = none
  desk : s.desk = some (i, .on w ph)
  ready : (s.relays w.relay).Ready source

variable {w : Show} {ph : Phase} {q q' : Queue} {t : Ticket} {e : Effect}

/-- The queue sees the flag of the effect that is being played. -/
theorem Follows.cancelled_eq (h : Follows i w ph source q s) :
    (s.token w).cancelled = q.stopped := by
  have hactive : q.panel.control.active = some (s.token w) := by
    rw [← h.control, Scene.control, h.active]
    rfl
  simp [Queue.stopped, Control.stopped, hactive]

/-- The player may go to another point, without any other change. -/
theorem Follows.move (h : Follows i w ph source q s) (ph' : Phase) :
    Follows i w ph' source q { s with desk := some (i, .on w ph') } :=
  ⟨h.sink, h.generator, h.control, h.active, h.latch, rfl, h.ready⟩

/-- Time may pass. -/
theorem Follows.tick (h : Follows i w ph source q s) (clock : Clock) :
    Follows i w ph source { q with clock } s :=
  ⟨h.sink, h.generator, h.control, h.active, h.latch, h.desk, h.ready⟩

/-- The composer may go on, and the player receive. -/
theorem Follows.onRelay (h : Follows i w ph source q s) {f : Relay → Relay}
    (htoken : (f (s.relays w.relay)).token = (s.relays w.relay).token)
    (hready : (f (s.relays w.relay)).Ready rest) :
    Follows i w ph rest q (s.onRelay w.relay f) :=
  ⟨h.sink, h.generator, (control_onRelay htoken).trans h.control, h.active, h.latch, h.desk,
    by simpa [Scene.onRelay] using hready⟩

/-- A queue that plays nothing, and a scene with no effect in the active slot. -/
structure Rests (q : Queue) (s : Scene ι) : Prop where
  sink : s.sink = q.sink
  generator : s.generator = q.generator
  control : s.control = q.panel.control
  active : s.active = none
  latch : s.latch = none

/-- Getting the queue and going on with it changes nothing else. -/
theorem Rests.move (h : Rests q s) (p : Play) :
    Rests q { s with desk := some (i, p) } :=
  ⟨h.sink, h.generator, h.control, h.active, h.latch⟩

/-- The two checks of a request find that it is stale, or that it is not. -/
theorem isStale_control : s.control.isStale t = true ↔ s.closed = true ∨ s.epoch ≠ t.epoch := by
  cases t
  simp [Control.isStale, Control.ticket, Scene.control]

/-- A request is started unless it is stale. -/
theorem Rests.start_eq (h : Rests q s) :
    q.start t e = if s.control.isStale t then none else some
      (e.source (Random.Generator.ofSeed s.generator.wide.1),
        { q with generator := s.generator.wide.2 }.setActive (some Token.fresh)) := by
  rw [h.control, h.generator]
  rfl

/-- The token of an effect that was started is entered in the active slot. -/
theorem control_enrolled :
    ({ s.opened e with active := some s.born, latch := none } : Scene ι).control =
      s.control.setActive (some Token.fresh) := by
  simp [control, opened, Control.setActive]

variable [DecidableEq ι]

/-- What a composer can do in several steps is a run. -/
theorem exists_run_composes {r : Relay} (h : Relation.ReflTransGen Relay.Compose (s.relays k) r) :
    ∃ events, InnerRun s events (s.onRelay k fun _ => r) := by
  induction h with
  | refl =>
    refine ⟨[], ?_⟩
    simpa [onRelay] using (.refl : InnerRun s [] s)
  | @tail r r' _ hc ih =>
    rcases ih with ⟨events, hrun⟩
    have hstep : Step (s.onRelay k fun _ => r) .quiet
        ((s.onRelay k fun _ => r).onRelay k fun _ => r') :=
      .compose (by simpa [onRelay] using hc)
    exact ⟨_, hrun.step (by simpa [onRelay] using hstep)⟩

/-- The composer puts the next frame into the slot. -/
theorem exists_run_offer (hready : (s.relays k).Ready source)
    (ht : (s.relays k).token.cancelled = false) (hnext : source.next = some (frame, rest)) :
    ∃ events r, InnerRun s events (s.onRelay k fun _ => r) ∧ r.slot = some frame ∧
      r.token = (s.relays k).token ∧ r.emptied.Ready rest := by
  rcases hready.exists_offer ht hnext with ⟨r, hcompose, hoffered⟩
  rcases exists_run_composes hcompose with ⟨events, hrun⟩
  exact ⟨events, r, hrun, hoffered⟩

/-- The composer of a source that has nothing left goes. -/
theorem exists_run_over (hready : (s.relays k).Ready source) (hnext : source.next = none) :
    ∃ events r, InnerRun s events (s.onRelay k fun _ => r) ∧ r.slot = none ∧ r.composer = .gone ∧
      r.token = (s.relays k).token ∧ r.Ready source := by
  rcases hready.exists_over hnext with ⟨r, hcompose, hover⟩
  rcases exists_run_composes hcompose with ⟨events, hrun⟩
  exact ⟨events, r, hrun, hover⟩

/-- A cancelled effect ends as interrupted. -/
theorem Follows.stop (h : Follows i w ph source q s) (hph : ph = .look ∨ ph = .judge)
    (hstopped : q.stopped = true) :
    ∃ events s', InnerRun s events s' ∧
      Follows i w (.clear (.ok (.interrupted w.shown))) source q s' := by
  have hup : (s.token w).cancelled = true := h.cancelled_eq.trans hstopped
  rcases hph with rfl | rfl
  · have hrun := (InnerRun.refl.step (.turn h.desk (.lookCancelled hup))).step
      (.turn rfl (.judgeCancelled hup))
    exact ⟨_, _, hrun, (h.move .judge).move _⟩
  · have hrun := InnerRun.refl.step (.turn h.desk (.judgeCancelled hup))
    exact ⟨_, _, hrun, h.move _⟩

/-- An effect that has shown all frames ends as completed. -/
theorem Follows.complete (h : Follows i w .look source q s) (hgoes : q.stopped = false)
    (hnext : source.next = none) :
    ∃ events s', InnerRun s events s' ∧
      Follows i w (.clear (.ok (.completed w.shown))) source q s' := by
  have hdown : (s.token w).cancelled = false := h.cancelled_eq.trans hgoes
  have hlook := InnerRun.refl.step (.turn h.desk (.lookOn hdown))
  have hreceive := h.move .receive
  rcases exists_run_over hreceive.ready hnext with ⟨events, r, hover, hs, hc, htoken, hready⟩
  have hgone := hreceive.onRelay (f := fun _ => r) htoken hready
  have hdown' := hgone.cancelled_eq.trans hgoes
  have hrun := ((hlook.append hover).step
    (.turn hgone.desk (.receiveEnd (by simpa [Scene.onRelay] using hs)
      (by simpa [Scene.onRelay] using hc)))).step (.turn rfl (.judgeOn hdown'))
  exact ⟨_, _, hrun, (hgone.move .judge).move _⟩

/-- An effect that goes on receives its next frame. -/
theorem Follows.fetch (h : Follows i w .look source q s) (hgoes : q.stopped = false)
    (hnext : source.next = some (frame, rest)) :
    ∃ events s', InnerRun s events s' ∧ Follows i w (.write frame) rest q s' := by
  have hdown : (s.token w).cancelled = false := h.cancelled_eq.trans hgoes
  have hlook := InnerRun.refl.step (.turn h.desk (.lookOn hdown))
  have hreceive := h.move .receive
  rcases exists_run_offer hreceive.ready hdown hnext with ⟨events, r, hoffer, hs, htoken, hready⟩
  have hslot : ((({ s with desk := some (i, .on w .receive) } : Scene ι).onRelay w.relay
      fun _ => r).relays w.relay).slot = some frame := by
    simpa [Scene.onRelay] using hs
  have hrun := (hlook.append hoffer).step (.turn hreceive.desk (.receive hslot))
  refine ⟨_, _, hrun, ?_⟩
  have hemptied := (hreceive.onRelay (f := fun _ => r.emptied) htoken hready).move (.write frame)
  simpa [Scene.onRelay] using hemptied

/-- A thread that is idle may make calls, whatever the player is at. -/
theorem Follows.act (h : Follows i w ph source q s) (hj : s.doing j = .idle) {panel : Panel}
    {halts : List Halt} (hpanel : panel.control = Halt.applyAll halts q.panel.control) :
    ∃ events s', CalmRun s events s' ∧ Follows i w ph source { q with panel } s' ∧
      s'.doing j = .idle := by
  rcases exists_run_calls halts hj h.latch with ⟨events, s', hrun, hbeside, hidle, hcontrol⟩
  refine ⟨events, s', hrun, ?_, hidle⟩
  have hready : (s'.relays w.relay).Ready source := by
    unfold Relay.Ready
    rw [hbeside.heard, hbeside.composer, hbeside.slot]
    exact h.ready
  have hcontrol' : s'.control = panel.control := by rw [hcontrol, hpanel, h.control]
  exact ⟨hbeside.sink.trans h.sink, hbeside.generator.trans h.generator, hcontrol',
    hbeside.active.trans h.active, hbeside.latch, hbeside.desk.trans h.desk, hready⟩

/-! ## Before and after -/

/-- A thread that is idle may make calls. -/
theorem Rests.act (h : Rests q s) (hj : s.doing j = .idle) {panel : Panel} {halts : List Halt}
    (hpanel : panel.control = Halt.applyAll halts q.panel.control) :
    ∃ events s', CalmRun s events s' ∧ Rests { q with panel } s' ∧ s'.desk = s.desk ∧
      s'.doing j = .idle := by
  rcases exists_run_calls halts hj h.latch with ⟨events, s', hrun, hbeside, hidle, hcontrol⟩
  have hcontrol' : s'.control = panel.control := by rw [hcontrol, hpanel, h.control]
  exact ⟨events, s', hrun, ⟨hbeside.sink.trans h.sink, hbeside.generator.trans h.generator,
    hcontrol', hbeside.active.trans h.active, hbeside.latch⟩, hbeside.desk, hidle⟩

/-- A request that is not started is skipped. -/
theorem exists_run_refuse (hd : s.desk = some (i, .checkClosed t e))
    (hstale : s.control.isStale t = true) :
    ∃ events, InnerRun s events { s with desk := some (i, .done (.skipped t e)) } := by
  rcases Bool.eq_false_or_eq_true s.closed with hc | hc
  · exact ⟨_, InnerRun.refl.step (.turn hd (.refuseClosed hc))⟩
  · have he : s.epoch ≠ t.epoch := by simpa [hc] using isStale_control.1 hstale
    have hrun := (InnerRun.refl.step (.turn hd (.passClosed hc))).step (.turn rfl (.refuseEpoch he))
    exact ⟨_, hrun⟩

/-- A request that is started puts its token into the active slot, and then its player looks for the
first frame. -/
theorem Rests.start (h : Rests q s) (hd : s.desk = some (i, .checkClosed t e))
    (hfresh : s.control.isStale t = false) :
    ∃ events s', InnerRun s events s' ∧ Follows i (s.opening t e) .look
      (e.source (Random.Generator.ofSeed s.generator.wide.1))
      ({ q with generator := s.generator.wide.2 }.setActive (some Token.fresh)) s' := by
  have hpass : s.closed = false ∧ s.epoch = t.epoch := by
    simpa [isStale_control] using mt isStale_control.2 (Bool.eq_false_iff.1 hfresh)
  rcases hpass with ⟨hc, he⟩
  have hopened := ((InnerRun.refl.step (.turn hd (.passClosed hc))).step
    (.turn rfl (.passEpoch he))).step (.turn rfl .start)
  have henrolled := (hopened.step (.turn rfl (.lockEnroll h.latch))).step (.turn rfl (.enroll rfl))
  have hrun := (henrolled.step (.turn rfl (.freshClosed hc))).step (.turn rfl (.freshEpoch he))
  have hcontrol := (control_enrolled (s := s) (e := e)).trans
    (congrArg (·.setActive (some Token.fresh)) h.control)
  refine ⟨_, _, hrun, h.sink, rfl, hcontrol, rfl, rfl, rfl, ?_⟩
  simpa [opened, opening] using Relay.ready_ofEffect e s.generator.wide.1

/-- After the end of an effect its token is taken out of the active slot and the sequence of frames
is dropped. -/
theorem Follows.finish {result : Except IoError Outcome}
    (h : Follows i w (.clear result) source q s) (name : String) :
    ∃ events s', InnerRun s events s' ∧ Rests (q.finish name result) s' ∧
      s'.desk = some (i, .done (.played w result)) := by
  have hcleared := (InnerRun.refl.step (.turn h.desk (.lockClear h.latch))).step
    (.turn rfl (.clear rfl))
  have hcontrol : s.control.setActive none = (q.finish name result).panel.control := by
    cases result <;> simp only [h.control, Queue.finish] <;> rfl
  have hsink : s.sink = (q.finish name result).sink := by
    cases result <;> exact h.sink
  have hgenerator : s.generator = (q.finish name result).generator := by
    cases result <;> exact h.generator
  cases ht : (s.token w).cancelled with
  | true =>
    have hrun := (hcleared.step (.turn rfl (.dropAgain ht))).step (.turn rfl .deafen)
    exact ⟨_, _, hrun, ⟨hsink, hgenerator, hcontrol, rfl, rfl⟩, rfl⟩
  | false =>
    have hrun := ((hcleared.step (.turn rfl (.drop ht))).step (.turn rfl .dropRouse)).step
      (.turn rfl .deafen)
    exact ⟨_, _, hrun, ⟨hsink, hgenerator, hcontrol, rfl, rfl⟩, rfl⟩

/-- The thread that has done its request leaves. -/
theorem Rests.leave (h : Rests q s) :
    Rests q { s.go i .idle with desk := none } :=
  ⟨h.sink, h.generator, h.control, h.active, h.latch⟩

/-- Another thread that was idle is so still. -/
theorem idle_go (hj : s.doing j = .idle) (i : ι) : (s.go i .idle).doing j = .idle := by
  by_cases hi : j = i
  · subst hi
    exact Function.update_self ..
  · exact (Function.update_of_ne hi ..).trans hj

end Scene

end Beacon
