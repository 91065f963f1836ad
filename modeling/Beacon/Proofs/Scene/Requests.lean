import Beacon.Proofs.Scene.Refinement
import Beacon.Proofs.Scene.Timing

/-!
# Requests in one go are runs

`Queue.pushWith` plays an effect in one go, on a clock of its own, and an agenda says what others do
while a line is being written. All that it can do is a run of the scene with two threads: the one
that has the queue, and one that makes the calls of the agenda. The light, the generator and the
control after it are those of the scene after that run, and so is the outcome; the clock shows the
same, and each line is noted with the time at which the run begins it (`Timed.exists_run_pushWith`).
Leaving the clock out, these are runs of the scene (`Timed.Run.scene`).

1. **In step**: `InStep` says that the clock and the notes of a queue go along with a run.
2. **Rounds**: writing a line while others go on (`exists_run_line`), holding a frame, and then
   `Queue.drain`.
3. **Whole requests**: `Queue.pushWith`, `Queue.push` and `Queue.turnOff`.
-/

namespace Beacon

/-- Where a player is between two frames: it is to look for the next one, or it has seen that the
effect was cancelled. -/
def Phase.Between (stopped : Bool) (ph : Phase) : Prop :=
  ph = .look ∨ ph = .judge ∧ stopped = true

/-- Whether a report says that a request ended like this. -/
def Report.Answers (t : Ticket) (e : Effect) (result : Except IoError Outcome) : Report → Prop
  | .skipped t' e' => t' = t ∧ e' = e ∧ result = .ok .skipped
  | .played w result' => w.ticket = t ∧ w.effect = e ∧ result' = result
  | .turnedOff _ => False

namespace Timed

open Scene (Follows Rests CalmRun)

variable {ι : Type} [DecidableEq ι] {s s' s₁ : Scene ι} {i j : ι} {w : Show} {ph : Phase}
variable {q q' q₁ : Queue} {source rest : Source Random.Generator} {frame : Frame}
variable {watch watch' watch₁ : Watch} {events more : List (Event ι)} {es : List (Scene.Event ι)}

/-! ## In step -/

/-- A queue goes from `q` to `q'`, and a scene by a run from `s` to `s'`. Before the run and after
it the clocks show the same, and the queue has noted when the lines of the run were begun. -/
structure InStep (q q' : Queue) (s s' : Scene ι) (watch watch' : Watch) (events : List (Event ι)) :
    Prop where
  run : Run ⟨s, q.clock.now, watch⟩ events ⟨s', q'.clock.now, watch'⟩
  begun : q'.begun.toList = q.begun.toList ++ begins events

theorem InStep.trans (h : InStep q q₁ s s₁ watch watch₁ events)
    (h' : InStep q₁ q' s₁ s' watch₁ watch' more) :
    InStep q q' s s' watch watch' (events ++ more) := by
  refine ⟨h.run.append h'.run, ?_⟩
  rw [h'.begun, h.begun, begins_append, List.append_assoc]

/-- A queue and a scene that write nothing go along in no time. -/
theorem InStep.of_calm {p : Play} (h : CalmRun s es s') (hd : s.desk = some (i, p))
    (hp : p.holds = false) (hclock : q'.clock = q.clock) (hbegun : q'.begun = q.begun) :
    InStep q q' s s' .idle .idle (es.map (.did · q.clock.now)) := by
  have hawake : Awake s := by
    intro k p' hdesk
    rcases Scene.desk_inj (hd.symm.trans hdesk) with ⟨rfl, rfl⟩
    exact hp
  refine ⟨?_, ?_⟩
  · rw [hclock]
    exact (Timed.of_calm h hawake).1
  · rw [hbegun, begins_map_did, List.append_nil]

/-! ## Rounds -/

/-- A frame that could be written is to be held. -/
theorem exists_step_written {now : Nat} (hd : s.desk = some (i, .on w (.write frame)))
    (hw : (s.sink.writeFrame frame.color).1 = .ok ()) :
    ∃ ev, ev.began? = none ∧ Step ⟨s, now, .begun⟩ ev
      ⟨{ s with
          sink := (s.sink.writeFrame frame.color).2
          desk := some (i, .on { w with shown := w.shown + 1 } (.hold frame.delay)) },
        now, .written⟩ :=
  ⟨.wrote i w frame now, rfl, .write rfl hd (.turn hd (.write hw)) rfl⟩

/-- A frame that could not be written ends its effect. -/
theorem exists_step_failed {now : Nat} {error : IoError}
    (hd : s.desk = some (i, .on w (.write frame)))
    (hw : (s.sink.writeFrame frame.color).1 = .error error) :
    ∃ ev, ev.began? = none ∧ Step ⟨s, now, .begun⟩ ev
      ⟨{ s with
          sink := (s.sink.writeFrame frame.color).2
          desk := some (i, .on w (.clear (.error error))) }, now, .idle⟩ :=
  ⟨_, rfl, .act_of_desk hd (.turn hd (.writeFails hw)) .fails⟩

/-- A line is begun, others go on while it is being written, and then it has been written. -/
theorem exists_run_line {p : Play} {ev : Event ι} (clock : Clock) (hcalm : CalmRun s es s₁)
    (hd : s.desk = some (i, p)) (hp : p.writes = true) (hnone : ev.began? = none)
    (hstep : Step ⟨s₁, ((clock.pass 0).pass 0).now, .begun⟩ ev
      ⟨s', ((clock.pass 0).pass 0).now, watch'⟩) :
    ∃ events, Run ⟨s, clock.now, .idle⟩ events ⟨s', ((clock.pass 0).pass 0).now, watch'⟩ ∧
      begins events = [(clock.pass 0).now] := by
  have hbegun : Run ⟨s, clock.now, .idle⟩ [.passed, .began i (clock.pass 0).now]
      ⟨s, (clock.pass 0).now, .begun⟩ :=
    (Trace.refl.step (.pass (Clock.now_add_le_pass clock 0))).step (.start rfl hd hp)
  have hmeanwhile := hbegun.append (of_calm_writing hcalm hd hp).1
  have hrun := (hmeanwhile.step (.pass (Clock.now_add_le_pass (clock.pass 0) 0))).step hstep
  refine ⟨_, hrun, ?_⟩
  have hlast : begins [ev] = [] := by simp [begins, hnone]
  rw [begins_append, begins_append, begins_append, begins_map_did, hlast]
  rfl

section Agendas

variable {σ : Type} {a : Agenda σ} {st st' : σ}

/-- A frame is begun and written, and calls are made meanwhile. What becomes of the player then is
up to the light. -/
theorem exists_inStep_display (h : Follows i w (.write frame) source q s)
    (hj : s.doing j = .idle) (ha : a.Calls) {result : Except IoError Unit}
    (hdisplay : q.display a frame.color st = (result, q', st')) {w' : Show} {ph' : Phase}
    (hwrite : ∀ (s₁ : Scene ι) (now : Nat), s₁.desk = some (i, .on w (.write frame)) →
      (s₁.sink.writeFrame frame.color).1 = result → ∃ ev, ev.began? = none ∧
        Step ⟨s₁, now, .begun⟩ ev
          ⟨{ s₁ with
              sink := (s₁.sink.writeFrame frame.color).2
              desk := some (i, .on w' ph') }, now, watch'⟩)
    (hrelay : w'.relay = w.relay) :
    ∃ events s', InStep q q' s s' .idle watch' events ∧ Follows i w' ph' source q' s' ∧
      s'.doing j = .idle := by
  simp only [Queue.display, Prod.mk.injEq] at hdisplay
  rcases hdisplay with ⟨hresult, rfl, -⟩
  rcases ha.throughout q.sink.completed
    ((q.sink.writeFrame frame.color).2.completed - q.sink.completed) (q.panel, st) with
    ⟨halts, hhalts⟩
  -- the calls of the agenda are made by the other thread before the frame is written
  rcases h.act hj hhalts with ⟨es, s₁, hcalm, hcalled, hidle⟩
  have hsink : s₁.sink = q.sink := hcalled.sink
  rcases hwrite s₁ ((q.clock.pass 0).pass 0).now hcalled.desk (hsink ▸ hresult) with
    ⟨ev, hnone, hstep⟩
  rcases exists_run_line q.clock hcalm h.desk rfl hnone hstep with ⟨events, hrun, hbegins⟩
  refine ⟨events, _, ⟨hrun, ?_⟩, ?_, hidle⟩
  · rw [hbegins, Array.toList_push]
  · exact ⟨hsink ▸ rfl, hcalled.generator, hcalled.control, hrelay ▸ hcalled.active, hcalled.latch,
      rfl, hrelay ▸ hcalled.ready⟩

/-- A frame that has just been written is held, and then the player looks for the next one, unless
it sees that the effect was cancelled. -/
theorem exists_inStep_hold {delay : Duration} (h : Follows i w (.hold delay) source q s) :
    ∃ events s' ph', InStep q (q.hold delay q.clock.now) s s' .written .idle events ∧
      Follows i w ph' source (q.hold delay q.clock.now) s' ∧
      ph'.Between (q.hold delay q.clock.now).stopped ∧ s'.doing = s.doing := by
  rcases Bool.eq_false_or_eq_true q.stopped with hstopped | hgoes
  · -- the flag is seen before the age of the frame matters
    rw [Queue.hold, if_pos hstopped]
    have hup : (s.token w).cancelled = true := h.cancelled_eq.trans hstopped
    have hmeasured : Run ⟨s, q.clock.now, .written⟩ [.passed, .passed] ⟨s, q.clock.now, .aged _⟩ :=
      (Trace.refl.step (.stamp rfl)).step (.measure rfl)
    have hrun := hmeasured.step (.act_of_desk h.desk (.turn h.desk (.holdCancelled hup)) .cancelled)
    exact ⟨_, _, .judge, ⟨hrun, (List.append_nil _).symm⟩, h.move _, .inr ⟨rfl, hstopped⟩, rfl⟩
  · have hdown : (s.token w).cancelled = false := h.cancelled_eq.trans hgoes
    let read := q.clock.pass 0
    let age : Duration := ⟨read.now - q.clock.now⟩
    let later := read.pass (Pace.remaining delay age).nanos
    have hhold : q.hold delay q.clock.now = { q with clock := later } := by
      rw [Queue.hold, hgoes]
      rfl
    have hlater : read.now + (Pace.remaining delay age).nanos ≤ later.now :=
      Clock.now_add_le_pass read _
    have hstamped : Run ⟨s, q.clock.now, .written⟩ [.passed]
        ⟨s, q.clock.now, .stamped q.clock.now⟩ := Trace.refl.step (.stamp rfl)
    have hmeasured : Run ⟨s, q.clock.now, .written⟩ [.passed, .passed, .passed]
        ⟨s, read.now, .aged age⟩ :=
      (hstamped.step (.pass (Clock.now_add_le_pass q.clock 0))).step (.measure rfl)
    rw [hhold]
    by_cases hr : (Pace.remaining delay age).nanos = 0
    · -- the frame is old enough, so nobody sleeps
      have hrun := (hmeasured.step (.act_of_desk h.desk (.turn h.desk (.holdOver age hdown hr))
        (.lapsed hr))).step (.pass (Nat.le_of_add_right_le hlater))
      exact ⟨_, _, .look, ⟨hrun, (List.append_nil _).symm⟩, (h.move .look).tick _, .inl rfl,
        rfl⟩
    · -- the player sleeps for what is left of the delay, and nobody wakes it
      have hslept := hmeasured.step (.sleep rfl h.desk (.turn h.desk (.holdOn age hdown hr)) rfl hr)
      have hasleep := h.move .sleep
      have htimed := (hslept.step (.pass (Nat.le_of_add_right_le hlater))).step
        (.act_of_desk hasleep.desk (.turn hasleep.desk .timeout) (.timesOut hlater))
      have htimedOut := hasleep.move .timedOut
      have hon := Scene.Step.turn htimedOut.desk (.timedOutOn hdown)
      have hrun := htimed.step (.act_of_desk htimedOut.desk hon (.of_untimed rfl rfl))
      exact ⟨_, _, .look, ⟨hrun, (List.append_nil _).symm⟩, (htimedOut.move .look).tick _, .inl rfl,
        rfl⟩

/-- Playing what is left of an effect in one go is a run. -/
theorem exists_inStep_drain {fuel : Nat} {result : Except IoError Outcome} (ha : a.Calls)
    (h : Follows i w ph source q s) (hj : s.doing j = .idle) (hph : ph.Between q.stopped)
    (hdrain : Queue.drain a fuel w.shown source q st = some (result, q', st')) :
    ∃ events s' shown left, InStep q q' s s' .idle .idle events ∧
      Follows i { w with shown } (.clear result) left q' s' ∧ s'.doing j = .idle := by
  -- one turn of the queue is a round of the player: look, receive, write, hold
  induction fuel generalizing w ph source q s st with
  | zero => cases hdrain
  | succ fuel ih =>
    rw [Queue.drain, Queue.turn] at hdrain
    cases hstopped : q.stopped with
    | true =>
      simp only [hstopped, if_true, Option.some.injEq, Prod.mk.injEq] at hdrain
      rcases hdrain with ⟨rfl, rfl, -⟩
      rcases h.stop (hph.imp_right And.left) hstopped with ⟨es, s', hinner, hfollows⟩
      have hholds : (Play.on w ph).holds = false := by
        rcases hph with rfl | ⟨rfl, -⟩ <;> rfl
      exact ⟨_, s', w.shown, source, .of_calm hinner.toCalmRun h.desk hholds rfl rfl, hfollows,
        hinner.doing ▸ hj⟩
    | false =>
      obtain rfl : ph = .look := by
        rcases hph with hlook | ⟨-, hup⟩
        · exact hlook
        · rw [hstopped] at hup
          cases hup
      cases hnext : source.next with
      | none =>
        simp only [hstopped, hnext, Bool.false_eq_true, if_false, Option.some.injEq,
          Prod.mk.injEq] at hdrain
        rcases hdrain with ⟨rfl, rfl, -⟩
        rcases h.complete hstopped hnext with ⟨es, s', hinner, hfollows⟩
        exact ⟨_, s', w.shown, source, .of_calm hinner.toCalmRun h.desk rfl rfl rfl, hfollows,
          hinner.doing ▸ hj⟩
      | some found =>
        rcases found with ⟨frame, rest⟩
        rcases h.fetch hstopped hnext with ⟨es, s₁, hinner, hwrite⟩
        have hfetch : InStep q q s s₁ .idle .idle _ :=
          .of_calm hinner.toCalmRun h.desk rfl rfl rfl
        have hidle : s₁.doing j = .idle := hinner.doing ▸ hj
        simp only [hstopped, hnext, Bool.false_eq_true, if_false] at hdrain
        match hdisplay : q.display a frame.color st with
        | (.error error, q₁, st₁) =>
          rw [hdisplay] at hdrain
          simp only [Option.some.injEq, Prod.mk.injEq] at hdrain
          rcases hdrain with ⟨rfl, rfl, -⟩
          rcases exists_inStep_display hwrite hidle ha hdisplay (fun _ _ => exists_step_failed)
            rfl with ⟨events, s', hfails, hfollows⟩
          exact ⟨_, s', w.shown, rest, hfetch.trans hfails, hfollows⟩
        | (.ok (), q₁, st₁) =>
          rw [hdisplay] at hdrain
          rcases exists_inStep_display hwrite hidle ha hdisplay (fun _ _ => exists_step_written)
            rfl with ⟨events, s₂, hdisplayed, hheld, hidle'⟩
          rcases exists_inStep_hold hheld with ⟨more, s₃, ph', hhold, hnow, hbetween, hdoing⟩
          rcases ih hnow (hdoing ▸ hidle') hbetween hdrain with
            ⟨last, s', shown, left, hrun, hfollows⟩
          exact ⟨_, s', shown, left, ((hfetch.trans hdisplayed).trans hhold).trans hrun, hfollows⟩

/-! ## Whole requests -/

variable {t : Ticket} {e : Effect} {result : Except IoError Outcome}

/-- A request in one go is a run of the thread that has the queue. -/
theorem exists_inStep_pushWith (h : Rests q s) (hj : s.doing j = .idle) (ha : a.Calls)
    (hd : s.desk = some (i, .checkClosed t e))
    (hpush : q.pushWith a t e st = some (result, q', st')) :
    ∃ events report s', InStep q q' s s' .idle .idle events ∧ report.Answers t e result ∧
      Rests q' s' ∧ s'.desk = some (i, .done report) ∧ s'.doing j = .idle := by
  rw [Queue.pushWith, h.start_eq] at hpush
  cases hstale : s.control.isStale t with
  | true =>
    -- the player finds the request stale at one of its two checks
    simp only [hstale, if_true, Option.some.injEq, Prod.mk.injEq] at hpush
    rcases hpush with ⟨rfl, rfl, -⟩
    rcases Scene.exists_run_refuse hd hstale with ⟨es, hinner⟩
    exact ⟨_, .skipped t e, _, .of_calm hinner.toCalmRun hd rfl rfl rfl, ⟨rfl, rfl, rfl⟩,
      ⟨h.sink, h.generator, h.control, h.active, h.latch⟩, rfl, hj⟩
  | false =>
    simp only [hstale, Bool.false_eq_true, if_false] at hpush
    split at hpush
    · cases hpush
    next ended q₁ st₁ hdrain =>
      simp only [Option.some.injEq, Prod.mk.injEq] at hpush
      rcases hpush with ⟨rfl, rfl, -⟩
      -- three stretches: the effect is started, played, and taken out of the slot
      rcases h.start hd hstale with ⟨es, s₁, hinner, hlook⟩
      have hstart : InStep q ({ q with generator := s.generator.wide.2 }.setActive
          (some Token.fresh)) s s₁ .idle .idle _ := .of_calm hinner.toCalmRun hd rfl rfl rfl
      rcases exists_inStep_drain ha hlook (hinner.doing ▸ hj) (.inl rfl) hdrain with
        ⟨events, s₂, shown, left, hplay, hclear, hidle⟩
      rcases hclear.finish e.name with ⟨es', s', hinner', hrests, hdone⟩
      have hfinish : InStep q₁ (q₁.finish e.name ended) s₂ s' .idle .idle _ :=
        .of_calm hinner'.toCalmRun hclear.desk rfl (by cases ended <;> rfl)
          (by cases ended <;> rfl)
      exact ⟨_, .played { s.opening t e with shown } ended, s',
        (hstart.trans hplay).trans hfinish, ⟨rfl, rfl, rfl⟩, hrests, hdone, hinner'.doing ▸ hidle⟩

/-- A thread gets the queue, and after what is done in step it leaves. -/
theorem InStep.visit {job : Job} {report : Report} (hi : s.doing i = .queued job)
    (hfree : s.desk = none)
    (h : InStep q q' { s with desk := some (i, job.first) } s' .idle .idle events)
    (hdone : s'.desk = some (i, .done report)) :
    InStep q q' s { s'.go i .idle with desk := none } .idle .idle
      (.did (.took i job) q.clock.now :: events ++ [.did (.left i report) q'.clock.now]) := by
  have htake : Step ⟨s, q.clock.now, .idle⟩ (.did (.took i job) q.clock.now)
      ⟨{ s with desk := some (i, job.first) }, q.clock.now, .idle⟩ :=
    .act_of_desk hfree (.take hi hfree) .of_none
  have hleave : Step ⟨s', q'.clock.now, .idle⟩ (.did (.left i report) q'.clock.now)
      ⟨{ s'.go i .idle with desk := none }, q'.clock.now, .idle⟩ :=
    .act_of_desk hdone (.leave hdone) (.of_untimed rfl rfl)
  refine ⟨((Trace.refl.step htake).append h.run).step hleave, ?_⟩
  rw [h.begun, begins_append]
  exact congrArg (q.begun.toList ++ ·) (List.append_nil _).symm

/-- `Queue.pushWith` is a run of the scene: the thread `i` gets the queue, plays the effect while
the thread `j`, which is idle before and after it, makes the calls of the agenda, and leaves. What
the request is told, and the light, the generator and the control after it, are those of the run; so
are the clock, and the times that are noted for the lines. -/
theorem exists_run_pushWith (h : Rests q s) (hj : s.doing j = .idle) (ha : a.Calls)
    (hi : s.doing i = .queued (.pushWith t e)) (hfree : s.desk = none)
    (hpush : q.pushWith a t e st = some (result, q', st')) :
    ∃ events report s', InStep q q' s s' .idle .idle (.did (.took i (.pushWith t e)) q.clock.now ::
        events ++ [.did (.left i report) q'.clock.now]) ∧
      report.Answers t e result ∧ Rests q' s' ∧ s'.desk = none ∧ s'.doing i = .idle ∧
      s'.doing j = .idle := by
  rcases exists_inStep_pushWith (h.move (.checkClosed t e)) hj ha rfl hpush with
    ⟨events, report, s', hplay, hanswer, hrests, hdone, hidle⟩
  exact ⟨events, report, _, hplay.visit hi hfree hdone, hanswer, hrests.leave, rfl,
    Function.update_self .., Scene.idle_go hidle i⟩

/-- `Queue.push` is a run of the scene. -/
theorem exists_run_push (h : Rests q s) (hj : s.doing j = .idle) (ha : a.Calls)
    (hi : s.doing i = .queued (.push e)) (hfree : s.desk = none)
    (hpush : q.push a e st = some (result, q', st')) :
    ∃ events report s', InStep q q' s s' .idle .idle (.did (.took i (.push e)) q.clock.now ::
        events ++ [.did (.left i report) q'.clock.now]) ∧
      report.Answers ⟨s.epoch⟩ e result ∧ Rests q' s' ∧ s'.desk = none ∧
      s'.doing i = .idle ∧ s'.doing j = .idle := by
  have hticket : q.panel.control.ticket = ⟨s.epoch⟩ := by rw [← h.control]; rfl
  rw [Queue.push, hticket] at hpush
  rcases exists_inStep_pushWith (h.move (.checkClosed ⟨s.epoch⟩ e)) hj ha rfl hpush with
    ⟨events, report, s', hplay, hanswer, hrests, hdone, hidle⟩
  let asking : Scene ι := { s with desk := some (i, .ask e) }
  let first : Play := .checkClosed ⟨s.epoch⟩ e
  have hturn : Scene.Turn i asking (.ask e) .quiet asking first := .ask
  have hstep : Scene.Step asking .quiet { asking with desk := some (i, first) } := .turn rfl hturn
  have hask : InStep q q asking { s with desk := some (i, first) } .idle .idle _ :=
    .of_calm (CalmRun.refl.step hstep) rfl rfl rfl rfl
  exact ⟨_, report, _, (hask.trans hplay).visit hi hfree hdone, hanswer, hrests.leave, rfl,
    Function.update_self .., Scene.idle_go hidle i⟩

/-- `Queue.turnOff` is a run of the scene. -/
theorem exists_run_turnOff {result : Except IoError Unit} (h : Rests q s)
    (hj : s.doing j = .idle) (ha : a.Calls)
    (hi : s.doing i = .queued .turnOff) (hfree : s.desk = none)
    (hoff : q.turnOff a st = (result, q', st')) :
    ∃ events s', InStep q q' s s' .idle .idle (.did (.took i .turnOff) q.clock.now ::
        events ++ [.did (.left i (.turnedOff result)) q'.clock.now]) ∧
      Rests q' s' ∧ s'.desk = none ∧ s'.doing i = .idle ∧ s'.doing j = .idle := by
  simp only [Queue.turnOff, Queue.display, Prod.mk.injEq] at hoff
  rcases hoff with ⟨hw, rfl, -⟩
  rcases ha.throughout q.sink.completed
    ((q.sink.writeFrame Color.black).2.completed - q.sink.completed) (q.panel, st) with
    ⟨halts, hhalts⟩
  let s₀ : Scene ι := { s with desk := some (i, .black) }
  have hrests : Rests q s₀ := h.move .black
  -- the calls of the agenda are made before the black frame is written
  rcases hrests.act hj hhalts with ⟨es, s₁, hcalm, hcalled, hdesk, hidle⟩
  rw [← hcalled.sink] at hw
  have hblack : Scene.Turn i s₁ .black (.blackened i)
      { s₁ with sink := (s₁.sink.writeFrame Color.black).2 } (.done (.turnedOff result)) := by
    cases result with
    | ok => exact .black hw
    | error => exact .blackFails hw
  rcases exists_run_line q.clock hcalm rfl rfl rfl
    (.act_of_desk hdesk (.turn hdesk hblack) .darkens) with ⟨events, hrun, hbegins⟩
  refine ⟨events, _, InStep.visit hi hfree ⟨hrun, ?_⟩ rfl, ?_, rfl, Function.update_self ..,
    Scene.idle_go hidle i⟩
  · rw [hbegins, Array.toList_push]
  · refine Rests.leave ⟨?_, hcalled.generator, hcalled.control, hcalled.active, hcalled.latch⟩
    rw [hcalled.sink]

end Agendas

end Timed

end Beacon
