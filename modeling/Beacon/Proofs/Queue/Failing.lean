import Beacon.Proofs.Queue.Calls

/-!
# Lights that fail in the middle of an effect

A request that fails because of the light leaves the queue as if it had only drawn a seed: the
lines of the frames before the one that failed have been taken, and a first part of its line; the
calls during the completed lines have been made; and the slot is empty again
(`Queue.pushWith_failed`).

What a queue does from some moment on depends on its control, its generator, how its light answers
from then on, and which calls come then (`Queue.Alike`), and on nothing else. So whatever is done
with it after the failure comes out as on any other queue of which these are the same
(`Session.Alike.run`).
-/

namespace Beacon

open Agenda (entries listed)
open Session (agenda)

/-! ## Queues that go on alike -/

namespace Sink

variable {s t : Sink}

theorem Alike.symm (h : s.Alike t) : t.Alike s where
  write n := (h.write n).symm
  flush n := (h.flush n).symm

end Sink

namespace Queue

variable {table table' : List (Nat × List Call)} {q p q₁ p₁ q' p' : Queue}
variable {t t' : Tickets × List Reply}

/-- Two queues will go on alike, whatever they have done before. -/
structure Alike (table table' : List (Nat × List Call)) (q p : Queue) : Prop where
  control : q.panel.control = p.panel.control
  generator : q.generator = p.generator
  sink : q.sink.Alike p.sink
  calls : ∀ k, 0 < k →
    entries table (q.sink.completed + k) = entries table' (p.sink.completed + k)

theorem Alike.symm (h : Alike table table' q p) : Alike table' table p q where
  control := h.control.symm
  generator := h.generator.symm
  sink := h.sink.symm
  calls k hk := (h.calls k hk).symm

/-- Two queues have gone on alike: their lights have taken the same, and they will go on alike. -/
structure Abreast (table table' : List (Nat × List Call)) (q p q' p' : Queue) : Prop where
  alike : Alike table table' q' p'
  took : ∃ more, q.sink.Took more q'.sink ∧ p.sink.Took more p'.sink

theorem Alike.abreast (h : Alike table table' q p) : Abreast table table' q p q p :=
  ⟨h, [], .refl q.sink, .refl p.sink⟩

theorem Abreast.trans (h : Abreast table table' q p q₁ p₁)
    (h' : Abreast table table' q₁ p₁ q' p') : Abreast table table' q p q' p' := by
  rcases h.took with ⟨data, hq, hp⟩
  rcases h'.took with ⟨more, hq', hp'⟩
  exact ⟨h'.alike, data ++ more, hq.trans hq', hp.trans hp'⟩

/-- What does not touch the lights keeps queues abreast, if it does the same to both. -/
theorem Abreast.of_sink_eq (h : Abreast table table' q p q₁ p₁) (hq : q'.sink = q₁.sink)
    (hp : p'.sink = p₁.sink) (hcontrol : q'.panel.control = p'.panel.control)
    (hgenerator : q'.generator = p'.generator) : Abreast table table' q p q' p' where
  alike := ⟨hcontrol, hgenerator, by rw [hq, hp]; exact h.alike.sink,
    by rw [hq, hp]; exact h.alike.calls⟩
  took := by
    rw [hq, hp]
    exact h.took

/-- A frame is written alike, and the same calls are made meanwhile. -/
theorem Alike.display (h : Alike table table' q p) {c : Color} {result : Except IoError Unit}
    (hlit : q.display (agenda table) c t = (result, q₁, t')) :
    ∃ p₁, p.display (agenda table') c t = (result, p₁, t') ∧
      Abreast table table' q p q₁ p₁ := by
  rcases h.sink.writeFrame_eq c with ⟨hresult, halike, more, hq, hp⟩
  -- both sinks complete as many lines, so the same calls are made
  have hcount : (q.sink.writeFrame c).2.completed - q.sink.completed = more.count Sink.newline ∧
      (p.sink.writeFrame c).2.completed - p.sink.completed = more.count Sink.newline := by
    rw [hq.completed, hp.completed]
    omega
  rcases Call.recordAll_congr (x := (q.panel, t)) (y := (p.panel, t)) h.control rfl
    (listed table' p.sink.completed (more.count Sink.newline)) with ⟨hcontrol, hrest⟩
  unfold Queue.display at hlit ⊢
  simp only [Session.throughout_agenda, hcount.1, Agenda.listed_congr h.calls,
    Prod.mk.injEq] at hlit
  rcases hlit with ⟨rfl, rfl, rfl⟩
  simp only [Session.throughout_agenda, hcount.2]
  refine ⟨_, Prod.ext hresult.symm (Prod.ext rfl hrest.symm),
    ⟨hcontrol, h.generator, halike, ?_⟩, more, hq, hp⟩
  intro k hk
  show entries table ((q.sink.writeFrame c).2.completed + k) =
    entries table' ((p.sink.writeFrame c).2.completed + k)
  rw [hq.completed, hp.completed, Nat.add_assoc, Nat.add_assoc]
  exact h.calls _ (by omega)

theorem Abreast.hold (h : Abreast table table' q p q₁ p₁) (delay : Duration) (m n : Nat) :
    Abreast table table' q p (q₁.hold delay m) (p₁.hold delay n) := by
  apply h.of_sink_eq (sink_hold ..) (sink_hold ..)
  · rw [panel_hold, panel_hold, h.alike.control]
  · rw [generator_hold, generator_hold, h.alike.generator]

theorem Abreast.finish (h : Abreast table table' q p q₁ p₁) (name : String)
    (result : Except IoError Outcome) :
    Abreast table table' q p (q₁.finish name result) (p₁.finish name result) := by
  apply h.of_sink_eq (sink_finish ..) (sink_finish ..)
  · rw [control_finish, control_finish, h.alike.control]
  · rw [generator_finish, generator_finish, h.alike.generator]

theorem Alike.stopped_eq (h : Alike table table' q p) : q.stopped = p.stopped := by
  rw [stopped, stopped, h.control]

variable {source rest : Source Random.Generator} {frames : List Frame}
variable {result : Except IoError Outcome} {shown : Nat}

/-- The same frames are shown. -/
theorem Alike.shows (h : Alike table table' q p)
    (hshows : Shows (agenda table) frames source q t rest q' t') :
    ∃ p', Shows (agenda table') frames source p t rest p' t' ∧
      Abreast table table' q p q' p' := by
  induction hshows generalizing p with
  | nil => exact ⟨p, .nil, h.abreast⟩
  | @cons frame frames source after rest q q₁ q' t t₁ t' hs hnext hlit hmore ih =>
    rcases h.display hlit with ⟨p₁, hlit', habreast⟩
    have hheld := habreast.hold frame.delay q₁.clock.now p₁.clock.now
    rcases ih hheld.alike with ⟨p', hshows', habreast'⟩
    exact ⟨p', .cons (h.stopped_eq.symm.trans hs) hnext hlit' hshows', hheld.trans habreast'⟩

/-- The effect ends alike. -/
theorem Alike.ends (h : Alike table table' q p)
    (hends : Ends (agenda table) shown source q t result q' t') :
    ∃ p', Ends (agenda table') shown source p t result p' t' ∧
      Abreast table table' q p q' p' := by
  cases hends with
  | stopped hs => exact ⟨p, .stopped (h.stopped_eq.symm.trans hs), h.abreast⟩
  | finished hs hnext => exact ⟨p, .finished (h.stopped_eq.symm.trans hs) hnext, h.abreast⟩
  | @failed frame _ e _ _ hs hnext hdark =>
    rcases h.display hdark with ⟨p', hdark', habreast⟩
    exact ⟨p', .failed (h.stopped_eq.symm.trans hs) hnext hdark', habreast⟩

theorem Alike.started (h : Alike table table' q p) : Alike table table' q.started p.started where
  control := congrArg (·.setActive (some Token.fresh)) h.control
  generator := congrArg (·.wide.2) h.generator
  sink := h.sink
  calls := h.calls

/-- A request comes to the same. -/
theorem Alike.pushWith {ticket : Ticket} {e : Effect} (h : Alike table table' q p)
    (hpush : q.pushWith (agenda table) ticket e t = some (result, q', t')) :
    ∃ p', p.pushWith (agenda table') ticket e t = some (result, p', t') ∧
      Abreast table table' q p q' p' := by
  cases hstale : q.panel.control.isStale ticket with
  | true =>
    -- stale on one side is stale on the other, and nothing is drawn
    have hstale' := hstale
    rw [h.control] at hstale'
    rw [pushWith_of_stale hstale, Option.some.injEq, Prod.mk.injEq, Prod.mk.injEq] at hpush
    rcases hpush with ⟨rfl, rfl, rfl⟩
    exact ⟨p.skip e.name, pushWith_of_stale hstale' t,
      h.abreast.of_sink_eq rfl rfl h.control h.generator⟩
  | false =>
    -- both draw the same seed, and so show the same frames
    have hfresh := hstale
    rw [h.control] at hfresh
    have hsource : q.sourceOf e = p.sourceOf e := by
      rw [sourceOf, sourceOf, h.generator]
    rcases (pushWith_eq_some_iff hstale).1 hpush with
      ⟨frames, rest, mid, t₁, ended, hshows, hends, rfl⟩
    rcases h.started.shows hshows with ⟨mid', hshows', hmid⟩
    rcases hmid.alike.ends hends with ⟨ended', hends', hended⟩
    rw [hsource] at hshows'
    refine ⟨_, (pushWith_eq_some_iff hfresh).2
      ⟨frames, rest, mid', t₁, ended', hshows', hends', rfl⟩, ?_⟩
    have hall := (hmid.trans hended).finish e.name result
    exact ⟨hall.alike, hall.took⟩

end Queue

/-! ## Sessions that go on alike -/

namespace Session

variable {table table' : List (Nat × List Call)} {s r s' : Session}

/-- Makes steps one after the other. Nothing is the answer if one of them never ends. -/
def run (table : List (Nat × List Call)) (s : Session) :
    List Step → Option (List (Answer × List Reply) × Session)
  | [] => some ([], s)
  | step :: rest => do
    let (answer, replies, s) ← s.step table step
    let (answers, s) ← run table s rest
    return ((answer, replies) :: answers, s)

/-- Two sessions will go on alike: their queues will, and the same tickets have been given out. -/
structure Alike (table table' : List (Nat × List Call)) (s r : Session) : Prop where
  queue : Queue.Alike table table' s.queue r.queue
  tickets : s.tickets = r.tickets

theorem Alike.symm (h : Alike table table' s r) : Alike table' table r s :=
  ⟨h.queue.symm, h.tickets.symm⟩

/-- A step is answered alike. -/
theorem Alike.step {step : Step} {answer : Answer} {replies : List Reply}
    (h : Alike table table' s r) (hstep : s.step table step = some (answer, replies, s')) :
    ∃ r', r.step table' step = some (answer, replies, r') ∧ Alike table table' s' r' ∧
      ∃ more, s.queue.sink.Took more s'.queue.sink ∧ r.queue.sink.Took more r'.queue.sink := by
  -- the two kinds of request differ only in where the ticket comes from
  have hrequest : ∀ {ticket e}, (s.queue.pushWith (agenda table) ticket e (s.tickets, [])).map
      collect = some (answer, replies, s') →
      ∃ r', (r.queue.pushWith (agenda table') ticket e (r.tickets, [])).map collect =
          some (answer, replies, r') ∧ Alike table table' s' r' ∧
        ∃ more, s.queue.sink.Took more s'.queue.sink ∧
          r.queue.sink.Took more r'.queue.sink := by
    intro ticket e hpush
    rcases Option.map_eq_some_iff.1 hpush with ⟨⟨result, q', tickets, answers⟩, hpush, hcollect⟩
    rcases h.queue.pushWith hpush with ⟨p', hpush', habreast⟩
    simp only [collect, Prod.mk.injEq] at hcollect
    rcases hcollect with ⟨rfl, rfl, rfl⟩
    refine ⟨⟨p', tickets⟩, ?_, ⟨habreast.alike, rfl⟩, habreast.took⟩
    rw [← h.tickets, hpush']
    rfl
  cases step with
  | push e =>
    have hticket : r.queue.panel.control.ticket = s.queue.panel.control.ticket := by
      rw [h.queue.control]
    rw [Session.step, Queue.push, hticket]
    exact hrequest hstep
  | pushWith name e =>
    -- a name that no ticket has is not known to either session
    rw [Session.step] at hstep ⊢
    rw [← h.tickets]
    split at hstep
    · rw [Option.some.injEq, Prod.mk.injEq, Prod.mk.injEq] at hstep
      rcases hstep with ⟨rfl, rfl, rfl⟩
      exact ⟨r, rfl, h, h.queue.abreast.took⟩
    · rw [h.tickets]
      exact hrequest hstep
  | turnOff =>
    rcases hdark : s.queue.display (agenda table) Color.black (s.tickets, []) with
      ⟨result, q', tickets, answers⟩
    rcases h.queue.display hdark with ⟨p', hdark', habreast⟩
    simp only [Session.step, Queue.turnOff, hdark, Option.some.injEq, Prod.mk.injEq] at hstep
    rcases hstep with ⟨rfl, rfl, rfl⟩
    refine ⟨⟨p', tickets⟩, ?_, ⟨habreast.alike, rfl⟩, habreast.took⟩
    simp only [Session.step, Queue.turnOff, ← h.tickets, hdark']
  | call call =>
    -- a call depends on the control and on the tickets alone
    rcases hcall : call.perform s.queue.panel s.tickets with ⟨reply, panel, tickets⟩
    rcases hcall' : call.perform r.queue.panel r.tickets with ⟨reply', panel', tickets'⟩
    have hcongr := Call.recordAll_congr (x := (s.queue.panel, s.tickets, []))
      (y := (r.queue.panel, r.tickets, [])) h.queue.control (by rw [h.tickets]) [call]
    simp only [Call.recordAll_cons, Call.recordAll_nil, Call.record, hcall, hcall', Prod.mk.injEq,
      List.cons.injEq] at hcongr
    rcases hcongr with ⟨hcontrol, rfl, rfl, -⟩
    simp only [Session.step, hcall, Option.some.injEq, Prod.mk.injEq] at hstep
    rcases hstep with ⟨rfl, rfl, rfl⟩
    refine ⟨⟨{ r.queue with panel := panel' }, tickets⟩, ?_, ⟨⟨hcontrol, h.queue.generator,
      h.queue.sink, h.queue.calls⟩, rfl⟩, h.queue.abreast.took⟩
    simp only [Session.step, hcall']

/-- Steps are answered alike, one after the other. -/
theorem Alike.run {steps : List Step} {answers : List (Answer × List Reply)}
    (h : Alike table table' s r) (hrun : s.run table steps = some (answers, s')) :
    ∃ r', r.run table' steps = some (answers, r') ∧ Alike table table' s' r' ∧
      ∃ more, s.queue.sink.Took more s'.queue.sink ∧ r.queue.sink.Took more r'.queue.sink := by
  induction steps generalizing s r answers with
  | nil =>
    rw [Session.run, Option.some.injEq, Prod.mk.injEq] at hrun
    rcases hrun with ⟨rfl, rfl⟩
    exact ⟨r, rfl, h, h.queue.abreast.took⟩
  | cons step steps ih =>
    simp only [Session.run, Option.bind_eq_bind, Option.bind_eq_some_iff, Prod.exists] at hrun
    rcases hrun with ⟨answer, replies, s₁, hstep, later, s₂, hlater, hall⟩
    simp only [Option.pure_def, Option.some.injEq, Prod.mk.injEq] at hall
    rcases hall with ⟨rfl, rfl⟩
    rcases h.step hstep with ⟨r₁, hstep', h₁, data, hs₁, hr₁⟩
    rcases ih h₁ hlater with ⟨r', hlater', h', more, hs', hr'⟩
    refine ⟨r', ?_, h', data ++ more, hs₁.trans hs', hr₁.trans hr'⟩
    simp [Session.run, hstep', hlater']

/-- Steps that never end on one of two sessions never end on the other one. -/
theorem Alike.run_eq_none {steps : List Step} (h : Alike table table' s r)
    (hrun : s.run table steps = none) : r.run table' steps = none := by
  rw [Option.eq_none_iff_forall_ne_some]
  rintro ⟨answers, r'⟩ hrun'
  rcases h.symm.run hrun' with ⟨s', hsome, -⟩
  cases hrun.symm.trans hsome

end Session

/-! ## Requests that fail -/

namespace Queue

variable {σ : Type} {a : Agenda σ} {q q' : Queue} {x x' : σ} {ticket : Ticket} {e : Effect}
variable {err : IoError}

/-- A request that fails has shown the frames before the one that failed. -/
theorem exists_of_pushWith_eq_error (h : q.pushWith a ticket e x = some (.error err, q', x')) :
    ∃ frames frame rest mid t dark, (q.sourceOf e).take (frames.length + 1) = frames ++ [frame] ∧
      Shows a frames (q.sourceOf e) q.started x rest mid t ∧
      mid.display a frame.color t = (.error err, dark, x') ∧
      q' = dark.finish e.name (.error err) := by
  cases hstale : q.panel.control.isStale ticket with
  | true =>
    rw [pushWith_of_stale hstale] at h
    cases h
  | false =>
    rcases (pushWith_eq_some_iff hstale).1 h with ⟨frames, rest, mid, t, dark, hshows, hends, rfl⟩
    cases hends with
    | @failed frame after _ _ _ hs hnext hdark =>
      rcases hshows.take_eq with ⟨htake, hskip⟩
      have hfirst := (Source.skip_take_succ hskip hnext).2
      rw [htake] at hfirst
      exact ⟨frames, frame, rest, mid, t, dark, hfirst, hshows, hdark, rfl⟩

/-- What the agenda has for the lines that were completed has happened, whether the frame after them
was written or failed. -/
theorem Shows.panel_of_display {source rest : Source Random.Generator} {frames : List Frame}
    {mid dark : Queue} {t : σ} {c : Color} {result : Except IoError Unit}
    (h : Shows a frames source q x rest mid t) (hdark : mid.display a c t = (result, dark, x')) :
    (dark.panel, x') = a.throughout q.sink.completed
      (dark.sink.completed - q.sink.completed) (q.panel, x) := by
  have hshowed := h.showed
  have hwritten := (Sink.took_writeFrames (congrArg Prod.fst hshowed.written)).2
  rw [hshowed.written, List.length_map] at hwritten
  dsimp only at hwritten
  have hsink : (mid.sink.writeFrame c).2 = dark.sink := congrArg (·.2.1.sink) hdark
  have hle : mid.sink.completed ≤ dark.sink.completed := by
    rw [← hsink]
    rcases Sink.writeFrame_cases mid.sink c with ⟨-, htook⟩ | ⟨_, -, ⟨_, _, htook, _⟩ | ⟨htook, _⟩⟩
    all_goals
      rw [htook.completed]
      exact Nat.le_add_right _ _
  have hcount : dark.sink.completed - q.sink.completed =
      frames.length + (dark.sink.completed - mid.sink.completed) := by omega
  rw [hcount, a.throughout_add, ← hshowed.panel, ← hwritten, ← hsink]
  exact congrArg (fun y => (y.2.1.panel, y.2.2)) hdark.symm

/-- A request that fails at some frame leaves the lines of the earlier frames and a first part of
the line of that frame, which is the whole line exactly if the flush failed; the failure is that of
the light. Of the control only the calls during the completed lines have changed anything, the slot
is empty, and one seed has been drawn. Whatever is done afterwards comes to the same as on any other
queue with this control, generator and tickets whose light answers alike from then on. -/
theorem pushWith_failed {table : List (Nat × List Call)} {tickets tickets' : Tickets}
    {replies : List Reply} (h : q.pushWith (agenda table) ticket e (tickets, []) =
      some (.error err, q', tickets', replies)) :
    (∃ frames frame before, (q.sourceOf e).take (frames.length + 1) = frames ++ [frame] ∧
      q.sink.writeFrames (frames.map Frame.color) = (.ok (), before) ∧
      q.sink.Took (frames.flatMap fun frame => frame.color.wire) before ∧
      before.writeFrame frame.color = (.error err, q'.sink) ∧
      Sink.FrameFails before frame.color err q'.sink) ∧
    (∃ calls, calls = listed table q.sink.completed
        (q'.sink.completed - q.sink.completed) ∧
      q'.panel.control.epoch = q.panel.control.epoch + .ofNat (calls.countP Call.halts) ∧
      q'.panel.control.closed = (q.panel.control.closed || decide (.close ∈ calls))) ∧
    q'.panel.control.active = none ∧ q'.panel.interrupt.1 = false ∧
    q'.generator = q.generator.wide.2 ∧
    ∀ (table' : List (Nat × List Call)) (r : Session),
      r.queue.panel.control = ⟨q'.panel.control.epoch, q'.panel.control.closed, none⟩ →
      r.queue.generator = q.generator.wide.2 → r.tickets = tickets' →
      q'.sink.Alike r.queue.sink →
      (∀ k, 0 < k → entries table (q'.sink.completed + k) =
        entries table' (r.queue.sink.completed + k)) →
      ∀ steps,
        (∀ answers s', Session.run table ⟨q', tickets'⟩ steps = some (answers, s') →
          ∃ r', Session.run table' r steps = some (answers, r') ∧
            r'.queue.generator = s'.queue.generator ∧ r'.tickets = s'.tickets ∧
            ∃ more, q'.sink.Took more s'.queue.sink ∧ r.queue.sink.Took more r'.queue.sink) ∧
        (Session.run table ⟨q', tickets'⟩ steps = none → Session.run table' r steps = none) := by
  rcases exists_of_pushWith_eq_error h with
    ⟨frames, frame, rest, mid, t, dark, hfirst, hshows, hdark, rfl⟩
  -- what is known of the frame that failed, and of those before it
  have hwritten : q.sink.writeFrames (frames.map Frame.color) = (.ok (), mid.sink) :=
    hshows.showed.written
  have herror : (mid.sink.writeFrame frame.color).1 = .error err := congrArg Prod.fst hdark
  have hsink : (mid.sink.writeFrame frame.color).2 = dark.sink := congrArg (·.2.1.sink) hdark
  have hfails : mid.sink.writeFrame frame.color = (.error err, dark.sink) :=
    Prod.ext herror hsink
  have hgenerator : dark.generator = q.generator.wide.2 :=
    (congrArg (·.2.1.generator) hdark).symm.trans hshows.showed.generator
  have hpanel := hshows.panel_of_display hdark
  rw [Session.throughout_agenda] at hpanel
  -- what the calls have done to the control that were made during the completed lines
  have hepoch := Call.epoch_recordAll (listed table q.sink.completed
    (dark.sink.completed - q.sink.completed)) (q.started.panel, tickets, [])
  have hclosed := Call.closed_recordAll (listed table q.sink.completed
    (dark.sink.completed - q.sink.completed)) (q.started.panel, tickets, [])
  have hcalls : Call.recordAll (listed table q.sink.completed
      (dark.sink.completed - q.sink.completed)) (q.started.panel, tickets, []) =
        (dark.panel, tickets', replies) := hpanel.symm
  rw [hcalls] at hepoch hclosed
  rw [sink_finish, control_finish, generator_finish]
  refine ⟨⟨frames, frame, mid.sink, hfirst, hwritten, ?_, hfails, ?_⟩,
    ⟨_, rfl, hepoch, hclosed⟩, rfl, rfl, hgenerator, ?_⟩
  · have htook := (Sink.took_writeFrames (congrArg Prod.fst hwritten)).1
    rwa [hwritten, List.flatMap_map] at htook
  · rcases Sink.writeFrame_cases mid.sink frame.color with ⟨hok, -⟩ | ⟨e', herror', hcases⟩
    · cases hok.symm.trans herror
    · cases herror'.symm.trans herror
      rwa [hsink] at hcases
  · -- from here on the two sessions go on alike, whatever the failed frame has left in the light
    intro table' r hcontrol hseed htickets halike hlines steps
    have hsame : Session.Alike table table' ⟨dark.finish e.name (.error err), tickets'⟩ r := by
      refine ⟨⟨?_, ?_, ?_, ?_⟩, htickets.symm⟩
      · rw [hcontrol, control_finish]
        rfl
      · rw [generator_finish, hgenerator, hseed]
      · rw [sink_finish]
        exact halike
      · rw [sink_finish]
        exact hlines
    refine ⟨?_, hsame.run_eq_none⟩
    intro answers s' hrun
    rcases hsame.run hrun with ⟨r', hrun', hlater, htook⟩
    rw [sink_finish] at htook
    exact ⟨r', hrun', hlater.queue.generator.symm, hlater.tickets.symm, htook⟩

/-- After the first write of its light has failed, a queue goes on as a new one whose light does not
fail. -/
theorem pushWith_failed_solid :
    let gone : IoError := ⟨.brokenPipe, "gone"⟩
    let g := Random.Generator.ofSeed 0
    ∃ q', (Queue.fresh (.ofTables none [(1, .fails gone)] []) g).pushWith (agenda []) ⟨0⟩
        (.solid ⟨1, 2, 3⟩) ([], []) = some (.error gone, q', [], []) ∧
      ∀ steps, (Session.run [] ⟨q', []⟩ steps).map Prod.fst =
        (Session.run [] (Session.fresh (.ofTables none [] []) g.wide.2) steps).map Prod.fst := by
  intro gone g
  let b := Behaviour.ofTables none [(1, .fails gone)] []
  let good := Behaviour.ofTables none [] []
  have hdark : (Sink.fresh b).writeFrame ⟨1, 2, 3⟩ = (.error gone, ⟨b, 1, 0, #[], 0⟩) := by
    have hwrite : (Sink.fresh b).write (Color.wire ⟨1, 2, 3⟩) =
        (.error gone, ⟨b, 1, 0, #[], 0⟩) := rfl
    have hall := Sink.writeAll_of_ne_nil (Sink.fresh b) (Color.wire_ne_nil ⟨1, 2, 3⟩)
    rw [hwrite] at hall
    rw [Sink.writeFrame, show (Sink.fresh b).writeAll (Text.encode _) = _ from hall]
    rfl
  have hframe : (Queue.fresh b g).sink.writeFrames
      (((Effect.solid ⟨1, 2, 3⟩).frames (Queue.fresh b g).generator.wide.1).map Frame.color) =
        (.error gone, ⟨b, 1, 0, #[], 0⟩) :=
    (Sink.writeFrames_cons_of_error (congrArg Prod.fst hdark) []).trans
      (congrArg (fun x => (Except.error gone, x.2)) hdark)
  have hquiet : (agenda []).Quiet := Agenda.quiet_ofTable_nil _
  rcases pushWith_quiet (q := Queue.fresh b g) (e := .solid ⟨1, 2, 3⟩) (n := 1) hquiet rfl rfl rfl
    ([], []) with ⟨q', hpush, hsink, -, hcontrol⟩
  rw [hframe] at hpush hsink
  refine ⟨q', hpush, fun steps => ?_⟩
  -- the only write that fails has been made
  have halike : q'.sink.Alike (Sink.fresh good) := by
    rw [hsink]
    refine ⟨fun n => ?_, fun n => rfl⟩
    have hlater : (1 + 1 + n == 1) = false := beq_eq_false_iff_ne.2 (by omega)
    show (([(1, Intake.fails gone)]).lookup (1 + 1 + n)).getD .whole = .whole
    rw [List.lookup_cons, hlater]
    rfl
  rcases pushWith_failed hpush with ⟨-, -, -, -, -, hlater⟩
  rcases hlater [] (Session.fresh good g.wide.2) (by rw [hcontrol]; rfl) rfl rfl halike
    (fun _ _ => rfl) steps with ⟨hsome, hnone⟩
  cases hrun : Session.run [] ⟨q', []⟩ steps with
  | none => rw [hnone hrun]
  | some x =>
    rcases hsome x.1 x.2 hrun with ⟨r', hrun', -⟩
    rw [hrun']
    rfl

end Queue

end Beacon
