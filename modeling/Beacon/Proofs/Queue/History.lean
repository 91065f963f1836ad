import Beacon.Proofs.Queue.Calls
import Mathlib.Data.Nat.Find

/-!
# What a history of calls means

Nobody sees the epoch, the closed flag and the slot of the running effect; what has been seen is
which calls were made, and when. A session that has run on a sink without faults answers as its
history has it (`Session.Ran.answers_by_history`): a ticket is stale exactly if a call has halted
since it was given out, and an effect that is played ends with the first line during which a call
halts it.

1. **Histories of calls**: what they leave behind in the control and under the names of tickets
   (`Call.Tells`).
2. **Requests**: what a request comes to that is played (`Session.Plays`), as far as its session has
   kept what the history tells (`Session.Kept`).
3. **Steps**: every step of a session keeps that.
4. **Tickets**: when a ticket is stale (`Session.Superseded`).
-/

namespace Beacon

/-! ## Histories of calls -/

namespace Call

/-- Whether a call gives out a ticket under a name. -/
def issues (name : String) : Call → Bool
  | ticket n | preempt n => n = name
  | interrupt | close => false

/-- What a history of calls has left behind: the epoch counts those that have halted, a queue is
closed if one of them has closed it, and a name stands for the last ticket that was given out under
it. -/
structure Tells (history : List Call) (control : Control) (tickets : Tickets) : Prop where
  epoch : control.epoch = .ofNat (history.countP halts)
  closed : control.closed = decide (close ∈ history)
  ticket : ∀ name before issue after, history = before ++ issue :: after →
    issue.issues name = true → (∀ c ∈ after, c.issues name = false) →
    tickets.lookup name = some ⟨.ofNat ((before ++ [issue]).countP halts)⟩

theorem Tells.fresh : Tells [] Control.fresh [] where
  epoch := rfl
  closed := rfl
  ticket _ _ _ _ h := absurd h (by simp)

variable {history : List Call} {x : Panel × Tickets × List Reply}

/-- A ticket that is given out is that of the epoch after the call. -/
theorem lookup_record {call : Call} {name : String} (h : call.issues name = true) :
    (call.record x).2.1.lookup name = some (call.record x).1.control.ticket := by
  cases call with
  | ticket n | preempt n =>
    have hn : n = name := by simpa [issues] using h
    rw [rest_record, control_record, hn]
    exact List.lookup_cons_self
  | interrupt | close => cases h

/-- A call that gives out no ticket under a name leaves the last one as it is. -/
theorem lookup_record_of_not_issues {call : Call} {name : String} (h : call.issues name = false) :
    (call.record x).2.1.lookup name = x.2.1.lookup name := by
  rw [rest_record]
  cases call with
  | ticket n | preempt n =>
    have hne : n ≠ name := by simpa [issues] using h
    simp [List.lookup_cons, beq_eq_false_iff_ne.2 hne.symm]
  | interrupt | close => rfl

/-- What a history tells is kept up by one more call. -/
theorem Tells.record (h : Tells history x.1.control x.2.1) (call : Call) :
    Tells (history ++ [call]) (call.record x).1.control (call.record x).2.1 := by
  have hepoch := epoch_recordAll [call] x
  have hclosed := closed_recordAll [call] x
  rw [h.epoch, ← UInt64.ofNat_add, ← List.countP_append] at hepoch
  rw [h.closed, ← Bool.decide_or] at hclosed
  refine ⟨hepoch, hclosed.trans (decide_eq_decide.2 List.mem_append.symm), ?_⟩
  intro name before issue after hsplit hissues hafter
  rcases List.eq_nil_or_concat after with rfl | ⟨after, last, rfl⟩
  · -- the call itself is the last one that gave out a ticket under this name
    rcases List.append_inj' hsplit rfl with ⟨rfl, hcall⟩
    rcases List.singleton_inj.1 hcall with rfl
    rw [lookup_record hissues, ← hepoch]
    rfl
  · rw [List.concat_eq_append, ← List.cons_append, ← List.append_assoc] at hsplit
    rcases List.append_inj' hsplit rfl with ⟨hhistory, hcall⟩
    rcases List.singleton_inj.1 hcall with rfl
    rw [lookup_record_of_not_issues (hafter call (by simp))]
    exact h.ticket name before issue after hhistory hissues fun c hc => hafter c (by simp [hc])

/-- What a history tells is kept up by further calls. -/
theorem Tells.recordAll (h : Tells history x.1.control x.2.1) (calls : List Call) :
    Tells (history ++ calls) (recordAll calls x).1.control (recordAll calls x).2.1 := by
  induction calls generalizing history x with
  | nil => rwa [List.append_nil]
  | cons call calls ih =>
    have hmore := ih (h.record call)
    rwa [List.append_assoc] at hmore

end Call

namespace Session

open Agenda (entries listed)

variable {table : List (Nat × List Call)} {history : List Call} {b : Behaviour} {s s' : Session}
variable {e : Effect} {ticket : Ticket} {n : Nat}

/-! ## Histories -/

/-- The calls made in a step: the one that it is, or those that a table has for the lines that it
completes. -/
def made (table : List (Nat × List Call)) (step : Step) (s s' : Session) : List Call :=
  match step with
  | .call call => [call]
  | .push _ | .pushWith .. | .turnOff =>
    listed table s.queue.sink.completed (s'.queue.sink.completed - s.queue.sink.completed)

/-- A session has run from its start, and these calls have been made meanwhile, in order. -/
inductive Ran (table : List (Nat × List Call)) (s₀ : Session) : List Call → Session → Prop
  | refl : Ran table s₀ [] s₀
  | step {history s s' step answer replies} (h : Ran table s₀ history s)
      (hstep : s.step table step = some (answer, replies, s')) :
      Ran table s₀ (history ++ made table step s s') s'

/-- A ticket must not be played any more: the queue has been closed, or a call has halted since the
last ticket was given out under this name. -/
def Superseded (name : String) (history : List Call) : Prop :=
  .close ∈ history ∨ ∃ before issue after, history = before ++ issue :: after ∧
    issue.issues name = true ∧ (∀ c ∈ after, c.issues name = false) ∧ ∃ c ∈ after, c.halts = true

/-- A request is skipped: no call is made meanwhile, nothing is written, and nothing is drawn. -/
def Skips (s : Session) (x : Option (Answer × List Reply × Session)) : Prop :=
  ∃ s', x = some (.pushed .skipped, [], s') ∧ s'.queue.sink = s.queue.sink ∧
    s'.queue.generator = s.queue.generator

/-- A request is answered after the first `shown` frames of its effect have been written. -/
structure Shown (table : List (Nat × List Call)) (history : List Call) (s : Session) (e : Effect)
    (x : Option (Answer × List Reply × Session)) (shown : Nat) (outcome : Outcome) (s' : Session) :
    Prop where
  answer : x = some (.pushed outcome, Call.replies true (history.countP Call.halts)
    (listed table s.queue.sink.completed shown), s')
  taken : s'.queue.sink.taken.toList = s.queue.sink.taken.toList ++
    ((s.queue.sourceOf e).take shown).flatMap fun frame => frame.color.wire
  completed : s'.queue.sink.completed = s.queue.sink.completed + shown
  generator : s'.queue.generator = s.queue.generator.wide.2

/-- What becomes of a request that is played: it is interrupted with the first line during which a
call halts, even if that is its last one; without such a line it is completed, or it never ends. -/
inductive Plays (table : List (Nat × List Call)) (history : List Call) (s : Session) (e : Effect)
    (x : Option (Answer × List Reply × Session)) : Prop
  | interrupted (k : Nat) (s' : Session) (hpos : 0 < k) (hle : ∀ n, e.size? = some n → k ≤ n)
      (hhalts : ∃ c ∈ entries table (s.queue.sink.completed + k), c.halts = true)
      (hfirst : ∀ j, 0 < j → j < k → ∀ c ∈ entries table (s.queue.sink.completed + j),
        c.halts = false)
      (hshown : Shown table history s e x k (.interrupted k) s')
  | completed (n : Nat) (s' : Session) (hsize : e.size? = some n)
      (hnone : ∀ j, 0 < j → j ≤ n → ∀ c ∈ entries table (s.queue.sink.completed + j),
        c.halts = false)
      (hshown : Shown table history s e x n (.completed n) s')
  | endless (hsize : e.size? = none)
      (hnone : ∀ j, 0 < j → ∀ c ∈ entries table (s.queue.sink.completed + j), c.halts = false)
      (hnever : x = none)

/-! ## Requests -/

/-- What every step keeps on a sink without faults. -/
structure Kept (b : Behaviour) (history : List Call) (s : Session) : Prop where
  behaviour : s.queue.sink.behaviour = b
  free : s.queue.panel.control.active = none
  told : Call.Tells history s.queue.panel.control s.tickets

/-- The effect that has been started is stopped once a call has halted. -/
theorem stopped_recordAll {x : Panel × Tickets × List Reply}
    (h : x.1.control.active = some Token.fresh) (calls : List Call) :
    (Call.recordAll calls x).1.control.stopped = calls.any Call.halts := by
  rw [Control.stopped, Call.active_recordAll, h]
  cases calls.any Call.halts <;> simp [Token.fresh]

variable {frames : List Frame} {rest : Source Random.Generator} {mid q' : Queue}
variable {t t' : Tickets × List Reply} {result : Except IoError Outcome}

/-- The effect that is being played is stopped once a call has halted. -/
theorem stopped_of_shows {source : Source Random.Generator}
    (h : Queue.Shows (agenda table) frames source s.queue.started (s.tickets, []) rest mid t) :
    mid.stopped = (listed table s.queue.sink.completed frames.length).any Call.halts := by
  have hpanel := h.showed.panel
  rw [throughout_agenda] at hpanel
  rw [Queue.stopped, show mid.panel = _ from congrArg Prod.fst hpanel]
  exact stopped_recordAll rfl _

/-- What a request leaves behind that is played on a sink without faults: nobody's frame fails, and
the calls during the lines that were completed have been made. -/
theorem Kept.played (hk : s.Kept b history) (hb : b.Faultless)
    (hshows : Queue.Shows (agenda table) frames (s.queue.sourceOf e) s.queue.started
      (s.tickets, []) rest mid t)
    (hends : Queue.Ends (agenda table) frames.length rest mid t result q' t') :
    ∃ outcome, result = .ok outcome ∧ q' = mid ∧ t' = t ∧
      mid.sink.completed = s.queue.sink.completed + frames.length ∧
      Kept b (history ++ listed table s.queue.sink.completed frames.length)
        ⟨mid.finish e.name result, t.1⟩ ∧
      Shown table history s e (some (collect (result, mid.finish e.name result, t))) frames.length
        outcome ⟨mid.finish e.name result, t.1⟩ := by
  have hshowed := hshows.showed
  have hwritten : (s.queue.sink.writeFrames (frames.map Frame.color)) = (.ok (), mid.sink) :=
    hshowed.written
  rcases Sink.took_writeFrames (congrArg Prod.fst hwritten) with ⟨htook, hcompleted⟩
  rw [hwritten] at htook hcompleted
  dsimp only at htook hcompleted
  rw [List.length_map] at hcompleted
  -- the panel has seen the calls of the completed lines, and nothing else
  have hpanel := hshowed.panel
  rw [throughout_agenda] at hpanel
  have hstarted : Call.Tells history s.queue.started.panel.control s.tickets :=
    ⟨hk.told.epoch, hk.told.closed, hk.told.ticket⟩
  have htold := hstarted.recordAll (x := (s.queue.started.panel, s.tickets, []))
    (listed table s.queue.sink.completed frames.length)
  have hreplies := Call.replies_recordAll (x := (s.queue.started.panel, s.tickets, []))
    hstarted.epoch (listed table s.queue.sink.completed frames.length)
  have hlisted : Call.recordAll (listed table s.queue.sink.completed frames.length)
      (s.queue.started.panel, s.tickets, []) = (mid.panel, t) := hpanel.symm
  rw [hlisted] at htold hreplies
  have hbehaviour : mid.sink.behaviour = b := htook.behaviour.trans hk.behaviour
  -- whatever is noted at the end, the queue is as the history with these calls tells
  have hkept : ∀ result, Kept b (history ++ listed table s.queue.sink.completed frames.length)
      ⟨mid.finish e.name result, t.1⟩ := by
    intro result
    refine ⟨by rw [Queue.sink_finish, hbehaviour], by rw [Queue.control_finish]; rfl, ?_⟩
    rw [Queue.control_finish]
    exact ⟨htold.epoch, htold.closed, htold.ticket⟩
  have hshown : ∀ outcome, Shown table history s e
      (some (collect (.ok outcome, mid.finish e.name (.ok outcome), t))) frames.length outcome
      ⟨mid.finish e.name (.ok outcome), t.1⟩ := by
    intro outcome
    refine ⟨?_, ?_, ?_, ?_⟩
    · have hanswers : t.2.reverse = Call.replies true (history.countP Call.halts)
          (listed table s.queue.sink.completed frames.length) := by
        rw [show t.2 = _ from hreplies, List.append_nil, List.reverse_reverse]
        rfl
      simp [collect, hanswers]
    · rw [Queue.sink_finish, htook.taken, hshows.take_eq.1, List.flatMap_map]
    · rw [Queue.sink_finish, hcompleted]
    · rw [Queue.generator_finish, hshowed.generator]
      rfl
  cases hends with
  | stopped => exact ⟨_, rfl, rfl, rfl, hcompleted, hkept _, hshown _⟩
  | finished => exact ⟨_, rfl, rfl, rfl, hcompleted, hkept _, hshown _⟩
  | @failed frame after err _ _ hs hnext hdark =>
    -- the light takes every frame
    have hok := Sink.writeFrame_faultless (hbehaviour.symm ▸ hb) frame.color
    cases (congrArg Prod.fst hdark).symm.trans hok

/-- The answer to a request that is played. -/
theorem Kept.shown {outcome : Outcome} (hk : s.Kept b history) (hb : b.Faultless)
    (hfresh : s.queue.panel.control.isStale ticket = false)
    (hshows : Queue.Shows (agenda table) frames (s.queue.sourceOf e) s.queue.started
      (s.tickets, []) rest mid t)
    (hends : Queue.Ends (agenda table) frames.length rest mid t (.ok outcome) q' t') :
    Shown table history s e
      ((s.queue.pushWith (agenda table) ticket e (s.tickets, [])).map collect) frames.length
      outcome ⟨mid.finish e.name (.ok outcome), t.1⟩ := by
  rcases hk.played hb hshows hends with ⟨_, hok, rfl, rfl, -, -, hshown⟩
  cases hok
  rw [(Queue.pushWith_eq_some_iff hfresh).2 ⟨_, _, _, _, _, hshows, hends, rfl⟩]
  exact hshown

/-- As long as no call halts, frames are shown. -/
theorem Kept.exists_shows (hk : s.Kept b history) (hb : b.Faultless)
    (hle : ∀ m, e.size? = some m → n ≤ m)
    (hcalm : ∀ j, 0 < j → j < n → ∀ c ∈ entries table (s.queue.sink.completed + j),
      c.halts = false) :
    ∃ frames rest mid t, frames.length = n ∧ Queue.Shows (agenda table) frames
        (s.queue.sourceOf e) s.queue.started (s.tickets, []) rest mid t := by
  have hsource : (s.queue.sourceOf e).size? = e.size? := Effect.size?_source _ e
  rcases Source.exists_skip (hsource.symm ▸ hle) with ⟨rest, hskip⟩
  have hwritten := Sink.writeFrames_faultless (s := s.queue.sink) (hk.behaviour.symm ▸ hb)
    (((s.queue.sourceOf e).take n).map Frame.color)
  have hrunning : ∀ k < n, ((agenda table).throughout s.queue.sink.completed k
      (s.queue.started.panel, s.tickets, [])).1.control.stopped = false := by
    intro k hk
    rw [throughout_agenda, stopped_recordAll rfl, List.any_eq_false]
    intro c hc
    rcases Agenda.mem_listed.1 hc with ⟨j, hpos, hj, hentry⟩
    simp [hcalm j hpos (by omega) c hentry]
  rcases Queue.exists_shows (q := s.queue.started) hskip hwritten hrunning with ⟨mid, t, hshows⟩
  exact ⟨_, rest, mid, t, Source.length_take_of_skip hskip, hshows⟩

/-- Once a call has halted, the effect is interrupted. -/
theorem Kept.interrupted (hk : s.Kept b history) (hb : b.Faultless)
    (hfresh : s.queue.panel.control.isStale ticket = false) {k : Nat} (hpos : 0 < k)
    (hle : ∀ n, e.size? = some n → k ≤ n)
    (hhalts : ∃ c ∈ entries table (s.queue.sink.completed + k), c.halts = true)
    (hfirst : ∀ j, 0 < j → j < k → ∀ c ∈ entries table (s.queue.sink.completed + j),
      c.halts = false) :
    ∃ s', Shown table history s e
      ((s.queue.pushWith (agenda table) ticket e (s.tickets, [])).map collect) k
      (.interrupted k) s' := by
  rcases hk.exists_shows hb hle hfirst with ⟨frames, rest, mid, t, rfl, hshows⟩
  have hstopped : mid.stopped = true := by
    rcases hhalts with ⟨c, hc, hhalts⟩
    rw [stopped_of_shows hshows, List.any_eq_true]
    exact ⟨c, Agenda.mem_listed.2 ⟨_, hpos, Nat.le_refl _, hc⟩, hhalts⟩
  exact ⟨_, hk.shown hb hfresh hshows (.stopped hstopped)⟩

/-- While no call has halted, the effect is not stopped. -/
theorem stopped_of_calm {source : Source Random.Generator}
    (hshows : Queue.Shows (agenda table) frames source s.queue.started (s.tickets, []) rest mid t)
    (hcalm : ∀ j, 0 < j → j ≤ frames.length →
      ∀ c ∈ entries table (s.queue.sink.completed + j), c.halts = false) :
    mid.stopped = false := by
  rw [stopped_of_shows hshows, List.any_eq_false]
  intro c hc
  rcases Agenda.mem_listed.1 hc with ⟨j, hpos, hj, hentry⟩
  simp [hcalm j hpos hj c hentry]

/-- If no call halts it, an effect that ends is completed. -/
theorem Kept.completed (hk : s.Kept b history) (hb : b.Faultless)
    (hfresh : s.queue.panel.control.isStale ticket = false) (hsize : e.size? = some n)
    (hnone : ∀ j, 0 < j → j ≤ n → ∀ c ∈ entries table (s.queue.sink.completed + j),
      c.halts = false) :
    ∃ s', Shown table history s e
      ((s.queue.pushWith (agenda table) ticket e (s.tickets, [])).map collect) n
      (.completed n) s' := by
  have hle : ∀ m, e.size? = some m → n ≤ m := by
    intro m hm
    rw [hsize, Option.some.injEq] at hm
    omega
  rcases hk.exists_shows hb hle fun j hj hlt => hnone j hj (Nat.le_of_lt hlt) with
    ⟨frames, rest, mid, t, rfl, hshows⟩
  have hsource : (s.queue.sourceOf e).size? = some frames.length :=
    (Effect.size?_source _ e).trans hsize
  have hover := Source.next_eq_none_of_skip hsource hshows.take_eq.2
  exact ⟨_, hk.shown hb hfresh hshows (.finished (stopped_of_calm hshows hnone) hover)⟩

/-- If no call halts it, an endless effect never ends. -/
theorem Kept.endless (hk : s.Kept b history) (hb : b.Faultless)
    (hfresh : s.queue.panel.control.isStale ticket = false) (hsize : e.size? = none)
    (hnone : ∀ j, 0 < j → ∀ c ∈ entries table (s.queue.sink.completed + j), c.halts = false) :
    (s.queue.pushWith (agenda table) ticket e (s.tickets, [])).map collect = none := by
  rw [Option.map_eq_none_iff, Option.eq_none_iff_forall_ne_some]
  rintro ⟨result, q', t'⟩ hpush
  rcases (Queue.pushWith_eq_some_iff hfresh).1 hpush with
    ⟨frames, rest, mid, t, ended, hshows, hends, -⟩
  have hrunning := stopped_of_calm hshows fun j hj _ => hnone j hj
  rcases hk.played hb hshows hends with ⟨_, hok, -⟩
  cases hends with
  | stopped hs => cases hs.symm.trans hrunning
  | finished _ hnext =>
    have hfinite := Source.size?_eq_of_skip hshows.take_eq.2 hnext
    cases hsize.symm.trans ((Effect.size?_source _ e).symm.trans hfinite)
  | failed => cases hok

/-- A request that is not stale is played. -/
theorem Kept.plays (hk : s.Kept b history) (hb : b.Faultless)
    (hfresh : s.queue.panel.control.isStale ticket = false) (e : Effect) :
    Plays table history s e
      ((s.queue.pushWith (agenda table) ticket e (s.tickets, [])).map collect) := by
  let Halted (k : Nat) : Prop := 0 < k ∧ (∀ n, e.size? = some n → k ≤ n) ∧
    ∃ c ∈ entries table (s.queue.sink.completed + k), c.halts = true
  by_cases hline : ∃ k, Halted k
  · -- the first line that somebody halts is the last one that is written
    obtain ⟨k, ⟨hpos, hle, hhalts⟩, hmin⟩ : ∃ k, Halted k ∧ ∀ j < k, ¬ Halted j := by
      classical exact ⟨Nat.find hline, Nat.find_spec hline, fun j => Nat.find_min hline⟩
    have hfirst : ∀ j, 0 < j → j < k →
        ∀ c ∈ entries table (s.queue.sink.completed + j), c.halts = false := by
      intro j hj hlt c hc
      rw [← Bool.not_eq_true]
      intro hc'
      exact hmin j hlt ⟨hj, fun n hn => Nat.le_trans (Nat.le_of_lt hlt) (hle n hn), c, hc, hc'⟩
    rcases hk.interrupted hb hfresh hpos hle hhalts hfirst with ⟨s', hshown⟩
    exact .interrupted k s' hpos hle hhalts hfirst hshown
  · -- nobody halts any of its lines: they are all written, or the effect never ends
    have hnone : ∀ j, 0 < j → (∀ n, e.size? = some n → j ≤ n) →
        ∀ c ∈ entries table (s.queue.sink.completed + j), c.halts = false := by
      intro j hj hle c hc
      rw [← Bool.not_eq_true]
      intro hc'
      exact hline ⟨j, hj, hle, c, hc, hc'⟩
    cases hsize : e.size? with
    | some n =>
      have hwhole : ∀ j, 0 < j → j ≤ n → ∀ c ∈ entries table (s.queue.sink.completed + j),
          c.halts = false := by
        intro j hj hle
        exact hnone j hj (by simpa [hsize] using hle)
      rcases hk.completed hb hfresh hsize hwhole with ⟨s', hshown⟩
      exact .completed n s' hsize hwhole hshown
    | none =>
      have hnever : ∀ j, 0 < j → ∀ c ∈ entries table (s.queue.sink.completed + j),
          c.halts = false := fun j hj => hnone j hj (by simp [hsize])
      exact .endless hsize hnever (hk.endless hb hfresh hsize hnever)

/-- A stale request is skipped. -/
theorem skips_of_stale (h : s.queue.panel.control.isStale ticket = true) (e : Effect) :
    Skips s ((s.queue.pushWith (agenda table) ticket e (s.tickets, [])).map collect) := by
  rw [Queue.pushWith_of_stale h]
  exact ⟨_, rfl, rfl, rfl⟩

/-! ## Steps -/

/-- What a request keeps, be it skipped or played. -/
theorem Kept.request {answer : Answer} {replies : List Reply} (hk : s.Kept b history)
    (hb : b.Faultless)
    (h : (s.queue.pushWith (agenda table) ticket e (s.tickets, [])).map collect =
      some (answer, replies, s')) :
    s'.Kept b (history ++ listed table s.queue.sink.completed
      (s'.queue.sink.completed - s.queue.sink.completed)) := by
  cases hstale : s.queue.panel.control.isStale ticket with
  | true =>
    rw [Queue.pushWith_of_stale hstale, Option.map_some, Option.some.injEq, collect] at h
    simp only [Prod.mk.injEq] at h
    rcases h with ⟨-, -, rfl⟩
    -- no line was written, so nobody was called meanwhile
    have hnothing : listed table s.queue.sink.completed
        ((s.queue.skip e.name).sink.completed - s.queue.sink.completed) = [] := by
      rw [show (s.queue.skip e.name).sink = s.queue.sink from rfl, Nat.sub_self]
      rfl
    rw [hnothing, List.append_nil]
    exact ⟨hk.behaviour, hk.free, hk.told⟩
  | false =>
    rcases Option.map_eq_some_iff.1 h with ⟨⟨result, q', t'⟩, hpush, hcollect⟩
    rcases (Queue.pushWith_eq_some_iff hstale).1 hpush with
      ⟨frames, rest, mid, t, ended, hshows, hends, rfl⟩
    rcases hk.played hb hshows hends with ⟨_, rfl, rfl, rfl, hcompleted, hkept, -⟩
    simp only [collect, Prod.mk.injEq] at hcollect
    rcases hcollect with ⟨-, -, rfl⟩
    rw [Queue.sink_finish, hcompleted, Nat.add_sub_cancel_left]
    exact hkept

/-- Turning the light off writes one black line, whatever has been called. -/
theorem Kept.turnOff (hk : s.Kept b history) (hb : b.Faultless)
    (table : List (Nat × List Call)) :
    ∃ s', s.step table .turnOff = some (.turnedOff, Call.replies false
        (history.countP Call.halts) (listed table s.queue.sink.completed 1), s') ∧
      s'.queue.sink.taken.toList = s.queue.sink.taken.toList ++ Color.black.wire ∧
      s'.queue.generator = s.queue.generator ∧
      s'.queue.sink.completed = s.queue.sink.completed + 1 ∧
      s'.Kept b (history ++ listed table s.queue.sink.completed 1) := by
  have hok := Sink.writeFrame_faultless (hk.behaviour.symm ▸ hb) Color.black
  rcases hlit : s.queue.display (agenda table) Color.black (s.tickets, []) with
    ⟨result, q', tickets, answers⟩
  rcases (congrArg Prod.fst hlit).symm.trans hok with rfl
  have hsink : (s.queue.sink.writeFrame Color.black).2 = q'.sink := congrArg (·.2.1.sink) hlit
  have hgenerator : s.queue.generator = q'.generator := congrArg (·.2.1.generator) hlit
  have hpanel := Queue.panel_of_display hlit
  rw [throughout_agenda] at hpanel
  rcases Sink.writeFrame_cases s.queue.sink Color.black with ⟨-, htook⟩ | ⟨e, herror, -⟩
  · -- one line is completed, and the calls that the table has for it are made
    rw [hsink] at htook
    have htold := hk.told.recordAll (x := (s.queue.panel, s.tickets, []))
      (listed table s.queue.sink.completed 1)
    have hreplies := Call.replies_recordAll (x := (s.queue.panel, s.tickets, []))
      hk.told.epoch (listed table s.queue.sink.completed 1)
    have hfree := Call.active_recordAll (listed table s.queue.sink.completed 1)
      (s.queue.panel, s.tickets, [])
    have hidle : s.queue.panel.control.running = false := by simp [Control.running, hk.free]
    rw [← hpanel] at htold hreplies hfree
    simp only [hidle, List.append_nil] at hreplies
    simp only [hk.free, Option.map_none, ite_self] at hfree
    refine ⟨⟨q', tickets⟩, ?_, htook.taken, hgenerator.symm, Queue.completed_of_display hlit,
      htook.behaviour.trans hk.behaviour, hfree, htold⟩
    simp [step, Queue.turnOff, hlit, hreplies]
  · -- a sink without faults takes the frame
    cases hok.symm.trans herror

/-- A call is answered, and nothing is written. -/
theorem Kept.call (hk : s.Kept b history) (table : List (Nat × List Call)) (call : Call) :
    ∃ reply s', Call.replies false (history.countP Call.halts) [call] = [reply] ∧
      s.step table (.call call) = some (.replied reply, [], s') ∧
      s'.queue.sink = s.queue.sink ∧ s'.queue.generator = s.queue.generator ∧
      s'.Kept b (history ++ [call]) := by
  have htold := hk.told.record (x := (s.queue.panel, s.tickets, [])) call
  have hreplies := Call.replies_recordAll (x := (s.queue.panel, s.tickets, [])) hk.told.epoch [call]
  have hfree := Call.active_recordAll [call] (s.queue.panel, s.tickets, [])
  have hidle : s.queue.panel.control.running = false := by simp [Control.running, hk.free]
  simp only [hk.free, Option.map_none, ite_self] at hfree
  rcases hperform : call.perform s.queue.panel s.tickets with ⟨reply, panel, tickets⟩
  simp only [Call.recordAll_cons, Call.recordAll_nil, Call.record, hperform, hidle,
    List.append_nil] at htold hreplies hfree
  refine ⟨reply, ⟨{ s.queue with panel }, tickets⟩, ?_, ?_, rfl, rfl, hk.behaviour, hfree, htold⟩
  · rw [← List.reverse_inj, ← hreplies]
    rfl
  · simp [step, hperform]

/-- Every step keeps what a history tells. -/
theorem Kept.step {step : Step} {answer : Answer} {replies : List Reply} (hk : s.Kept b history)
    (hb : b.Faultless) (hstep : s.step table step = some (answer, replies, s')) :
    s'.Kept b (history ++ made table step s s') := by
  cases step with
  | push e => exact hk.request hb hstep
  | pushWith name e =>
    rw [Session.step] at hstep
    split at hstep
    · -- no ticket has that name, and nothing happens
      simp only [Option.some.injEq, Prod.mk.injEq] at hstep
      rcases hstep with ⟨-, -, rfl⟩
      have hnothing : made table (.pushWith name e) s s = [] := by
        rw [made, Nat.sub_self]
        rfl
      rwa [hnothing, List.append_nil]
    · exact hk.request hb hstep
  | turnOff =>
    rcases hk.turnOff hb table with ⟨s₁, hturnOff, -, -, hcompleted, hkept⟩
    rw [hturnOff, Option.some.injEq, Prod.mk.injEq, Prod.mk.injEq] at hstep
    rcases hstep with ⟨-, -, rfl⟩
    rwa [made, hcompleted, Nat.add_sub_cancel_left]
  | call call =>
    rcases hk.call table call with ⟨reply, s₁, -, hcall, -, -, hkept⟩
    rw [hcall, Option.some.injEq, Prod.mk.injEq, Prod.mk.injEq] at hstep
    rcases hstep with ⟨-, -, rfl⟩
    exact hkept

theorem Ran.kept {g : Random.Generator} (h : Ran table (fresh b g) history s)
    (hb : b.Faultless) : s.Kept b history := by
  induction h with
  | refl => exact ⟨rfl, rfl, .fresh⟩
  | step _ hstep ih => exact ih.step hb hstep

/-! ## Tickets -/

/-- Among the calls that gave out a ticket under a name there is a last one. -/
theorem exists_last_issue {name : String} (h : ∃ c ∈ history, c.issues name = true) :
    ∃ before issue after, history = before ++ issue :: after ∧ issue.issues name = true ∧
      ∀ c ∈ after, c.issues name = false := by
  induction history with
  | nil => simp at h
  | cons first history ih =>
    by_cases hlater : ∃ c ∈ history, c.issues name = true
    · rcases ih hlater with ⟨before, issue, after, rfl, hissues, hafter⟩
      exact ⟨first :: before, issue, after, rfl, hissues, hafter⟩
    · have hnone : ∀ c ∈ history, c.issues name = false := by
        simpa using hlater
      rcases h with ⟨c, hc, hissues⟩
      rcases List.mem_cons.1 hc with rfl | hc
      · exact ⟨[], c, history, rfl, hissues, hnone⟩
      · exact absurd ⟨c, hc, hissues⟩ hlater

/-- The epoch is not that of a ticket exactly if a call has halted since the ticket was given out,
as long as the epoch has not come round. -/
theorem Kept.ticket_ne_iff (hk : s.Kept b history)
    (hcount : history.countP Call.halts < UInt64.size)
    {before after : List Call} {issue : Call} (hsplit : history = before ++ issue :: after) :
    s.queue.panel.control.ticket ≠ ⟨.ofNat ((before ++ [issue]).countP Call.halts)⟩ ↔
      ∃ c ∈ after, c.halts = true := by
  have hsum : history.countP Call.halts =
      (before ++ [issue]).countP Call.halts + after.countP Call.halts := by
    rw [hsplit, ← List.countP_append, List.append_assoc, List.singleton_append]
  have hepoch : s.queue.panel.control.ticket = ⟨.ofNat ((before ++ [issue]).countP Call.halts)⟩ ↔
      after.countP Call.halts = 0 := by
    have hbefore := Nat.lt_of_le_of_lt (Nat.le_add_right _ _) (hsum ▸ hcount)
    rw [Control.ticket, Ticket.mk.injEq, hk.told.epoch, ← UInt64.toNat_inj,
      UInt64.toNat_ofNat_of_lt' hcount, UInt64.toNat_ofNat_of_lt' hbefore]
    omega
  rw [Ne, hepoch, List.countP_eq_zero]
  simp

/-- A ticket is stale exactly if its history has superseded it. -/
theorem Kept.isStale_iff (hk : s.Kept b history) (hcount : history.countP Call.halts < UInt64.size)
    {name : String} (hissued : ∃ c ∈ history, c.issues name = true) :
    ∃ ticket, s.tickets.lookup name = some ticket ∧
      (s.queue.panel.control.isStale ticket = true ↔ Superseded name history) := by
  rcases exists_last_issue hissued with ⟨before, issue, after, hsplit, hissues, hafter⟩
  have hticket := hk.told.ticket name before issue after hsplit hissues hafter
  refine ⟨_, hticket, ?_⟩
  rw [Control.isStale, hk.told.closed, Bool.or_eq_true, decide_eq_true_iff, decide_eq_true_iff]
  apply or_congr Iff.rfl
  constructor
  · intro hne
    exact ⟨before, issue, after, hsplit, hissues, hafter,
      (hk.ticket_ne_iff hcount hsplit).1 hne⟩
  · rintro ⟨before', issue', after', hsplit', hissues', hafter', hhalts⟩
    rw [hk.told.ticket name before' issue' after' hsplit' hissues' hafter',
      Option.some.injEq] at hticket
    rw [← hticket]
    exact (hk.ticket_ne_iff hcount hsplit').2 hhalts

/-- On a sink without faults, and as long as the epoch has not come round, a session answers as the
history of its calls has it. The request of an earlier ticket is skipped exactly if the queue has
been closed or a call has halted since that ticket was given out, and a new request exactly if the
queue has been closed; otherwise it is played. Whether an interrupt has met an effect that was
being played is its answer. -/
theorem Ran.answers_by_history {g : Random.Generator} (hb : b.Faultless)
    (h : Ran table (fresh b g) history s) (hcount : history.countP Call.halts < UInt64.size) :
    (∀ name e, (∃ c ∈ history, c.issues name = true) →
      (Superseded name history → Skips s (s.step table (.pushWith name e))) ∧
      (¬ Superseded name history →
        Plays table history s e (s.step table (.pushWith name e)))) ∧
    (∀ e, (.close ∈ history → Skips s (s.step table (.push e))) ∧
      (.close ∉ history → Plays table history s e (s.step table (.push e)))) ∧
    (∃ s', s.step table .turnOff = some (.turnedOff, Call.replies false
        (history.countP Call.halts) (listed table s.queue.sink.completed 1), s') ∧
      s'.queue.sink.taken.toList = s.queue.sink.taken.toList ++ Color.black.wire ∧
      s'.queue.generator = s.queue.generator) ∧
    ∀ call, ∃ reply s', Call.replies false (history.countP Call.halts) [call] = [reply] ∧
      s.step table (.call call) = some (.replied reply, [], s') ∧
      s'.queue.sink = s.queue.sink ∧ s'.queue.generator = s.queue.generator := by
  have hk := h.kept hb
  refine ⟨?_, ?_, ?_, ?_⟩
  · -- whether the ticket of that name is stale can be read off the history
    intro name e hissued
    rcases hk.isStale_iff hcount hissued with ⟨ticket, hlookup, hstale⟩
    have hstep : s.step table (.pushWith name e) =
        (s.queue.pushWith (agenda table) ticket e (s.tickets, [])).map collect := by
      simp only [Session.step, hlookup]
    rw [hstep, ← hstale, Bool.not_eq_true]
    exact ⟨fun hs => skips_of_stale hs e, fun hs => hk.plays hb hs e⟩
  · -- a ticket that is taken now is stale only if the queue is closed
    intro e
    have hstale : s.queue.panel.control.isStale s.queue.panel.control.ticket = true ↔
        .close ∈ history := by
      rw [Control.isStale, hk.told.closed]
      simp
    rw [← hstale, Bool.not_eq_true]
    exact ⟨fun hs => skips_of_stale hs e, fun hs => hk.plays hb hs e⟩
  · rcases hk.turnOff hb table with ⟨s', hstep, htaken, hgenerator, -⟩
    exact ⟨s', hstep, htaken, hgenerator⟩
  · intro call
    rcases hk.call table call with ⟨reply, s', hreply, hstep, hsink, hgenerator, -⟩
    exact ⟨reply, s', hreply, hstep, hsink, hgenerator⟩

/-- An effect of one line is interrupted during that line, and its ticket is stale from then on. -/
theorem Ran.answers_by_history_solid :
    let table := [(1, [Call.interrupt])]
    ∃ (b : Behaviour) (s s' : Session), b.Faultless ∧
      Ran table (fresh b (Random.Generator.ofSeed 0)) [.ticket "a"] s ∧
      s.step table (.pushWith "a" (.solid ⟨1, 2, 3⟩)) =
        some (.pushed (.interrupted 1), [.running true], s') ∧
      s'.queue.sink.taken.toList = Text.encode "1 2 3\n".toList ∧
      Skips s' (s'.step table (.pushWith "a" (.solid ⟨1, 2, 3⟩))) := by
  intro table
  let b := Behaviour.ofTables none [] []
  have hb : b.Faultless := Behaviour.faultless_ofTables (by simp)
  let s : Session := ⟨Queue.fresh b (Random.Generator.ofSeed 0), [("a", ⟨0⟩)]⟩
  have hticket : (fresh b (Random.Generator.ofSeed 0)).step table (.call (.ticket "a")) =
      some (.replied (.issued ⟨0⟩), [], s) := rfl
  have hran : Ran table (fresh b (Random.Generator.ofSeed 0)) [.ticket "a"] s :=
    Ran.refl.step hticket
  have hfresh : ¬ Superseded "a" [.ticket "a"] := by
    rintro (hclose | ⟨before, issue, after, hsplit, -, -, c, hc, -⟩)
    · simp at hclose
    · have hlength := congrArg List.length hsplit
      have hpos := List.length_pos_of_mem hc
      simp only [List.length_append, List.length_cons, List.length_nil] at hlength
      omega
  have hplays := ((hran.answers_by_history hb (by decide)).1 "a" (.solid ⟨1, 2, 3⟩)
    ⟨_, List.mem_cons_self, rfl⟩).2 hfresh
  have hline : ∃ c ∈ Agenda.entries table 1, c.halts = true := ⟨.interrupt, by decide, rfl⟩
  cases hplays with
  | interrupted k s' hpos hle _ _ hshown =>
    -- the call during the first line halts the effect, and leaves its ticket behind
    have hk : k = 1 := Nat.le_antisymm (hle 1 rfl) hpos
    subst hk
    have hstep := hshown.answer
    have hhistory : [Call.ticket "a"] ++ made table (.pushWith "a" (.solid ⟨1, 2, 3⟩)) s s' =
        [.ticket "a", .interrupt] := by
      rw [made, hshown.completed]
      rfl
    have hlater := hran.step hstep
    rw [hhistory] at hlater
    refine ⟨b, s, s', hb, hran, hstep, hshown.taken, ?_⟩
    refine ((hlater.answers_by_history hb (by decide)).1 "a" _ ⟨_, List.mem_cons_self, rfl⟩).1 ?_
    exact Or.inr ⟨[], .ticket "a", [.interrupt], rfl, rfl, by simp [Call.issues], .interrupt,
      List.mem_cons_self, rfl⟩
  | completed n s' hsize hnone _ =>
    cases hsize
    rcases hline with ⟨c, hc, hhalts⟩
    cases hhalts.symm.trans (hnone 1 Nat.one_pos (Nat.le_refl 1) c hc)
  | endless hsize => cases hsize

end Session

end Beacon
