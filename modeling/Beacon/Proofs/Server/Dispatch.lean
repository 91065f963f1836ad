import Beacon.Proofs.Scene.Undisturbed
import Beacon.Proofs.Server.Concurrent
import Beacon.Proofs.Server.Rounds
import Mathlib.Data.List.Nodup

/-!
# Concurrent dispatch is a run of a hall

`Server.run` handles connections at once by playing what they ask for in one go, one request after
the other in the order in which they came. Without preemption and shutdown this is one of the many
orders that the threads of a hall can take, so what holds of all runs of a hall holds of it
(`Server.exists_run_hall`).

1. **Visits**: `Hall.Hosts` relates the queue of a server to a hall between two visits, and a thread
   that reads on comes to the queue, is served, and is back at reading (`Hall.Hosts.exists_visit`).
2. **Waiting**: the requests that threads come to next (`Handler.pending`).
3. **Serving**: rounds are visits of threads, in the order in which these come to wait.
-/

namespace Beacon

/-! ## Visits -/

/-- The request that a thread comes to next. -/
def Handler.next? (t : Ticket) : Handler → Option Waiting
  | .reading c => c.next? t
  | _ => none

/-- Where a thread is when its request has left the queue. -/
def Handler.after (w : Waiting) : Except IoError Outcome → Handler
  | .ok _ => .reading w.rest
  | .error _ => .ended

theorem Handler.exists_reading {t : Ticket} {h : Handler} {w : Waiting} (hw : h.next? t = some w) :
    ∃ c, h = .reading c ∧ c.next? t = some w := by
  cases h with
  | reading c => exact ⟨c, rfl, hw⟩
  | asking | waiting | ended => cases hw

/-- A report that answers a request tells where its thread is then. -/
theorem Report.Answers.after {report : Report} {t : Ticket} {e : Effect}
    {result : Except IoError Outcome} (h : report.Answers t e result) (w : Waiting) :
    (if report.failed then .ended else .reading w.rest) = Handler.after w result := by
  cases report with
  | turnedOff => cases h
  | skipped =>
    obtain ⟨-, -, rfl⟩ := h
    rfl
  | played show' result' =>
    obtain ⟨-, -, rfl⟩ := h
    cases result' <;> rfl

namespace Hall

variable {ι σ : Type} {a : Agenda σ} {i : ι} {hall : Hall ι} {q q' : Queue} {st st' : σ}
variable {c : Connection} {w : Waiting} {result : Except IoError Outcome}

/-- A queue that plays nothing, and a hall all of whose threads read or are done. -/
structure Hosts (q : Queue) (hall : Hall ι) : Prop where
  rests : Scene.Rests q hall.scene
  free : hall.scene.desk = none
  idle : ∀ i, hall.scene.doing i = .idle
  reads : ∀ i, hall.handlers i = .ended ∨ ∃ c, hall.handlers i = .reading c

/-- The journal makes no difference. -/
theorem Hosts.renoted (h : Hosts q hall) (hsame : q.Renoted q') : Hosts q' hall where
  rests := ⟨h.rests.sink.trans hsame.sink.symm, h.rests.generator.trans hsame.generator.symm,
    h.rests.control.trans hsame.control.symm, h.rests.active, h.rests.latch⟩
  free := h.free
  idle := h.idle
  reads := h.reads

/-- A thread that reads on comes to the next request of its connection. -/
theorem Hosts.await_eq (h : Hosts q hall) (c : Connection) :
    (c.await false ⟨hall.scene.control, #[]⟩).1 = c.next? q.panel.control.ticket := by
  rw [(c.await_false _).1, h.rests.control]

variable [DecidableEq ι]

/-- What a scene does while no thread begins or ends anything, its hall does. -/
theorem trace_of_inner {scene scene' : Scene ι} {events : List (Scene.Event ι)}
    (h : Trace Scene.Inner scene events scene') (handlers : ι → Handler) :
    Trace Step ⟨scene, handlers⟩ (events.map ([·])) ⟨scene', handlers⟩ := by
  induction h with
  | refl => exact .refl
  | step _ hstep ih =>
    rw [List.map_append]
    exact ih.step (.within hstep.1 hstep.2.1 hstep.2.2)

/-- A visit: a thread reads on to its next request, asks for the queue and gets it, the request is
played as the queue plays it in one go, and the thread reads on unless the light has failed. -/
theorem Hosts.exists_visit (h : Hosts q hall) (ha : a.Harmless) (hi : hall.handlers i = .reading c)
    (hw : c.next? q.panel.control.ticket = some w)
    (hpush : q.pushWith a w.ticket w.effect st = some (result, q', st')) :
    ∃ shown hall', Trace Step hall shown hall' ∧ Hosts q' hall' ∧
      hall'.handlers = Function.update hall.handlers i (.after w result) := by
  -- the thread reads, asks for the queue, and gets it; then the queue plays, and the thread leaves
  have hread := Trace.refl.step (Step.read hi ((h.await_eq c).trans hw))
  have hasked := hread.step (.ask (i := i) (w := w) (Function.update_self ..))
  have htaken := hasked.step (.within (.take (i := i) (Function.update_self ..) h.free) rfl rfl)
  obtain ⟨events, report, scene, hinner, hanswers, hrests, hdesk⟩ := Scene.Rests.plays (i := i)
    (s := { ({ hall.scene with issued := w.ticket :: hall.scene.issued } : Scene ι).go i
      (.queued (.pushWith w.ticket w.effect)) with
        desk := some (i, .checkClosed w.ticket w.effect) }) ha
    ⟨h.rests.sink, h.rests.generator, h.rests.control, h.rests.active, h.rests.latch⟩ rfl hpush
  have hplayed := htaken.append (trace_of_inner hinner _)
  have hrun := hplayed.step (.leave (i := i) (w := w) (Function.update_self ..) (.leave hdesk))
  rw [hanswers.after, Function.update_idem, Function.update_idem] at hrun
  refine ⟨_, _, hrun, ⟨hrests.leave, rfl, fun j => ?_, fun j => ?_⟩, rfl⟩
  · by_cases hj : j = i
    · subst hj
      exact Function.update_self ..
    · have hdoing := congrFun (Scene.doing_of_inner hinner) j
      simpa [Scene.go, hj, h.idle j] using hdoing
  · by_cases hj : j = i
    · subst hj
      cases result with
      | ok => exact .inr ⟨w.rest, Function.update_self ..⟩
      | error => exact .inl (Function.update_self ..)
    · simpa [hj] using h.reads j

/-- A thread may be done. -/
theorem Hosts.ended (h : Hosts q hall) (i : ι) :
    Hosts q { hall with handlers := Function.update hall.handlers i .ended } where
  rests := h.rests
  free := h.free
  idle := h.idle
  reads j := by
    by_cases hj : j = i
    · exact .inl (by simp [hj])
    · simpa [hj] using h.reads j

/-- Threads that come to no request any more are done at last. -/
theorem Hosts.exists_finish (h : Hosts q hall) (ids : List ι)
    (hnext : ∀ i ∈ ids, (hall.handlers i).next? q.panel.control.ticket = none) :
    ∃ shown hall', Trace Step hall shown hall' ∧ hall'.scene = hall.scene ∧
      (∀ i ∈ ids, hall'.handlers i = .ended) ∧
      ∀ i, hall.handlers i = .ended → hall'.handlers i = .ended := by
  induction ids generalizing hall with
  | nil => exact ⟨[], hall, .refl, rfl, fun _ hi => (by cases hi), fun _ hi => hi⟩
  | cons i ids ih =>
    obtain ⟨hfirst, hothers⟩ := List.forall_mem_cons.1 hnext
    rcases h.reads i with hended | ⟨c, hreading⟩
    · obtain ⟨shown, hall', hrun, hscene, hdone, hstays⟩ := ih h hothers
      exact ⟨shown, hall', hrun, hscene, List.forall_mem_cons.2 ⟨hstays i hended, hdone⟩, hstays⟩
    · -- a thread that comes to no request reads to the end, and the others are as before
      rw [hreading] at hfirst
      have hfinish := Trace.refl.step (Step.finish hreading ((h.await_eq c).trans hfirst))
      have hothers' : ∀ j ∈ ids, (Function.update hall.handlers i .ended j).next?
          q.panel.control.ticket = none := by
        intro j hj
        by_cases hji : j = i
        · simp [hji, Handler.next?]
        · simpa [hji] using hothers j hj
      obtain ⟨shown, hall', hrun, hscene, hdone, hstays⟩ := ih (h.ended i) hothers'
      have hthis : hall'.handlers i = .ended := hstays i (Function.update_self ..)
      refine ⟨_, hall', hfinish.append hrun, hscene, List.forall_mem_cons.2 ⟨hthis, hdone⟩, ?_⟩
      intro j hj
      by_cases hji : j = i
      · rwa [hji]
      · exact hstays j (by simpa [hji] using hj)

end Hall

/-! ## Waiting -/

/-- The requests that some threads come to next. -/
def Handler.pending {ι : Type} (t : Ticket) (handlers : ι → Handler) (ids : List ι) :
    List Waiting :=
  ids.filterMap fun i => (handlers i).next? t

namespace Handler

variable {ι : Type} {t : Ticket} {handlers : ι → Handler} {ids : List ι}

@[simp] theorem pending_append (more : List ι) :
    pending t handlers (ids ++ more) = pending t handlers ids ++ pending t handlers more :=
  List.filterMap_append

theorem pending_eq_nil_iff :
    pending t handlers ids = [] ↔ ∀ i ∈ ids, (handlers i).next? t = none :=
  List.filterMap_eq_nil_iff

/-- Threads that read connections come to what these come to. -/
theorem pending_of_map {connections : List Connection}
    (h : ids.map handlers = connections.map .reading) :
    pending t handlers ids = connections.filterMap (Connection.next? t) := by
  have hmap : pending t handlers ids = (ids.map handlers).filterMap (next? t) := by
    rw [List.filterMap_map]
    rfl
  rw [hmap, h, List.filterMap_map]
  rfl

/-- A thread that comes to a request again waits behind the others. -/
theorem pending_update [DecidableEq ι] {i : ι} (hi : i ∉ ids) (h : Handler) :
    pending t (Function.update handlers i h) (ids ++ [i]) =
      pending t handlers ids ++ (h.next? t).toList := by
  have hothers : pending t (Function.update handlers i h) ids = pending t handlers ids :=
    List.filterMap_congr fun j hj => by
      rw [Function.update_of_ne (ne_of_mem_of_not_mem hj hi)]
  rw [pending_append, hothers]
  cases hnext : h.next? t <;> simp [pending, hnext]

end Handler

/-! ## Serving -/

namespace Server

open Handler (pending)
open Hall (Hosts)

variable {table : List (Nat × List Connection)} {q q' : Queue} {crowd : Crowd}
variable {ι : Type} {hall : Hall ι} {ids news : List ι}

theorem harmless_arriving (table : List (Nat × List Connection)) :
    (sharing.agenda (arriving table)).Harmless :=
  fun line count x => (throughout_arriving table line count x).1

/-- Those who arrive during some lines, and then during some more. -/
theorem exists_news {handlers : ι → Handler} {line m n : Nat}
    (h : news.map handlers = (Agenda.listed table line (m + n)).map .reading) :
    ∃ early late, news = early ++ late ∧
      early.map handlers = (Agenda.listed table line m).map .reading ∧
      late.map handlers = (Agenda.listed table (line + m) n).map .reading := by
  rw [Agenda.listed_add, List.map_append, List.map_eq_append_iff] at h
  exact h

variable [DecidableEq ι]

/-- What a hall comes to while a queue goes from `q` to `q'` by playing what the threads `ids` ask
for. The other threads are where they were, and if all went well, those of `ids` come to no request
any more. -/
structure Serves (q : Queue) (hall : Hall ι) (ids : List ι) (well : Prop) (q' : Queue)
    (hall' : Hall ι) : Prop where
  run : ∃ shown, Trace Hall.Step hall shown hall'
  hosts : Hosts q' hall'
  ticket : q'.panel.control.ticket = q.panel.control.ticket
  others : ∀ i, i ∉ ids → hall'.handlers i = hall.handlers i
  nothing : well → pending q'.panel.control.ticket hall'.handlers ids = []

/-- The first of the requests that wait is that of a thread, and playing it is a visit of that
thread. -/
theorem exists_visit_first {w : Waiting} {waiting : List Waiting}
    {result : Except IoError Outcome} {crowd' : Crowd} (hhosts : Hosts q hall)
    (hwaiting : pending q.panel.control.ticket hall.handlers ids = w :: waiting)
    (hpush : q.pushWith (sharing.agenda (arriving table)) w.ticket w.effect crowd =
      some (result, q', crowd')) :
    ∃ before i after shown hall', ids = before ++ i :: after ∧
      pending q.panel.control.ticket hall.handlers before = [] ∧
      pending q.panel.control.ticket hall.handlers after = waiting ∧
      Trace Hall.Step hall shown hall' ∧ Hosts q' hall' ∧
      hall'.handlers = Function.update hall.handlers i (.after w result) := by
  obtain ⟨before, i, after, rfl, hbefore, hnext, hafter⟩ := List.filterMap_eq_cons_iff.1 hwaiting
  obtain ⟨c, hreading, hc⟩ := Handler.exists_reading hnext
  obtain ⟨shown, hall', hrun, hhosts', hhandlers⟩ :=
    hhosts.exists_visit (harmless_arriving table) hreading hc hpush
  exact ⟨before, i, after, shown, hall', rfl, Handler.pending_eq_nil_iff.2 hbefore, hafter, hrun,
    hhosts', hhandlers⟩

/-- What a server comes to, round by round, a hall can come to, visit by visit. The threads `ids`
have connections that are being read, and the threads `news` those that arrive meanwhile. The
induction is on the rounds; those who wait are at every time the threads `ids` that come to a
request, in this order. -/
theorem Rounds.exists_serves {result : Except IoError Unit} (h : Rounds table q crowd result q')
    (hhosts : Hosts q hall) (hnodup : (ids ++ news).Nodup) {n : Nat}
    (hwaiting : crowd.waiting = pending q.panel.control.ticket hall.handlers ids)
    (hnews : news.map hall.handlers = (Agenda.listed table q.sink.completed n).map .reading)
    (hn : q'.sink.completed = q.sink.completed + n) :
    ∃ hall', Serves q hall (ids ++ news) (result = .ok ()) q' hall' := by
  induction h generalizing hall ids news n with
  | @done q crowd hnobody =>
    -- no line has been completed, so nobody has arrived
    obtain rfl : n = 0 := by omega
    obtain rfl : news = [] := List.map_eq_nil_iff.1 hnews
    refine ⟨hall, ⟨[], .refl⟩, hhosts, rfl, fun _ _ => rfl, fun _ => ?_⟩
    rw [List.append_nil, ← hwaiting, hnobody]
  | @fails q q' crowd crowd' w waiting error hfirst hpush =>
    -- the thread is done, and the others are where they were
    obtain ⟨before, i, after, shown, hall', rfl, -, -, hrun, hhosts', hhandlers⟩ :=
      exists_visit_first hhosts (hwaiting.symm.trans hfirst) hpush
    obtain ⟨-, -, -, hticket⟩ := exists_joined_of_pushWith hpush
    refine ⟨hall', ⟨shown, hrun⟩, hhosts', hticket, fun j hj => ?_, nofun⟩
    rw [hhandlers, Function.update_of_ne (by rintro rfl; simp at hj)]
  | @next q q₁ q₂ q' crowd crowd₁ w waiting outcome result hfirst hpush hsame hmore ih =>
    obtain ⟨before, i, after, shown, hall₁, rfl, hbefore, hafter, hrun, hhosts₁, hhandlers⟩ :=
      exists_visit_first hhosts (hwaiting.symm.trans hfirst) hpush
    obtain ⟨m, hm, hjoined, hticket⟩ := exists_joined_of_pushWith hpush
    have hticket₂ : q₂.panel.control.ticket = q.panel.control.ticket := by
      rw [hsame.control, hticket]
    obtain ⟨k, hk⟩ : ∃ k, q'.sink.completed = q₂.sink.completed + k :=
      Nat.exists_eq_add_of_le hmore.completed_le
    rw [hsame.sink, hm, Nat.add_assoc] at hk
    obtain rfl : n = m + k := by omega
    obtain ⟨early, late, rfl, hearly, hlate⟩ := exists_news hnews
    -- those who arrived during this round wait now, and behind them the one who was played
    have hperm : (before ++ after ++ early ++ [i] ++ late).Perm
        (before ++ i :: after ++ (early ++ late)) := by
      have hlast : (before ++ after ++ early ++ i :: late).Perm
          (i :: (before ++ after ++ early ++ late)) := List.perm_middle
      have hplace : (before ++ i :: (after ++ early ++ late)).Perm
          (i :: (before ++ (after ++ early ++ late))) := List.perm_middle
      simp only [List.append_assoc, List.cons_append, List.nil_append] at hlast hplace ⊢
      exact hlast.trans hplace.symm
    have hfresh : i ∉ before ++ after ++ early ++ late := by
      rw [List.append_assoc, List.cons_append, List.nodup_middle] at hnodup
      simpa using (List.nodup_cons.1 hnodup).1
    rw [List.mem_append, not_or] at hfresh
    have hwaiting₁ : (crowd₁.joined q₁.panel.control.ticket [w.rest]).waiting =
        pending q₂.panel.control.ticket hall₁.handlers (before ++ after ++ early ++ [i]) := by
      rw [hhandlers, hticket₂, hticket, Handler.pending_update hfresh.1, Handler.pending_append,
        Handler.pending_append, hbefore, hafter, Handler.pending_of_map hearly, hjoined,
        Crowd.joined_joined]
      cases hrest : w.rest.next? q.panel.control.ticket <;>
        simp [Crowd.joined, Handler.after, Handler.next?, hrest]
    have hnews₁ : late.map hall₁.handlers =
        (Agenda.listed table q₂.sink.completed k).map .reading := by
      rw [hsame.sink, hm, ← hlate, hhandlers]
      exact List.map_congr_left fun j hj =>
        Function.update_of_ne (ne_of_mem_of_not_mem hj hfresh.2) ..
    obtain ⟨hall', ⟨more, hrun'⟩, hhosts', hticket', hothers, hnothing⟩ :=
      ih (hhosts₁.renoted hsame) (hperm.nodup_iff.2 hnodup) hwaiting₁ hnews₁
        (by rw [hsame.sink, hk, hm, Nat.add_assoc])
    refine ⟨hall', ⟨_, hrun.append hrun'⟩, hhosts', hticket'.trans hticket₂, fun j hj => ?_,
      fun hok => Handler.pending_eq_nil_iff.2 fun j hj => ?_⟩
    · have hj' : j ≠ i := by
        rintro rfl
        simp at hj
      rw [hothers j (mt hperm.mem_iff.1 hj), hhandlers, Function.update_of_ne hj']
    · exact Handler.pending_eq_nil_iff.1 (hnothing hok) j (hperm.mem_iff.2 hj)

/-- A connection is opened: its thread is the only one that can be waiting. -/
theorem Rounds.exists_serves_opened {q₁ : Queue} {c : Connection} {result : Except IoError Unit}
    (h : Rounds table q₁ (Crowd.nobody.joined q.panel.control.ticket [c]) result q')
    (hsame : q.Renoted q₁) (hhosts : Hosts q hall) {i : ι} (hi : hall.handlers i = .reading c)
    (hnodup : ([i] ++ news).Nodup) {n : Nat}
    (hnews : news.map hall.handlers = (Agenda.listed table q.sink.completed n).map .reading)
    (hn : q'.sink.completed = q.sink.completed + n) :
    ∃ hall', Serves q hall ([i] ++ news) (result = .ok ()) q' hall' := by
  have hwaiting : (Crowd.nobody.joined q.panel.control.ticket [c]).waiting =
      pending q₁.panel.control.ticket hall.handlers [i] := by
    have hmap : [i].map hall.handlers = [c].map .reading := by simp [hi]
    rw [hsame.control, Handler.pending_of_map hmap]
    rfl
  rw [← hsame.sink] at hnews hn
  obtain ⟨hall', hserves⟩ :=
    h.exists_serves (hhosts.renoted hsame) hnodup hwaiting hnews hn
  exact ⟨hall', hserves.run, hserves.hosts, hsame.control ▸ hserves.ticket, hserves.others,
    hserves.nothing⟩

/-- What a run of a server comes to, connection by connection, a hall can come to. The threads
`opened` have the connections that are opened, and `news` those that arrive meanwhile. -/
theorem Openings.exists_serves {connections : List Connection} {failure : Option IoError}
    (h : Openings table q connections failure q') (hhosts : Hosts q hall) {opened : List ι}
    (hnodup : (opened ++ news).Nodup) {n : Nat}
    (hopened : opened.map hall.handlers = connections.map .reading)
    (hnews : news.map hall.handlers = (Agenda.listed table q.sink.completed n).map .reading)
    (hn : q'.sink.completed = q.sink.completed + n) :
    ∃ hall', Serves q hall (opened ++ news) (failure = none) q' hall' := by
  induction h generalizing hall opened news n with
  | @done q =>
    obtain rfl : n = 0 := by omega
    obtain rfl : news = [] := List.map_eq_nil_iff.1 hnews
    obtain rfl : opened = [] := List.map_eq_nil_iff.1 hopened
    exact ⟨hall, ⟨[], .refl⟩, hhosts, rfl, fun _ _ => rfl, fun _ => rfl⟩
  | @fails q q₁ q' c error hsame hrounds =>
    obtain ⟨i, rfl, hi⟩ := List.map_eq_singleton_iff.1 hopened
    obtain ⟨hall', hserves⟩ := hrounds.exists_serves_opened hsame hhosts hi hnodup hnews hn
    exact ⟨hall', hserves.run, hserves.hosts, hserves.ticket, hserves.others, nofun⟩
  | @next q q₁ q₂ q' c connections failure hsame hrounds hmore ih =>
    obtain ⟨i, rest, rfl, hi, hrest⟩ := List.map_eq_cons_iff.1 hopened
    obtain ⟨m, hm⟩ := Nat.exists_eq_add_of_le (hsame.sink ▸ hrounds.completed_le)
    obtain ⟨k, hk⟩ := Nat.exists_eq_add_of_le hmore.completed_le
    obtain rfl : n = m + k := by omega
    obtain ⟨early, late, rfl, hearly, hlate⟩ := exists_news hnews
    -- the threads that are served until nobody waits, and those of the later connections
    have hperm : ([i] ++ early ++ (rest ++ late)).Perm (i :: rest ++ (early ++ late)) :=
      (List.perm_append_comm_assoc early rest late).cons i
    obtain ⟨hfirst, hlater, hne⟩ := List.nodup_append.1 (hperm.nodup_iff.2 hnodup)
    obtain ⟨hall₁, ⟨shown, hrun⟩, hhosts₁, hticket, hothers, hnothing⟩ :=
      hrounds.exists_serves_opened hsame hhosts hi hfirst hearly hm
    have hstill : ∀ j ∈ rest ++ late, hall₁.handlers j = hall.handlers j :=
      fun j hj => hothers j fun hmem => hne j hmem j hj rfl
    have hrest₁ : rest.map hall₁.handlers = connections.map .reading :=
      (List.map_congr_left fun j hj => hstill j (List.mem_append_left _ hj)).trans hrest
    have hlate₁ : late.map hall₁.handlers =
        (Agenda.listed table q₂.sink.completed k).map .reading := by
      rw [hm, ← hlate]
      exact List.map_congr_left fun j hj => hstill j (List.mem_append_right _ hj)
    obtain ⟨hall', ⟨more, hrun'⟩, hhosts', hticket', hothers', hnothing'⟩ :=
      ih hhosts₁ hlater hrest₁ hlate₁ hk
    refine ⟨hall', ⟨_, hrun.append hrun'⟩, hhosts', hticket'.trans hticket, fun j hj => ?_,
      fun hok => Handler.pending_eq_nil_iff.2 fun j hj => ?_⟩
    · obtain ⟨hj₁, hj₂⟩ := not_or.1 (mt List.mem_append.2 (mt hperm.mem_iff.1 hj))
      rw [hothers' j hj₂, hothers j hj₁]
    · rcases List.mem_append.1 (hperm.mem_iff.2 hj) with hj | hj
      · -- whoever has come to nothing more stays so, for the later threads alone go on
        rw [hothers' j fun hmem => hne j hj j hmem rfl, hticket']
        exact Handler.pending_eq_nil_iff.1 (hnothing rfl) j hj
      · exact Handler.pending_eq_nil_iff.1 (hnothing' hok) j hj

/-- A run of the server that handles connections at once, without preemption and shutdown, is a run
of a hall. The threads of the hall have the connections that the server opens, and those that arrive
while lines are written: those of `table`, as far as the lines of the light go. The hall has come to
the same light and the same generator, and unless the light has failed all its threads are done. -/
theorem exists_run_hall {b : Behaviour} {g : Random.Generator} {connections : List Connection}
    {run : Run}
    (hrun : Server.run sharing (arriving table) (Queue.fresh b g) connections = some run) :
    let arrivals := connections.take run.lines.length ++
      Agenda.listed table 0 run.queue.sink.completed
    ∃ shown hall, Hall.Run b g arrivals.get shown hall ∧ hall.scene.sink = run.queue.sink ∧
      hall.scene.generator = run.queue.generator ∧
      (run.failure = none → ∀ i, hall.handlers i = .ended) := by
  intro arrivals
  let hall := Hall.fresh b g arrivals.get
  have hhosts : Hosts (Queue.fresh b g) hall :=
    ⟨⟨rfl, rfl, rfl, rfl, rfl⟩, rfl, fun _ => rfl, fun i => .inr ⟨_, rfl⟩⟩
  -- the threads of the connections that are opened come before those of the arrivals
  have hmap : (List.finRange arrivals.length).map hall.handlers = arrivals.map .reading := by
    have hget := congrArg (List.map Handler.reading) (List.map_get_finRange arrivals)
    rwa [List.map_map] at hget
  rw [List.map_append, List.map_eq_append_iff] at hmap
  obtain ⟨opened, news, hthreads, hopened, hnews⟩ := hmap
  have hnodup : (opened ++ news).Nodup := hthreads ▸ List.nodup_finRange _
  obtain ⟨hall', ⟨shown, htrace⟩, hhosts', -, -, hnothing⟩ :=
    (openings_of_run hrun).exists_serves hhosts hnodup hopened hnews (Nat.zero_add _).symm
  cases hfailure : run.failure with
  | some error =>
    exact ⟨shown, hall', htrace, hhosts'.rests.sink, hhosts'.rests.generator, nofun⟩
  | none =>
    obtain ⟨more, hall'', hfinish, hscene, hended, -⟩ := hhosts'.exists_finish (opened ++ news)
      (Handler.pending_eq_nil_iff.1 (hnothing hfailure))
    refine ⟨_, hall'', htrace.append hfinish, hscene ▸ hhosts'.rests.sink,
      hscene ▸ hhosts'.rests.generator, fun _ i => hended i ?_⟩
    rw [← hthreads]
    exact List.mem_finRange i

/-- A connection arrives while the first line is being written. What it asks for waits behind the
request that is played, and before the next one of the connection that was there first. -/
example : (Server.run sharing (arriving [(1, [.ofBytes (Text.encode "c{4,5,6}".toList)])])
    (Queue.fresh (Behaviour.ofTables none [] []) (Random.Generator.ofSeed 0))
    [.ofBytes (Text.encode "c{1,2,3}\nc{7,8,9}".toList)]).map (·.queue.sink.taken.toList) =
      some (Text.encode "1 2 3\n4 5 6\n7 8 9\n".toList) := by
  decide +kernel

end Server

end Beacon
