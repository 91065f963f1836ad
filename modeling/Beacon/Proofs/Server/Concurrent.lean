import Beacon.Proofs.Queue.Playing
import Beacon.Proofs.Scene.Newest
import Beacon.Proofs.Server.Serving
import Beacon.Proofs.Trace
import Mathlib.Data.Set.List

/-!
# Connections that are handled at once

In concurrent dispatch each connection has a thread of its own. It reads on up to the next request,
gets a ticket for it, waits for the queue, and goes on reading when the request has left the queue.
A hall is a scene whose threads do just this, so nobody interrupts or closes the queue; its steps
are those of the scene, and its runs are all interleavings of any number of connections.

Nothing is lost (`Hall.Run.plays_all`): a ticket may be old when its request gets the queue at last,
but without an interrupt no ticket is ever stale.

1. **Halls**: `Handler` (where the thread of a connection is), `Hall`, `Step` and `Run`.
2. **Threads and scene**: what each thread has had played, and what it is still to ask for, is what
   its connection asks for (`Attended`).
3. **Calm runs**: where nobody interrupts, every request is completed (`Scene.Run.completed`).
-/

namespace Beacon

/-! ## Halls -/

/-- Where the thread of a connection is: it reads, it has a request and a ticket for it and is to
ask for the queue, it has asked for the queue and not left it since, or the connection is done. -/
inductive Handler
  | reading (c : Connection)
  | asking (w : Waiting)
  | waiting (w : Waiting)
  | ended
  deriving DecidableEq, Repr

namespace Handler

/-- What the thread is doing, as the scene sees it. -/
def point : Handler → Point
  | waiting w => .queued (.pushWith w.ticket w.effect)
  | _ => .idle

/-- What the thread is still to have played. -/
def requests : Handler → List (String × Effect)
  | reading c => c.requests
  | asking w | waiting w => (w.line, w.effect) :: w.rest.requests
  | ended => []

end Handler

/-- Whether the light failed while the thread had the queue. -/
def Report.failed : Report → Bool
  | turnedOff (.error _) | played _ (.error _) => true
  | _ => false

/-- A scene, and where the thread of each connection is. -/
structure Hall (ι : Type) where
  scene : Scene ι
  handlers : ι → Handler

namespace Hall

variable {ι : Type}

/-- A hall in which no connection has been read yet. -/
def fresh (b : Behaviour) (g : Random.Generator) (arrivals : ι → Connection) : Hall ι :=
  ⟨Scene.fresh b g, fun i => .reading (arrivals i)⟩

variable [DecidableEq ι]

/-- One step of a hall, with what it shows of the scene. A thread reads on up to a request and gets
its ticket, or finds nothing more to be played; it asks for the queue; it leaves the queue, and then
reads on unless the light has failed. All else (getting the queue, playing, composing) are steps in
which no thread begins or ends anything, and gets no ticket. -/
inductive Step (s : Hall ι) : List (Scene.Event ι) → Hall ι → Prop
  | read {i c w} (hi : s.handlers i = .reading c)
      (hw : (c.await false ⟨s.scene.control, #[]⟩).1 = some w) :
      Step s [.issued i w.ticket] ⟨{ s.scene with issued := w.ticket :: s.scene.issued },
        Function.update s.handlers i (.asking w)⟩
  | finish {i c} (hi : s.handlers i = .reading c)
      (hc : (c.await false ⟨s.scene.control, #[]⟩).1 = none) :
      Step s [] { s with handlers := Function.update s.handlers i .ended }
  | ask {i w} (hi : s.handlers i = .asking w) :
      Step s [.quiet] ⟨s.scene.go i (.queued (.pushWith w.ticket w.effect)),
        Function.update s.handlers i (.waiting w)⟩
  | leave {i w report scene} (hi : s.handlers i = .waiting w)
      (hstep : Scene.Step s.scene (.left i report) scene) :
      Step s [.left i report] ⟨scene, Function.update s.handlers i
        (if report.failed then .ended else .reading w.rest)⟩
  | within {ev scene} (hstep : Scene.Step s.scene ev scene) (hdoing : scene.doing = s.scene.doing)
      (hissued : scene.issued = s.scene.issued) : Step s [ev] { s with scene }

/-- A run of a hall from its beginning, with what its steps show. -/
abbrev Run (b : Behaviour) (g : Random.Generator) (arrivals : ι → Connection) :
    List (List (Scene.Event ι)) → Hall ι → Prop :=
  Trace Step (fresh b g arrivals)

/-! ## Threads and scene -/

/-- The effects that a thread has left the queue with. -/
def servedTo (i : ι) (events : List (Scene.Event ι)) : List Effect :=
  ((Scene.reports events).filter (·.1 = i)).filterMap fun r => (Play.done r.2).effect?

@[simp] theorem servedTo_append (i : ι) (before after : List (Scene.Event ι)) :
    servedTo i (before ++ after) = servedTo i before ++ servedTo i after := by
  simp [servedTo]

/-- A step that shows no report serves nobody. -/
theorem servedTo_singleton (i : ι) {ev : Scene.Event ι} (hev : ev.left? = none) :
    servedTo i [ev] = [] := by
  simp [servedTo, hev]

/-- What is known of a thread, by the effects that it has had played: it does what its handler is
at, it has the ticket that it asks with, and what it was served and what it still is to ask for is
what its connection asks for. -/
structure Attuned (c : Connection) (s : Scene ι) (i : ι) (served : List Effect) (h : Handler) :
    Prop where
  doing : s.doing i = h.point
  issued : ∀ w, h = .asking w → w.ticket ∈ s.issued
  served : served ++ h.requests.map (·.2) = c.requests.map (·.2)

/-- All threads of the scene are those of the connections. They ask for nothing but requests with a
ticket, and nobody interrupts anything. -/
structure Attended (arrivals : ι → Connection) (events : List (Scene.Event ι)) (s : Hall ι) :
    Prop where
  threads : ∀ i, Attuned (arrivals i) s.scene i (servedTo i events) (s.handlers i)
  asked : ∀ i job, (i, job) ∈ Scene.operations events → ∃ t e, job = .pushWith t e
  calm : ∀ ev ∈ events, ev.calls = false

variable {arrivals : ι → Connection} {events shown : List (Scene.Event ι)} {s s' : Hall ι} {i : ι}
variable {b : Behaviour} {g : Random.Generator}

theorem Attended.fresh : Attended arrivals [] (fresh b g arrivals) where
  threads _ := ⟨rfl, fun _ h => (by cases h), rfl⟩
  asked _ _ h := by cases h
  calm _ h := by cases h

/-- A step that concerns one thread alone leaves the others as they are. -/
theorem Attended.update (h : Attended arrivals events s) {scene : Scene ι} {handler : Handler}
    (hi : Attuned (arrivals i) scene i (servedTo i (events ++ shown)) handler)
    (hdoing : ∀ j, j ≠ i → scene.doing j = s.scene.doing j)
    (hissued : s.scene.issued ⊆ scene.issued) (hserved : ∀ j, j ≠ i → servedTo j shown = [])
    (hasked : Scene.operations shown = []) (hcalm : ∀ ev ∈ shown, ev.calls = false) :
    Attended arrivals (events ++ shown) ⟨scene, Function.update s.handlers i handler⟩ where
  threads j := by
    by_cases hj : j = i
    · subst hj
      simpa using hi
    · have hold := h.threads j
      refine ⟨?_, ?_, ?_⟩
      · simpa [hj, hdoing j hj] using hold.doing
      · intro w hw
        exact hissued (hold.issued w (by simpa [hj] using hw))
      · simpa [hj, hserved j hj] using hold.served
  asked j job hmem := h.asked j job (by simpa [hasked] using hmem)
  calm ev hev := (List.mem_append.1 hev).elim (h.calm ev) (hcalm ev)

/-- What a thread comes to when it reads on: the next request of its connection, with a ticket of
the present epoch. -/
theorem requests_of_await {c : Connection} {w : Waiting} {panel : Panel}
    (h : (c.await false panel).1 = some w) :
    c.requests = (w.line, w.effect) :: w.rest.requests ∧ w.ticket = panel.control.ticket := by
  cases hrequests : c.requests with
  | nil =>
    rw [Connection.await_eq_none hrequests] at h
    cases h
  | cons r more =>
    rcases Connection.await_eq_some hrequests false panel with ⟨rest, hrest, -, hawait⟩
    rw [hawait] at h
    rcases Option.some.inj h with rfl
    exact ⟨by rw [hrest], rfl⟩

theorem requests_of_await_none {c : Connection} {panel : Panel}
    (h : (c.await false panel).1 = none) : c.requests = [] := by
  cases hrequests : c.requests with
  | nil => rfl
  | cons r more =>
    rcases Connection.await_eq_some hrequests false panel with ⟨rest, -, -, hawait⟩
    rw [hawait] at h
    cases h

/-- A step in which no thread begins or ends anything shows no report, calls nobody, and if a thread
gets the queue, it had asked for it. -/
theorem calm_of_within {s s' : Scene ι} {ev : Scene.Event ι} (hk : Scene.Kept s)
    (hpoints : ∀ i, ∃ h : Handler, s.doing i = h.point) (hstep : Scene.Step s ev s')
    (hdoing : s'.doing = s.doing) :
    ev.left? = none ∧ ev.calls = false ∧
      ∀ i job, ev.took? = some (i, job) → s.doing i = .queued job := by
  cases hstep with
  | @shut i hd | @draw i halt hd =>
    rcases hpoints i with ⟨h, hh⟩
    rw [hd] at hh
    cases h <;> cases hh
  | @leave i report hq =>
    -- whoever leaves was queued, and is idle then
    rcases hk.queued i _ hq with ⟨job, hjob⟩
    have hidle := congrFun hdoing i
    simp [Scene.go, hjob] at hidle
  | take hd hq =>
    refine ⟨rfl, rfl, fun i job h => ?_⟩
    rcases Option.some.inj h with ⟨⟩
    exact hd
  | turn hq ht => exact ⟨ht.left?_eq_none, by cases ht <;> rfl, by simp [ht.took?_eq_none]⟩
  | _ => exact ⟨rfl, rfl, fun i job h => by cases h⟩

/-- A step of a hall is a run of its scene, and what is known of the threads stays true. -/
theorem Attended.step (h : Attended arrivals events s) (hk : Scene.Kept s.scene)
    (he : Scene.Employed s.scene)
    (hsound : ∀ i report, s.scene.desk = some (i, .done report) → report.failed = false)
    (hstep : Step s shown s') :
    Scene.Run s.scene shown s'.scene ∧ Attended arrivals (events ++ shown) s' := by
  cases hstep with
  | @read i c w hi hw =>
    -- the request moves from the connection to what the thread is to ask for
    have hold := hi ▸ h.threads i
    rcases requests_of_await hw with ⟨hrequests, hticket⟩
    have hserved : servedTo i [Scene.Event.issued i w.ticket] = [] := rfl
    refine ⟨Scene.Run.refl.step (hticket ▸ .ticket hold.doing), h.update ?_ (fun _ _ => rfl)
      (List.subset_cons_self _ _) (fun _ _ => rfl) rfl (by simp [Scene.Event.calls])⟩
    refine ⟨hold.doing, fun w' hw' => ?_, ?_⟩
    · rcases Handler.asking.inj hw' with rfl
      exact List.mem_cons_self
    · simpa [hserved, Handler.requests, hrequests] using hold.served
  | @finish i c hi hc =>
    -- nothing that the connection asks for is lost: it asks for nothing more
    have hold := hi ▸ h.threads i
    have hnone := requests_of_await_none hc
    refine ⟨.refl, h.update ⟨hold.doing, (fun _ hw => by cases hw), ?_⟩ (fun _ _ => rfl)
      (List.Subset.refl _) (fun _ _ => rfl) rfl (by simp)⟩
    simpa [Handler.requests, hnone] using hold.served
  | @ask i w hi =>
    have hold := hi ▸ h.threads i
    have hserved : servedTo i [Scene.Event.quiet] = [] := rfl
    refine ⟨Scene.Run.refl.step (.request _ hold.doing (hold.issued w rfl)), h.update ?_
      (fun j hj => by simp [Scene.go, hj]) (List.Subset.refl _) (fun _ _ => rfl) rfl
      (by simp [Scene.Event.calls])⟩
    refine ⟨Function.update_self .., (fun _ hw => by cases hw), ?_⟩
    simpa [hserved, Handler.requests] using hold.served
  | @leave i w report scene hi hstep =>
    have hold := hi ▸ h.threads i
    cases hstep with
    | turn hq ht => cases ht
    | leave hq =>
      -- the report is about the request that the thread has been waiting with
      rcases he i _ hq with ⟨job, hjob, hserves⟩
      rcases Point.queued.inj (hjob.symm.trans hold.doing) with rfl
      have hserved : servedTo i [Scene.Event.left i report] = [w.effect] := by
        simp [servedTo, Scene.Event.left?, hserves.1]
      refine ⟨Scene.Run.refl.step (.leave hq), h.update ?_ (fun j hj => by simp [Scene.go, hj])
        (List.Subset.refl _) (fun j hj => ?_) rfl (by simp [Scene.Event.calls])⟩
      · rw [if_neg (by simp [hsound i report hq])]
        refine ⟨Function.update_self .., (fun _ hw => by cases hw), ?_⟩
        simpa [hserved, Handler.requests] using hold.served
      · simp [servedTo, Scene.Event.left?, Ne.symm hj]
  | @within ev scene hstep hdoing hissued =>
    -- no thread has moved, and one that gets the queue had asked for it
    have hpoints : ∀ i, ∃ h : Handler, s.scene.doing i = h.point := fun i =>
      ⟨s.handlers i, (h.threads i).doing⟩
    rcases calm_of_within hk hpoints hstep hdoing with ⟨hleft, hcalm, htook⟩
    refine ⟨Scene.Run.refl.step hstep, ?_, ?_, ?_⟩
    · intro i
      have hold := h.threads i
      refine ⟨(congrFun hdoing i).trans hold.doing, fun w hw => ?_, ?_⟩
      · exact hissued ▸ hold.issued w hw
      · simpa [servedTo_singleton i hleft] using hold.served
    · intro i job hmem
      rw [Scene.operations_append, Scene.operations_singleton] at hmem
      rcases List.mem_append.1 hmem with hmem | hmem
      · exact h.asked i job hmem
      · have hqueued := htook i job (Option.mem_toList.1 hmem)
        rw [(h.threads i).doing] at hqueued
        cases hhandler : s.handlers i with
        | waiting w =>
          rw [hhandler] at hqueued
          exact ⟨_, _, (Point.queued.inj hqueued).symm⟩
        | _ => simp [hhandler, Handler.point] at hqueued
    · intro ev' hev'
      rcases List.mem_append.1 hev' with hmem | hmem
      · exact h.calm ev' hmem
      · rwa [List.mem_singleton.1 hmem]

/-- A run of a hall is a run of its scene, to which its threads keep. -/
theorem Run.attended {shown : List (List (Scene.Event ι))} (hb : b.Faultless)
    (hrun : Run b g arrivals shown s) :
    Scene.Run (Scene.fresh b g) shown.flatten s.scene ∧ Attended arrivals shown.flatten s := by
  induction hrun with
  | refl => exact ⟨.refl, .fresh⟩
  | @step shown s more s' htrace hstep ih =>
    rcases ih with ⟨hscene, hattended⟩
    have hsound : ∀ i report, s.scene.desk = some (i, .done report) → report.failed = false := by
      intro i report hdesk
      have htrue := (hscene.told hb).desk i _ report hdesk rfl
      cases report with
      | turnedOff result => cases htrue; rfl
      | skipped t e => rfl
      | played w result => rcases htrue with ⟨-, ⟨rfl, -⟩ | ⟨rfl, -⟩⟩ <;> rfl
    rcases hattended.step hscene.kept hscene.employed hsound hstep with ⟨hmore, hattended'⟩
    rw [List.flatten_append, List.flatten_singleton]
    exact ⟨hscene.append hmore, hattended'⟩

end Hall

/-! ## Calm runs -/

namespace Scene

variable {ι : Type} [DecidableEq ι] {s : Scene ι} {i : ι} {events : List (Event ι)}
variable {b : Behaviour} {g : Random.Generator}

/-- Where nobody interrupts or closes the queue, an effect is neither skipped nor cut: all that is
reported of it is that all its frames were shown. -/
theorem Run.completed (hb : b.Faultless) (hrun : Run (fresh b g) events s)
    (hcalm : ∀ ev ∈ events, ev.calls = false) {report : Report} (hmem : .left i report ∈ events) :
    (∃ result, report = .turnedOff result) ∨
      ∃ w, report = .played w (.ok (.completed w.shown)) ∧ w.source.size? = some w.shown := by
  have hopen : ∀ j, .shut j ∉ events := fun j hj => Bool.noConfusion (hcalm _ hj)
  have hdrew : ∀ j e, .drew j e ∉ events := fun j e hj => Bool.noConfusion (hcalm _ hj)
  cases report with
  | turnedOff result => exact .inl ⟨result, rfl⟩
  | skipped t e =>
    -- whoever is skipped has a ticket that some epoch exceeds
    rcases List.append_of_mem hmem with ⟨before, after, rfl⟩
    have hrefused : ∀ s₁ s₂, Step s₁ (.left i (.skipped t e)) s₂ →
        ∃ k p, s₁.desk = some (k, p) ∧ p.refused? = some t := by
      intro s₁ s₂ hstep
      cases hstep with
      | leave hq => exact ⟨i, _, hq, rfl⟩
      | turn hq ht => cases ht
    rcases hrun.refused_exceeded hopen (fun j => hdrew j 0) hrefused with ⟨j, epoch, hj, -⟩
    exact absurd hj (hdrew j epoch)
  | played w result =>
    rcases (hrun.told hb).left i _ hmem with ⟨-, ⟨rfl, hsize⟩ | ⟨rfl, hhalted⟩⟩
    · exact .inr ⟨w, rfl, hsize⟩
    · -- what is cut was exceeded by an epoch, or struck by a call that had drawn one
      rcases hrun.exceeded_or_struckLate hopen (fun j => hdrew j 0) hhalted with
        ⟨j, epoch, hj, -⟩ | ⟨before, later, j, epoch, more, rfl, -, hj, -⟩
      · exact absurd hj (hdrew j epoch)
      · exact absurd (List.mem_append_left _ hj) (hdrew j epoch)

end Scene

namespace Hall

variable {ι : Type}

/-- Requests with tickets that were answered one by one, each by a report that all frames were
shown. -/
theorem exists_order {asked : List (ι × Job)} {told : List (ι × Report)}
    (h : List.Forall₂ (fun a b => a.1 = b.1 ∧ a.2.Serves (.done b.2)) asked told)
    (hasked : ∀ i job, (i, job) ∈ asked → ∃ t e, job = .pushWith t e)
    (htold : ∀ i report, (i, report) ∈ told → (∃ result, report = .turnedOff result) ∨
      ∃ w, report = .played w (.ok (.completed w.shown)) ∧ w.source.size? = some w.shown) :
    ∃ order : List (ι × Show),
      asked = order.map (fun p => (p.1, .pushWith p.2.ticket p.2.effect)) ∧
      told = order.map (fun p => (p.1, .played p.2 (.ok (.completed p.2.shown)))) ∧
      ∀ p ∈ order, p.2.source.size? = some p.2.shown := by
  induction h with
  | nil => exact ⟨[], rfl, rfl, by simp⟩
  | @cons a r asked told har hrest ih =>
    rcases a with ⟨i, job⟩
    rcases r with ⟨j, report⟩
    rcases har with ⟨rfl, hserves⟩
    rcases hasked i job List.mem_cons_self with ⟨t, e, rfl⟩
    rcases ih (fun i job hmem => hasked i job (List.mem_cons_of_mem _ hmem))
      (fun i report hmem => htold i report (List.mem_cons_of_mem _ hmem)) with
      ⟨order, rfl, rfl, hsizes⟩
    rcases htold i report List.mem_cons_self with ⟨result, rfl⟩ | ⟨w, rfl, hsize⟩
    · -- turning the light off is no answer to a request
      cases hserves.1
    · rcases hserves with ⟨⟨⟩, ⟨⟩⟩
      exact ⟨(i, w) :: order, rfl, rfl, List.forall_mem_cons.2 ⟨hsize, hsizes⟩⟩

/-- The lines of all frames of an effect are its bytes. -/
theorem flatMap_lines {w : Show} (hsize : w.effect.size? = some w.shown) :
    (w.lines w.shown).flatMap (· ++ [Sink.newline]) = w.effect.bytes w.seed := by
  simp [Show.lines, Show.source, Effect.bytes, Effect.frames, hsize, List.flatMap_map,
    Color.encode_line]

variable [DecidableEq ι] {b : Behaviour} {g : Random.Generator} {s : Hall ι}
variable {shown : List (List (Scene.Event ι))}

/-- Nothing is lost. However the threads of any number of connections take turns: once all
connections are done, each effect that a connection asks for before its first bad line has had the
queue exactly once and was completed, no request was skipped, and the light has taken all frames of
these effects, in an order that on each connection is that of its lines. -/
theorem Run.plays_all (hb : b.Faultless) {bytes : ι → List UInt8}
    (hrun : Run b g (fun i => Connection.ofBytes (bytes i)) shown s)
    (hended : ∀ i, s.handlers i = .ended) :
    ∃ order : List (ι × Show),
      Scene.operations shown.flatten =
        order.map (fun p => (p.1, .pushWith p.2.ticket p.2.effect)) ∧
      Scene.reports shown.flatten =
        order.map (fun p => (p.1, .played p.2 (.ok (.completed p.2.shown)))) ∧
      (∀ p ∈ order, p.2.effect.size? = some p.2.shown) ∧
      (∀ i, (order.filter (·.1 = i)).map (·.2.effect) =
        (Connection.ofBytes (bytes i)).requests.map (·.2)) ∧
      s.scene.sink.taken.toList = order.flatMap fun p => p.2.effect.bytes p.2.seed := by
  rcases hrun.attended hb with ⟨hscene, hattended⟩
  -- nobody has the queue any more, for whoever has it is waiting
  have hdesk : s.scene.desk = none := by
    cases hdesk : s.scene.desk with
    | none => rfl
    | some d =>
      rcases hscene.employed d.1 d.2 hdesk with ⟨job, hjob, -⟩
      rw [(hattended.threads d.1).doing, hended] at hjob
      cases hjob
  rcases hscene.ordered with ⟨finished, hanswers, hfinished⟩
  rw [hdesk] at hfinished
  subst hfinished
  rcases exists_order hanswers hattended.asked
    (fun i report hmem => hscene.completed hb hattended.calm (Scene.mem_reports.1 hmem)) with
    ⟨order, hoperations, hreports, hsizes⟩
  have hframes : ∀ p ∈ order, p.2.effect.size? = some p.2.shown := fun p hp =>
    (Effect.size?_source _ _).symm.trans (hsizes p hp)
  refine ⟨order, hoperations, hreports, hframes, ?_, ?_⟩
  · -- what a thread was served is all that its connection asks for, since it is done
    intro i
    have hserved := (hattended.threads i).served
    rw [hended] at hserved
    simpa [servedTo, hreports, List.filter_map, List.filterMap_map, Function.comp_def,
      Play.effect?, Handler.requests] using hserved
  · -- nothing is under way, so the lines are the blocks of the reports
    have hunderWay : s.scene.underWay = [] := by simp [Scene.underWay, hdesk]
    rw [(hscene.taken hb).2, (hscene.told hb).written, hunderWay, hreports, List.append_nil,
      List.flatMap_map, List.flatMap_assoc]
    exact List.flatMap_congr fun p hp => flatMap_lines (hframes p hp)

/-- Some turns of the one who has the queue, if none of them has to wait. -/
def turns (i : ι) : Nat → Scene ι → Play → Option (List (Scene.Event ι) × Scene ι × Play)
  | 0, s, p => some ([], s, p)
  | n + 1, s, p => do
    let (ev, s, p) ← s.playNext i Duration.zero false p
    let (events, s, p) ← turns i n { s with desk := some (i, p) } p
    return (ev :: events, s, p)

/-- Turns of the one who has the queue are a part of a run. -/
theorem trace_of_turns {i : ι} (n : Nat) (events : List (Scene.Event ι)) {s s' : Scene ι}
    {p p' : Play} (h : turns i n s p = some (events, s', p')) (hdesk : s.desk = some (i, p))
    (handlers : ι → Handler) :
    Trace Step ⟨s, handlers⟩ (events.map ([·])) ⟨s', handlers⟩ := by
  induction n generalizing s p events with
  | zero =>
    simp only [turns, Option.some.injEq, Prod.mk.injEq] at h
    rcases h with ⟨rfl, rfl, -⟩
    exact .refl
  | succ n ih =>
    simp only [turns, Option.bind_eq_bind, Option.bind_eq_some_iff, Option.pure_def,
      Option.some.injEq, Prod.mk.injEq] at h
    rcases h with ⟨⟨ev, s₁, p₁⟩, hnext, ⟨rest, s₂, p₂⟩, hrest, rfl, rfl, rfl⟩
    have hturn := Scene.Turn.of_playNext hnext
    have hfirst : Step ⟨s, handlers⟩ [ev] ⟨{ s₁ with desk := some (i, p₁) }, handlers⟩ :=
      .within (.turn hdesk hturn) hturn.frame.2.2.1 hturn.frame.2.2.2
    exact (Trace.refl.step hfirst).append (ih _ hrest rfl)

/-- Two connections ask for one colour each, and get their tickets before either is played. The
second one gets the queue first. -/
theorem Run.plays_all_two : ∃ (b : Behaviour) (bytes : Fin 2 → List UInt8)
    (shown : List (List (Scene.Event (Fin 2)))) (s : Hall (Fin 2)), b.Faultless ∧
    Run b (Random.Generator.ofSeed 0) (fun i => Connection.ofBytes (bytes i)) shown s ∧
    (∀ i, s.handlers i = .ended) ∧
    s.scene.sink.taken.toList = Text.encode "4 5 6\n1 2 3\n".toList := by
  let b := Behaviour.ofTables none [] []
  let bytes : Fin 2 → List UInt8 := fun i =>
    if i = 0 then Text.encode "c{1,2,3}\n".toList else Text.encode "color{4,5,6}".toList
  have hb : b.Faultless := Behaviour.faultless_ofTables (by simp)
  have hdone : ∃ shown s,
      Run b (Random.Generator.ofSeed 0) (fun i => Connection.ofBytes (bytes i)) shown s ∧
      (∀ i, s.handlers i = .ended) ∧ Scene.operations shown.flatten =
        [(1, .pushWith ⟨0⟩ (.solid ⟨4, 5, 6⟩)), (0, .pushWith ⟨0⟩ (.solid ⟨1, 2, 3⟩))] := by
    let w₀ : Waiting := ⟨"c{1,2,3}", .solid ⟨1, 2, 3⟩, ⟨0⟩, []⟩
    let w₁ : Waiting := ⟨"color{4,5,6}", .solid ⟨4, 5, 6⟩, ⟨0⟩, []⟩
    let received : List (Scene.Event (Fin 2)) := List.replicate 9 .quiet
    let played (i : Fin 2) (k : Nat) : List (Scene.Event (Fin 2)) :=
      [.quiet, .quiet, .quiet, .judged i k false, .quiet, .quiet, .quiet, .quiet, .quiet]
    have hplain : ∀ events : List (Scene.Event (Fin 2)), (events.map ([·])).flatten = events :=
      List.flatMap_singleton'
    have hnone : Scene.operations received = [] := rfl
    have hnone' : ∀ i k, Scene.operations (played i k) = [] := fun _ _ => rfl
    have hstart : Run b (Random.Generator.ofSeed 0) (fun i => Connection.ofBytes (bytes i)) []
      (fresh b _ _) := .refl
    have hread := (hstart.step (Step.read (i := 0) (w := w₀) rfl rfl)).step
      (Step.read (i := 1) (w := w₁) rfl rfl)
    have hasked := (hread.step (Step.ask (i := 0) (w := w₀) rfl)).step
      (Step.ask (i := 1) (w := w₁) rfl)
    -- the second thread
    have htaken := hasked.step (Step.within (.take (i := 1) rfl rfl) rfl rfl)
    have hreceived := htaken.append (trace_of_turns 9 received rfl rfl _)
    have hwritten := hreceived.step (Step.within (.turn rfl (.write
      (Sink.writeFrame_faultless ((Run.attended hb hreceived).1.taken hb).1 _))) rfl rfl)
    have hplayed := hwritten.append (trace_of_turns 9 (played 1 0) rfl rfl _)
    have hleft := hplayed.step (Step.leave (i := 1) (w := w₁) rfl (.leave rfl))
    -- the first thread
    have htaken' := hleft.step (Step.within (.take (i := 0) rfl rfl) rfl rfl)
    have hreceived' := htaken'.append (trace_of_turns 9 received rfl rfl _)
    have hwritten' := hreceived'.step (Step.within (.turn rfl (.write
      (Sink.writeFrame_faultless ((Run.attended hb hreceived').1.taken hb).1 _))) rfl rfl)
    have hplayed' := hwritten'.append (trace_of_turns 9 (played 0 1) rfl rfl _)
    have hleft' := hplayed'.step (Step.leave (i := 0) (w := w₀) rfl (.leave rfl))
    have hrun := (hleft'.step (Step.finish (i := 0) rfl rfl)).step (Step.finish (i := 1) rfl rfl)
    refine ⟨_, _, hrun, Fin.forall_fin_two.2 ⟨rfl, rfl⟩, ?_⟩
    simp only [List.flatten_append, List.flatten_singleton, Scene.operations_append, hplain,
      hnone, hnone', Scene.operations_singleton, Scene.Event.took?, Option.toList_none,
      Option.toList_some, List.append_nil, List.flatten_nil]
    rfl
  rcases hdone with ⟨shown, s, hrun, hended, hoperations⟩
  rcases Run.plays_all hb hrun hended with ⟨order, hasked, -, -, -, hbytes⟩
  rw [hoperations] at hasked
  rcases List.map_eq_cons_iff.1 hasked.symm with ⟨p, rest, rfl, hp, hrest⟩
  rcases List.map_eq_singleton_iff.1 hrest with ⟨p', rfl, hp'⟩
  have heffect := (Job.pushWith.inj (Prod.mk.inj hp).2).2
  have heffect' := (Job.pushWith.inj (Prod.mk.inj hp').2).2
  refine ⟨b, bytes, shown, s, hb, hrun, hended, hbytes.trans ?_⟩
  simp only [List.flatMap_cons, List.flatMap_nil, heffect, heffect']
  rfl

end Hall

end Beacon
