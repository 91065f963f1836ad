import Beacon.Proofs.Queue.Draining
import Beacon.Proofs.Scene.Requests

/-!
# Requests that nobody disturbs

While a queue plays a request in one go, an agenda may do something that does not concern it, such
as letting others arrive. As long as it leaves the control alone, what the queue does is a run of
the scene in which no thread begins or ends anything, not even a call (`Scene.Rests.plays`).
-/

namespace Beacon

/-- An agenda that leaves the control alone. -/
def Agenda.Harmless {σ : Type} (a : Agenda σ) : Prop :=
  ∀ line count x, (a.throughout line count x).1.control = x.1.control

/-- The control is the same after a frame, whatever becomes of it. -/
theorem Agenda.Harmless.control_display {σ : Type} {a : Agenda σ} (ha : a.Harmless) {c : Color}
    {answer : Except IoError Unit} {q q' : Queue} {st st' : σ}
    (h : q.display a c st = (answer, q', st')) : q'.panel.control = q.panel.control := by
  obtain ⟨n, -, hpanel⟩ := Queue.exists_throughout_display h
  have hkept := ha q.sink.completed n (q.panel, st)
  rwa [← hpanel] at hkept

namespace Scene

variable {ι σ : Type} [DecidableEq ι] {a : Agenda σ} {i : ι} {s : Scene ι} {w : Show} {t : Ticket}
variable {source rest : Source Random.Generator} {frame : Frame} {frames : List Frame} {e : Effect}
variable {q q' : Queue} {st st' : σ} {result : Except IoError Outcome}

/-- A frame that can be written is written, and then it is to be held. -/
theorem Follows.written (h : Follows i w (.write frame) source q s) (ha : a.Harmless)
    (hlit : q.display a frame.color st = (.ok (), q', st')) :
    ∃ ev s', Inner s ev s' ∧
      Follows i { w with shown := w.shown + 1 } (.hold frame.delay) source q' s' := by
  have hcontrol := h.control.trans (ha.control_display hlit).symm
  simp only [Queue.display, Prod.mk.injEq] at hlit
  obtain ⟨hok, rfl, -⟩ := hlit
  rw [← h.sink] at hok
  refine ⟨_, _, ⟨.turn h.desk (.write hok), rfl, rfl⟩, ?_⟩
  exact ⟨by rw [h.sink], h.generator, hcontrol, h.active, h.latch, rfl, h.ready⟩

/-- A frame that cannot be written ends its effect. -/
theorem Follows.failed (h : Follows i w (.write frame) source q s) (ha : a.Harmless) {err : IoError}
    (hdark : q.display a frame.color st = (.error err, q', st')) :
    ∃ ev s', Inner s ev s' ∧ Follows i w (.clear (.error err)) source q' s' := by
  have hcontrol := h.control.trans (ha.control_display hdark).symm
  simp only [Queue.display, Prod.mk.injEq] at hdark
  obtain ⟨herror, rfl, -⟩ := hdark
  rw [← h.sink] at herror
  refine ⟨_, _, ⟨.turn h.desk (.writeFails herror), rfl, rfl⟩, ?_⟩
  exact ⟨by rw [h.sink], h.generator, hcontrol, h.active, h.latch, rfl, h.ready⟩

/-- A frame that has been held is old enough for the next one. -/
theorem Follows.held {delay : Duration} (h : Follows i w (.hold delay) source q s)
    (hgoes : q.stopped = false) (time : Nat) :
    ∃ ev s', Inner s ev s' ∧ Follows i w .look source (q.hold delay time) s' := by
  have hdown : (s.token w).cancelled = false := h.cancelled_eq.trans hgoes
  have hold : (Pace.remaining delay delay).nanos = 0 := Nat.sub_self _
  refine ⟨_, _, ⟨.turn h.desk (.holdOver delay hdown hold), rfl, rfl⟩, ?_⟩
  rw [Queue.hold, hgoes]
  exact (h.move .look).tick _

/-- Frames are shown one after the other. -/
theorem Follows.shows (ha : a.Harmless) (hshows : Queue.Shows a frames source q st rest q' st')
    (h : Follows i w .look source q s) :
    ∃ events s', Trace Inner s events s' ∧
      Follows i { w with shown := w.shown + frames.length } .look rest q' s' := by
  induction hshows generalizing w s with
  | nil => exact ⟨[], s, .refl, h⟩
  | @cons frame frames source after rest q q₁ q' st st₁ st' hgoes hnext hlit hmore ih =>
    obtain ⟨events, s₁, hfetch, hwrite⟩ := h.fetch hgoes hnext
    obtain ⟨ev, s₂, hwritten, hhold⟩ := hwrite.written ha hlit
    have hgoes' : q₁.stopped = false := by rwa [Queue.stopped, ha.control_display hlit]
    obtain ⟨ev', s₃, hheld, hlook⟩ := hhold.held hgoes' q₁.clock.now
    obtain ⟨more, s', hrun, hfollows⟩ := ih hlook
    refine ⟨_, s', ((hfetch.inner.step hwritten).step hheld).append hrun, ?_⟩
    rwa [List.length_cons, Nat.add_comm frames.length, ← Nat.add_assoc]

/-- An effect ends that has been shown so far. -/
theorem Follows.ends (ha : a.Harmless) (hends : Queue.Ends a w.shown source q st result q' st')
    (h : Follows i w .look source q s) :
    ∃ events s' rest, Trace Inner s events s' ∧ Follows i w (.clear result) rest q' s' := by
  cases hends with
  | stopped hstopped =>
    obtain ⟨events, s', hrun, hfollows⟩ := h.stop (.inl rfl) hstopped
    exact ⟨events, s', source, hrun.inner, hfollows⟩
  | finished hgoes hnext =>
    obtain ⟨events, s', hrun, hfollows⟩ := h.complete hgoes hnext
    exact ⟨events, s', source, hrun.inner, hfollows⟩
  | @failed frame rest _ _ _ hgoes hnext hdark =>
    obtain ⟨events, s₁, hfetch, hwrite⟩ := h.fetch hgoes hnext
    obtain ⟨ev, s', hfails, hfollows⟩ := hwrite.failed ha hdark
    exact ⟨_, s', rest, hfetch.inner.step hfails, hfollows⟩

/-- What a queue plays in one go while nobody changes the control is a run of the scene in which no
thread begins or ends anything. -/
theorem Rests.plays (ha : a.Harmless) (h : Rests q s) (hd : s.desk = some (i, .checkClosed t e))
    (hpush : q.pushWith a t e st = some (result, q', st')) :
    ∃ events report s', Trace Inner s events s' ∧ report.Answers t e result ∧ Rests q' s' ∧
      s'.desk = some (i, .done report) := by
  cases hstale : q.panel.control.isStale t with
  | true =>
    -- the player finds the request stale, and leaves with nothing changed
    rw [Queue.pushWith_of_stale hstale] at hpush
    simp only [Option.some.injEq, Prod.mk.injEq] at hpush
    obtain ⟨rfl, rfl, -⟩ := hpush
    rw [← h.control] at hstale
    obtain ⟨events, hrun⟩ := exists_run_refuse hd hstale
    exact ⟨events, .skipped t e, _, hrun.inner, ⟨rfl, rfl, rfl⟩,
      ⟨h.sink, h.generator, h.control, h.active, h.latch⟩, rfl⟩
  | false =>
    -- the effect is started, shown, ended, and taken out of the slot
    obtain ⟨frames, rest, mid, st₁, ended, hshows, hends, rfl⟩ :=
      (Queue.pushWith_eq_some_iff hstale).1 hpush
    rw [← h.control] at hstale
    obtain ⟨events, s₁, hstart, hlook⟩ := h.start hd hstale
    rw [h.generator] at hlook
    obtain ⟨shown, s₂, hshown, hlook'⟩ := hlook.shows ha hshows
    have hcount : (s.opening t e).shown + frames.length = frames.length := Nat.zero_add _
    rw [← hcount] at hends
    obtain ⟨last, s₃, left, hended, hclear⟩ := hlook'.ends ha hends
    obtain ⟨closing, s', hfinish, hrests, hdone⟩ := hclear.finish e.name
    exact ⟨_, .played { s.opening t e with shown := _ } result, s',
      ((hstart.inner.append hshown).append hended).append hfinish.inner, ⟨rfl, rfl, rfl⟩, hrests,
      hdone⟩

end Scene

end Beacon
