import Beacon.Proofs.Queue.Pacing
import Beacon.Proofs.Sink.Attempts
import Beacon.Proofs.Trace

/-!
# The lines of a queue whose light fails

A queue can be used on after its light has failed: another request that has waited for it is played,
or the light is turned off. What its light is given by one use after the other (`Queue.Used`), each
use stopping at the first frame that fails, settles every line that the light ever gets. A line is
ended by a frame that was taken whole, and it begins with whatever is left of the frames that failed
since the line before it. So the light gets whole frames only, each in a line of its own, exactly if
no frame is taken whole after one that was torn; as it is, as long as nothing is done after the
first failure (`Queue.Reached.lines_whole_iff`).

1. **One use**: the frames that an operation gives to the light, and its failure (`Queue.Gave`).
2. **Runs**: what is known of the light after any uses, the last of which may still be under way
   (`Queue.Told`).
3. **Lines**: what they are made of, and a run that joins two frames into one line.
-/

namespace Beacon

namespace Queue

/-! ## One use -/

/-- One use of a queue, as its light sees it: the colours of the frames that it is given, and the
failure that is the answer, if it fails. -/
structure Use where
  colors : List Color
  failure : Option IoError

/-- The colours of the first frames of an effect that starts on a queue: as many as have been begun
until the queue is in another state. -/
def begunColors (e : Effect) (q q' : Queue) : List Color :=
  ((q.sourceOf e).take (q'.begun.size - q.begun.size)).map Frame.color

/-- A queue is used once: an effect is requested, now or by an earlier ticket, or the light is
turned off, and meanwhile others may act on the panel. Between two uses they may do anything to
it. -/
inductive Used : Queue → Use → Queue → Prop
  | push {σ : Type} {a : Agenda σ} {e : Effect} {q q' : Queue} {s s' : σ}
      {result : Except IoError Outcome} (hpush : q.push a e s = some (result, q', s')) :
      Used q ⟨begunColors e q q', failure? result⟩ q'
  | pushWith {σ : Type} {a : Agenda σ} {ticket : Ticket} {e : Effect} {q q' : Queue} {s s' : σ}
      {result : Except IoError Outcome} (hpush : q.pushWith a ticket e s = some (result, q', s')) :
      Used q ⟨begunColors e q q', failure? result⟩ q'
  | turnOff {σ : Type} {a : Agenda σ} {q q' : Queue} {s s' : σ} {result : Except IoError Unit}
      (hdark : q.turnOff a s = (result, q', s')) : Used q ⟨[Color.black], failure? result⟩ q'
  | meddled {q : Queue} (panel : Panel) : Used q ⟨[], none⟩ { q with panel }

/-- A light is given the frames of a use one after the other. None of them fails but the last one,
and that one exactly with the failure of the use. -/
structure Gave (s : Sink) (use : Use) (s' : Sink) : Prop where
  sink : s' = s.afterAll use.colors
  failure : (s.attempts use.colors).filterMap Attempt.error? = use.failure.toList
  early : ∀ t ∈ (s.attempts use.colors).dropLast, t.error? = none

theorem Gave.nothing (s : Sink) : Gave s ⟨[], none⟩ s :=
  ⟨rfl, rfl, fun _ ht => absurd ht List.not_mem_nil⟩

/-- Frames that are all written are a use that does not fail. -/
theorem Gave.of_written {s s' : Sink} {colors : List Color}
    (h : s.writeFrames colors = (.ok (), s')) : Gave s ⟨colors, none⟩ s' := by
  obtain ⟨hafter, hnone⟩ := Sink.error?_of_writeFrames (congrArg Prod.fst h)
  refine ⟨?_, ?_, ?_⟩
  · rw [hafter, h]
  · exact List.filterMap_eq_nil_iff.2 hnone
  · intro t ht
    exact hnone t (List.dropLast_subset _ ht)

/-- One more frame after those that have not failed is the last one of a use, whatever becomes of
it. -/
theorem Gave.concat {s s₁ s' : Sink} {colors : List Color} {c : Color}
    {answer : Except IoError Unit} (h : Gave s ⟨colors, none⟩ s₁)
    (hlast : s₁.writeFrame c = (answer, s')) :
    Gave s ⟨colors ++ [c], failure? answer⟩ s' := by
  have hfirst : s₁ = s.afterAll colors := h.sink
  have hattempts : s.attempts (colors ++ [c]) = s.attempts colors ++ [s₁.attempt c] := by
    rw [Sink.attempts_append, ← hfirst]
    rfl
  have herror : (s₁.attempt c).error? = failure? answer := by
    show failure? (s₁.writeFrame c).1 = failure? answer
    rw [hlast]
  have hnone : (s.attempts colors).filterMap Attempt.error? = [] := h.failure
  refine ⟨?_, ?_, ?_⟩
  · rw [Sink.afterAll_append, ← hfirst, Sink.afterAll_cons, hlast]
    rfl
  · rw [hattempts, List.filterMap_append, hnone]
    cases hanswer : failure? answer <;> simp [herror, hanswer]
  · rw [hattempts, List.dropLast_concat]
    exact List.filterMap_eq_nil_iff.1 hnone

variable {σ : Type} {a : Agenda σ} {q q' mid : Queue} {x x' y : σ} {e : Effect} {ticket : Ticket}
variable {source rest : Source Random.Generator} {frames : List Frame} {uses : List Use} {use : Use}

/-- A frame is given to the light by writing it. -/
theorem writeFrame_of_display {c : Color} {answer : Except IoError Unit}
    (h : q.display a c x = (answer, q', x')) : q.sink.writeFrame c = (answer, q'.sink) := by
  have hanswer : (q.sink.writeFrame c).1 = answer := congrArg Prod.fst h
  have hsink : (q.sink.writeFrame c).2 = q'.sink := congrArg (·.2.1.sink) h
  exact Prod.ext hanswer hsink

/-- As many frames have been begun as have been shown. -/
theorem Shows.begun_size (h : Shows a frames source q x rest mid y) :
    mid.begun.size = q.begun.size + frames.length := by
  obtain ⟨times, hlength, hbegun, -⟩ := h.spaced
  rw [← Array.length_toList, hbegun, List.length_append, hlength, Array.length_toList]

theorem Shows.gave (h : Shows a frames source q x rest mid y) :
    Gave q.sink ⟨frames.map Frame.color, none⟩ mid.sink :=
  .of_written h.showed.written

/-- Starting an effect does nothing to the light. -/
theorem sink_start {started : Queue} (h : q.start ticket e = some (source, started)) :
    started.sink = q.sink := by
  unfold start at h
  split at h
  · cases h
  · obtain ⟨-, rfl⟩ := Prod.mk.inj (Option.some.inj h)
    rfl

/-- A request gives frames of its effect to the light, up to the first that fails. -/
theorem gave_pushWith {result : Except IoError Outcome}
    (hpush : q.pushWith a ticket e x = some (result, q', x')) :
    Gave q.sink ⟨begunColors e q q', failure? result⟩ q'.sink := by
  cases hstale : q.panel.control.isStale ticket with
  | true =>
    rw [pushWith_of_stale hstale] at hpush
    simp only [Option.some.injEq, Prod.mk.injEq] at hpush
    obtain ⟨rfl, rfl, -⟩ := hpush
    have hnone : begunColors e q (q.skip e.name) = [] := by
      show ((q.sourceOf e).take (q.begun.size - q.begun.size)).map Frame.color = []
      rw [Nat.sub_self]
      rfl
    rw [hnone]
    exact .nothing q.sink
  | false =>
    obtain ⟨frames, rest, mid, y, ended, hshows, hends, rfl⟩ :=
      (pushWith_eq_some_iff hstale).1 hpush
    have hgave : Gave q.sink ⟨frames.map Frame.color, none⟩ mid.sink := hshows.gave
    have hshown : mid.begun.size = q.begun.size + frames.length := hshows.begun_size
    have hnoted : (ended.finish e.name result).begun = ended.begun := by cases result <;> rfl
    obtain ⟨htake, hskip⟩ := hshows.take_eq
    rw [sink_finish]
    -- without a failure the light was given what was shown, otherwise one frame more
    have hcolors (hended : ended = mid) :
        begunColors e q (ended.finish e.name result) = frames.map Frame.color := by
      rw [begunColors, hnoted, hended, hshown, Nat.add_sub_cancel_left, htake]
    cases hends with
    | stopped | finished =>
      rw [hcolors rfl]
      exact hgave
    | @failed frame after err _ _ hs hnext hdark =>
      obtain ⟨time, -, -, hbegun⟩ := exists_begun_display hdark
      have hall : begunColors e q (ended.finish e.name (.error err)) =
          frames.map Frame.color ++ [frame.color] := by
        have hmore := (Source.skip_take_succ hskip hnext).2
        rw [htake] at hmore
        rw [begunColors, hnoted, hbegun, Array.size_push, hshown, Nat.add_assoc,
          Nat.add_sub_cancel_left, hmore, List.map_append, List.map_singleton]
      have hlast := hgave.concat (writeFrame_of_display hdark)
      rw [hall]
      exact hlast

/-- What is done with a queue gives frames to its light, and nothing else reaches it. -/
theorem Used.gave (h : Used q use q') : Gave q.sink use q'.sink := by
  cases h with
  | push hpush => exact gave_pushWith hpush
  | pushWith hpush => exact gave_pushWith hpush
  | turnOff hdark => exact (Gave.nothing q.sink).concat (writeFrame_of_display hdark)
  | meddled panel => exact .nothing q.sink

/-! ## Runs -/

/-- A light that can be seen while a queue is used: between two uses, or in the middle of an effect,
after some frames of it. What is taken of a frame while it is being written is all there as soon as
it is written or has failed, so nothing is missed in between. -/
inductive Reached (q₀ : Queue) : List Use → Sink → Prop
  | between {uses : List Use} {q : Queue} (h : Trace Used q₀ uses q) : Reached q₀ uses q.sink
  | amid {σ : Type} {a : Agenda σ} {uses : List Use} {ticket : Ticket} {e : Effect}
      {frames : List Frame} {source rest : Source Random.Generator} {q started mid : Queue}
      {x y : σ} (h : Trace Used q₀ uses q) (hstart : q.start ticket e = some (source, started))
      (hshows : Shows a frames source started x rest mid y) :
      Reached q₀ (uses ++ [⟨frames.map Frame.color, none⟩]) mid.sink

/-- What is known of a light after some uses: it was given their frames, these have failed as the
uses have, and as long as no use comes after one that failed, no frame comes after one that did. -/
structure Told (s₀ : Sink) (uses : List Use) (s : Sink) : Prop where
  sink : s = s₀.afterAll (uses.flatMap Use.colors)
  failures : (s₀.attempts (uses.flatMap Use.colors)).filterMap Attempt.error? =
    uses.filterMap Use.failure
  early : (∀ use ∈ uses.dropLast, use.failure = none) →
    ∀ t ∈ (s₀.attempts (uses.flatMap Use.colors)).dropLast, t.error? = none

variable {s₀ s s' : Sink}

theorem Told.start (s₀ : Sink) : Told s₀ [] s₀ :=
  ⟨rfl, rfl, fun _ _ ht => absurd ht List.not_mem_nil⟩

/-- One more use keeps what is known. -/
theorem Told.step (h : Told s₀ uses s) (hgave : Gave s use s') : Told s₀ (uses ++ [use]) s' := by
  have hcolors : (uses ++ [use]).flatMap Use.colors = uses.flatMap Use.colors ++ use.colors := by
    rw [List.flatMap_append, List.flatMap_singleton]
  have hattempts : s₀.attempts ((uses ++ [use]).flatMap Use.colors) =
      s₀.attempts (uses.flatMap Use.colors) ++ s.attempts use.colors := by
    rw [hcolors, Sink.attempts_append, ← h.sink]
  refine ⟨?_, ?_, ?_⟩
  · rw [hcolors, Sink.afterAll_append, ← h.sink]
    exact hgave.sink
  · rw [hattempts, List.filterMap_append, h.failures, hgave.failure, List.filterMap_append]
    cases hfailure : use.failure <;> simp [hfailure]
  · -- nothing that came before the last use has failed, and of its own frames only the last one may
    intro hnone
    rw [List.dropLast_concat] at hnone
    have hbefore : ∀ t ∈ s₀.attempts (uses.flatMap Use.colors), t.error? = none := by
      apply List.filterMap_eq_nil_iff.1
      rw [h.failures]
      exact List.filterMap_eq_nil_iff.2 hnone
    intro t ht
    rw [hattempts, List.dropLast_append] at ht
    split at ht
    · exact hbefore t (List.dropLast_subset _ ht)
    · rcases List.mem_append.1 ht with hold | hnew
      · exact hbefore t hold
      · exact hgave.early t hnew

theorem told_of_trace {q₀ : Queue} (h : Trace Used q₀ uses q) : Told q₀.sink uses q.sink := by
  induction h with
  | refl => exact .start q₀.sink
  | step _ hstep ih => exact ih.step hstep.gave

theorem Reached.told {q₀ : Queue} (h : Reached q₀ uses s) : Told q₀.sink uses s := by
  cases h with
  | between h => exact told_of_trace h
  | amid h hstart hshows =>
    have hgave := hshows.gave
    rw [sink_start hstart] at hgave
    exact (told_of_trace h).step hgave

/-! ## Lines -/

/-- A new queue whose first request fails, and whose light is then turned off. -/
theorem exists_reached_of_failed (start : Queue) (e : Effect) (err : IoError) (colors : List Color)
    (h : (start.push .idle e ()).map (fun x => (failure? x.1, begunColors e start x.2.1,
      failure? (x.2.1.turnOff .idle ()).1)) = some (some err, colors, none)) :
    ∃ q₁ q₂, start.push .idle e () = some (.error err, q₁, ()) ∧
      q₁.turnOff .idle () = (.ok (), q₂, ()) ∧
      Reached start [⟨colors, some err⟩, ⟨[Color.black], none⟩] q₂.sink := by
  obtain ⟨⟨result, q₁, ⟨⟩⟩, hpush, hseen⟩ := Option.map_eq_some_iff.1 h
  simp only [Prod.mk.injEq] at hseen
  obtain ⟨hfailed, hcolors, hcalm⟩ := hseen
  rcases hdark : q₁.turnOff .idle () with ⟨answer, q₂, ⟨⟩⟩
  have hnone : failure? answer = none := by rwa [hdark] at hcalm
  obtain ⟨⟨⟩, rfl⟩ := failure?_eq_none_iff.1 hnone
  have hfirst : Used start ⟨colors, some err⟩ q₁ := by
    have hused := Used.push hpush
    rwa [hfailed, hcolors] at hused
  have hthen : Used q₁ ⟨[Color.black], none⟩ q₂ := .turnOff hdark
  rw [failure?_eq_some_iff.1 hfailed] at hpush
  exact ⟨q₁, q₂, hpush, hdark, .between ((Trace.refl.step hfirst).step hthen)⟩

/-- The light of a new queue, whatever it answers to its calls (any answers to those that are made
come from a behaviour, `Behaviour.exists_answers`) and whatever is done with the queue, also after
it has failed. It is given the frames of the uses in order, and those that fail are the
failures that the uses answer. A line that it gets is ended by a frame that was taken whole, and
begins with what is left of the frames that failed since the line before it. So its lines are just
those of the frames that were taken whole exactly if no such frame comes after one that was torn; in
particular, each of them is the line of one frame as long as nothing is done after the first
failure. -/
theorem Reached.lines_whole_iff {b : Behaviour} {g : Random.Generator}
    (h : Reached (fresh b g) uses s) :
    let colors := uses.flatMap Use.colors
    let tries := (Sink.fresh b).attempts colors
    s = (Sink.fresh b).afterAll colors ∧
    tries.filterMap Attempt.error? = uses.filterMap Use.failure ∧
    s.lines = Attempt.lines [] tries ∧ s.pending = Attempt.remains [] tries ∧
    (s.lines = (tries.filter fun t => t.Whole).map (fun t => t.color.lineBytes) ↔
      tries.Pairwise fun t u => t.Torn → ¬ u.Whole) ∧
    (∀ line ∈ s.lines, ∃ t ∈ tries, t.Whole ∧ ∃ before, line = before ++ t.color.lineBytes ∧
      (before ≠ [] → ∀ d : Color, line = d.lineBytes →
        d.red ≠ t.color.red ∧ d.green = t.color.green ∧ d.blue = t.color.blue)) ∧
    ((∀ use ∈ uses.dropLast, use.failure = none) →
      ∀ line ∈ s.lines, ∃ c ∈ colors, line = c.lineBytes) := by
  intro colors tries
  have htold : Told (Sink.fresh b) uses s := h.told
  have hparts := Sink.parts_afterAll b colors
  rw [← htold.sink] at hparts
  have hlines : s.lines = Attempt.lines [] tries := by
    rw [Sink.lines, hparts, List.dropLast_concat]
  have hpending : s.pending = Attempt.remains [] tries := by
    rw [Sink.pending, hparts, List.getLastD_concat]
  have hwhole : s.lines = (tries.filter fun t => t.Whole).map (fun t => t.color.lineBytes) ↔
      tries.Pairwise fun t u => t.Torn → ¬ u.Whole := by
    rw [hlines, Attempt.lines_eq_iff]
    -- a new light has nothing before its first frame
    exact and_iff_right fun hne => absurd rfl hne
  refine ⟨htold.sink, htold.failures, hlines, hpending, hwhole, ?_, ?_⟩
  · -- what is before a line that was ended is left of frames that failed
    intro line hline
    rw [hlines] at hline
    obtain ⟨t, ht, htaken, before, rfl⟩ := Attempt.exists_of_mem_lines hline
    refine ⟨t, ht, htaken, before, rfl, ?_⟩
    intro hne d hd
    exact Color.red_ne_of_lineBytes_eq hne hd.symm
  · -- the only frame that may be torn is the last one, so none is whole after it
    intro hnone line hline
    have hcalm := Attempt.pairwise_of_dropLast (htold.early hnone)
    rw [hwhole.2 hcalm] at hline
    obtain ⟨t, ht, rfl⟩ := List.mem_map.1 hline
    have hmem : t.color ∈ tries.map Attempt.color :=
      List.mem_map_of_mem (List.mem_filter.1 ht).1
    rw [Sink.map_color_attempts] at hmem
    exact ⟨t.color, hmem, rfl⟩

/-- A request whose only frame is taken whole but cannot be flushed has failed; yet when the light
is turned off after it, two whole lines have been taken. -/
theorem Reached.lines_whole_iff_unflushed :
    let slow : IoError := ⟨.timedOut, "slow"⟩
    let b := Behaviour.ofTables (some 3) [] [(1, slow)]
    let start := fresh b (Random.Generator.ofSeed 0)
    let uses : List Use := [⟨[⟨255, 0, 0⟩], some slow⟩, ⟨[Color.black], none⟩]
    ∃ q₁ q₂, start.push .idle (.solid ⟨255, 0, 0⟩) () = some (.error slow, q₁, ()) ∧
      q₁.turnOff .idle () = (.ok (), q₂, ()) ∧ Reached start uses q₂.sink ∧
      q₂.sink.lines = [Color.lineBytes ⟨255, 0, 0⟩, Color.black.lineBytes] ∧
      q₂.sink.pending = [] := by
  intro slow b start uses
  obtain ⟨q₁, q₂, hpush, hdark, hreached⟩ :=
    exists_reached_of_failed start (.solid ⟨255, 0, 0⟩) slow [⟨255, 0, 0⟩] (by decide +kernel)
  obtain ⟨-, -, -, hpending, hwhole, -, -⟩ := hreached.lines_whole_iff
  refine ⟨q₁, q₂, hpush, hdark, hreached, ?_, ?_⟩
  · rw [hwhole.2 (by decide +kernel)]
    decide +kernel
  · rw [hpending]
    decide +kernel

/-- When the light is turned off after a request has failed in the middle of a line, what was taken
of that line and the black frame come in one line, which is that of no colour. -/
theorem Reached.joins_two_frames :
    let slow : IoError := ⟨.timedOut, "slow"⟩
    let b := Behaviour.ofTables (some 3) [(2, .fails slow)] []
    let start := fresh b (Random.Generator.ofSeed 0)
    let uses : List Use := [⟨[⟨255, 0, 0⟩], some slow⟩, ⟨[Color.black], none⟩]
    ∃ q₁ q₂, start.push .idle (.solid ⟨255, 0, 0⟩) () = some (.error slow, q₁, ()) ∧
      q₁.turnOff .idle () = (.ok (), q₂, ()) ∧ Reached start uses q₂.sink ∧
      q₂.sink.lines = [Text.encode "2550 0 0".toList] ∧
      ∀ c : Color, c.lineBytes ∉ q₂.sink.lines := by
  intro slow b start uses
  obtain ⟨q₁, q₂, hpush, hdark, hreached⟩ :=
    exists_reached_of_failed start (.solid ⟨255, 0, 0⟩) slow [⟨255, 0, 0⟩] (by decide +kernel)
  have hlines : q₂.sink.lines = [Text.encode "2550 0 0".toList] := by
    rw [hreached.told.sink]
    decide +kernel
  refine ⟨q₁, q₂, hpush, hdark, hreached, hlines, ?_⟩
  intro c hc
  rw [hlines, List.mem_singleton] at hc
  have hread := c.ofLine?_lineBytes
  rw [hc] at hread
  have hnone : Color.ofLine? (Text.encode "2550 0 0".toList) = none := by decide +kernel
  cases hnone.symm.trans hread

end Queue

end Beacon
