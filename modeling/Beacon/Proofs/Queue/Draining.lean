import Beacon.Proofs.Queue.Playing
import Beacon.Proofs.Sink.Writing

/-!
# Showing frames on any light, whatever happens meanwhile

What `Queue.drain` comes to, said without its fuel: some frames are shown one after the other
(`Shows`), and then the effect ends, because it was stopped, is over, or a frame could not be
written (`Ends`). These two settle the answer (`drain_eq_some_iff`), and there is always enough
fuel: a request has no answer only if its effect never ends (`pushWith_eq_some_iff`).

What the shown frames leave behind is `Showed`: their lines on the light, and on the panel what the
agenda has for these lines.
-/

namespace Beacon

/-! ## Agendas, line by line -/

namespace Agenda

variable {σ : Type} (a : Agenda σ)

theorem throughout_add (line m n : Nat) (x : Panel × σ) :
    a.throughout line (m + n) x = a.throughout (line + m) n (a.throughout line m x) := by
  induction m generalizing line x with
  | zero => rw [Nat.zero_add, Nat.add_zero, throughout]
  | succ m ih =>
    rw [Nat.add_right_comm, throughout, ih, throughout, Nat.add_right_comm line 1 m, Nat.add_assoc]

/-- The last one of some lines comes after the others. -/
theorem throughout_succ (line n : Nat) (x : Panel × σ) :
    a.throughout line (n + 1) x = a.during (line + n + 1) (a.throughout line n x) := by
  rw [throughout_add]
  rfl

/-- Nothing happens after the last line of an agenda. -/
theorem during_of_lt {line : Nat} (h : a.last < line) (x : Panel × σ) : a.during line x = x :=
  if_neg (Nat.not_le.2 h)

end Agenda

namespace Queue

variable {σ : Type} {a : Agenda σ} {q q₁ q' : Queue} {s s₁ s' : σ}
variable {source rest : Source Random.Generator} {frames : List Frame}
variable {result : Except IoError Outcome} {shown : Nat}

@[simp] theorem sink_hold (delay : Duration) (written : Nat) (q : Queue) :
    (q.hold delay written).sink = q.sink := by
  unfold hold
  split <;> rfl

@[simp] theorem panel_hold (delay : Duration) (written : Nat) (q : Queue) :
    (q.hold delay written).panel = q.panel := (wrote_hold delay written q).panel

@[simp] theorem generator_hold (delay : Duration) (written : Nat) (q : Queue) :
    (q.hold delay written).generator = q.generator := (wrote_hold delay written q).generator

/-! ## Frames that are shown -/

/-- Frames of a source are shown one after the other: while the effect is not stopped the next one
is written, and then it is held. -/
inductive Shows (a : Agenda σ) : List Frame → Source Random.Generator → Queue → σ →
    Source Random.Generator → Queue → σ → Prop
  | nil {source : Source Random.Generator} {q : Queue} {s : σ} : Shows a [] source q s source q s
  | cons {frame : Frame} {frames : List Frame} {source after rest : Source Random.Generator}
      {q q₁ q' : Queue} {s s₁ s' : σ} (hs : q.stopped = false)
      (hnext : source.next = some (frame, after))
      (hlit : q.display a frame.color s = (.ok (), q₁, s₁))
      (hmore : Shows a frames after (q₁.hold frame.delay q₁.clock.now) s₁ rest q' s') :
      Shows a (frame :: frames) source q s rest q' s'

/-- How the effect ends that is being played. -/
inductive Ends (a : Agenda σ) (shown : Nat) (source : Source Random.Generator) (q : Queue) (s : σ) :
    Except IoError Outcome → Queue → σ → Prop
  | stopped (hs : q.stopped = true) : Ends a shown source q s (.ok (.interrupted shown)) q s
  | finished (hs : q.stopped = false) (hnext : source.next = none) :
      Ends a shown source q s (.ok (.completed shown)) q s
  | failed {frame : Frame} {rest : Source Random.Generator} {e : IoError} {q' : Queue} {s' : σ}
      (hs : q.stopped = false) (hnext : source.next = some (frame, rest))
      (hdark : q.display a frame.color s = (.error e, q', s')) :
      Ends a shown source q s (.error e) q' s'

theorem turn_eq_ended_iff :
    q.turn a shown source s = (.ended result, q', s') ↔ Ends a shown source q s result q' s' := by
  constructor
  · intro h
    unfold turn at h
    split at h
    · next hs =>
      simp only [Prod.mk.injEq, Turn.ended.injEq] at h
      rcases h with ⟨rfl, rfl, rfl⟩
      exact .stopped hs
    · next hs =>
      have hs : q.stopped = false := by simpa using hs
      split at h
      · next hnext =>
        simp only [Prod.mk.injEq, Turn.ended.injEq] at h
        rcases h with ⟨rfl, rfl, rfl⟩
        exact .finished hs hnext
      · next frame rest hnext =>
        split at h
        · next hdark =>
          simp only [Prod.mk.injEq, Turn.ended.injEq] at h
          rcases h with ⟨rfl, rfl, rfl⟩
          exact .failed hs hnext hdark
        · cases (Prod.mk.inj h).1
  · intro h
    cases h with
    | stopped hs => simp [turn, hs]
    | finished hs hnext => simp [turn, hs, hnext]
    | failed hs hnext hdark => simp [turn, hs, hnext, hdark]

/-- After the frames that are shown, draining goes on with the others. -/
theorem Shows.drain_eq (h : Shows a frames source q s rest q' s') (fuel shown : Nat) :
    drain a (frames.length + fuel) shown source q s =
      drain a fuel (shown + frames.length) rest q' s' := by
  induction h generalizing shown with
  | nil => rw [List.length_nil, Nat.zero_add, Nat.add_zero]
  | @cons frame frames source after rest q q₁ q' s s₁ s' hs hnext hlit hmore ih =>
    have hturn : q.turn a shown source s = (.shown frame after, q₁, s₁) := by
      simp [turn, hs, hnext, hlit]
    rw [List.length_cons, Nat.add_right_comm, drain, hturn]
    simp only
    rw [ih, Nat.add_assoc, Nat.add_comm 1]

/-- Draining comes to an answer by showing some frames, fewer than there is fuel, and then
ending. -/
theorem drain_eq_some_iff {fuel : Nat} :
    drain a fuel shown source q s = some (result, q', s') ↔
      ∃ frames rest mid t, frames.length < fuel ∧ Shows a frames source q s rest mid t ∧
        Ends a (shown + frames.length) rest mid t result q' s' := by
  constructor
  · intro h
    induction fuel generalizing shown source q s with
    | zero => cases h
    | succ fuel ih =>
      rw [drain] at h
      split at h
      · next result₁ q₁ s₁ hturn =>
        simp only [Option.some.injEq, Prod.mk.injEq] at h
        rcases h with ⟨rfl, rfl, rfl⟩
        -- the first turn ends it, and no frame was shown
        exact ⟨[], source, q, s, Nat.succ_pos _, .nil, turn_eq_ended_iff.1 hturn⟩
      · next frame after q₁ s₁ hturn =>
        -- the first turn shows a frame, and the others are shown by what is left
        rcases ih h with ⟨frames, rest, mid, t, hlt, hshows, hends⟩
        unfold turn at hturn
        split at hturn
        · cases (Prod.mk.inj hturn).1
        · next hs =>
          split at hturn
          · cases (Prod.mk.inj hturn).1
          · next hnext =>
            split at hturn
            · cases (Prod.mk.inj hturn).1
            · next hlit =>
              simp only [Prod.mk.injEq, Turn.shown.injEq] at hturn
              rcases hturn with ⟨⟨rfl, rfl⟩, rfl, rfl⟩
              refine ⟨_ :: frames, rest, mid, t, Nat.succ_lt_succ hlt,
                .cons (by simpa using hs) hnext hlit hshows, ?_⟩
              rwa [List.length_cons, Nat.add_comm frames.length, ← Nat.add_assoc]
  · -- the fuel is enough for the frames that are shown and for the last turn
    rintro ⟨frames, rest, mid, t, hlt, hshows, hends⟩
    rcases Nat.exists_eq_add_of_lt hlt with ⟨more, rfl⟩
    rw [Nat.add_assoc, hshows.drain_eq, drain, turn_eq_ended_iff.2 hends]

/-! ## What is left behind -/

/-- What frames leave behind that were shown: their lines, and what the agenda has for these
lines. Nobody had stopped the effect before the last of them. -/
structure Showed (a : Agenda σ) (frames : List Frame) (q : Queue) (s : σ) (q' : Queue) (s' : σ) :
    Prop where
  written : q.sink.writeFrames (frames.map Frame.color) = (.ok (), q'.sink)
  panel : (q'.panel, s') = a.throughout q.sink.completed frames.length (q.panel, s)
  running : ∀ k < frames.length,
    (a.throughout q.sink.completed k (q.panel, s)).1.control.stopped = false
  generator : q'.generator = q.generator

/-- A frame that is written completes one line. -/
theorem completed_of_display {c : Color} (h : q.display a c s = (.ok (), q', s')) :
    q'.sink.completed = q.sink.completed + 1 := by
  have hok : (q.sink.writeFrame c).1 = .ok () := congrArg Prod.fst h
  have hsink : (q.sink.writeFrame c).2 = q'.sink := congrArg (·.2.1.sink) h
  rcases Sink.writeFrame_cases q.sink c with ⟨-, htook⟩ | ⟨e, herror, -⟩
  · rw [← hsink, htook.completed, c.count_newline_wire]
  · cases hok.symm.trans herror

/-- Whatever becomes of a frame, what the agenda has for the lines that it completes happens. -/
theorem exists_throughout_display {c : Color} {answer : Except IoError Unit}
    (h : q.display a c s = (answer, q', s')) :
    ∃ n, q'.sink.completed = q.sink.completed + n ∧
      (q'.panel, s') = a.throughout q.sink.completed n (q.panel, s) := by
  have hsink : (q.sink.writeFrame c).2 = q'.sink := congrArg (·.2.1.sink) h
  have hpanel : (q'.panel, s') = a.throughout q.sink.completed
      ((q.sink.writeFrame c).2.completed - q.sink.completed) (q.panel, s) :=
    congrArg (fun x => (x.2.1.panel, x.2.2)) h.symm
  have hle : q.sink.completed ≤ q'.sink.completed := by
    rw [← hsink]
    rcases Sink.writeFrame_cases q.sink c with ⟨-, htook⟩ | ⟨e, -, hfails⟩
    · exact htook.completed ▸ Nat.le_add_right _ _
    · cases hfails with
      | broken k _ htook _ => exact htook.completed ▸ Nat.le_add_right _ _
      | unflushed htook _ => exact htook.completed ▸ Nat.le_add_right _ _
  refine ⟨q'.sink.completed - q.sink.completed, (Nat.add_sub_cancel' hle).symm, ?_⟩
  rw [hpanel, hsink]

/-- What the agenda has for the line of a frame happens while the frame is written. -/
theorem panel_of_display {c : Color} (h : q.display a c s = (.ok (), q', s')) :
    (q'.panel, s') = a.throughout q.sink.completed 1 (q.panel, s) := by
  have hsink : (q.sink.writeFrame c).2 = q'.sink := congrArg (·.2.1.sink) h
  have hdisplay : (q'.panel, s') = a.throughout q.sink.completed
      ((q.sink.writeFrame c).2.completed - q.sink.completed) (q.panel, s) :=
    congrArg (fun x => (x.2.1.panel, x.2.2)) h.symm
  rwa [hsink, completed_of_display h, Nat.add_sub_cancel_left] at hdisplay

theorem Shows.showed (h : Shows a frames source q s rest q' s') : Showed a frames q s q' s' := by
  induction h with
  | nil => exact ⟨rfl, rfl, fun _ hk => absurd hk (Nat.not_lt_zero _), rfl⟩
  | @cons frame frames source after rest q q₁ q' s s₁ s' hs hnext hlit hmore ih =>
    have hok : (q.sink.writeFrame frame.color).1 = .ok () := congrArg Prod.fst hlit
    have hsink : (q.sink.writeFrame frame.color).2 = q₁.sink := congrArg (·.2.1.sink) hlit
    have hgenerator : q.generator = q₁.generator := congrArg (·.2.1.generator) hlit
    have hcompleted := completed_of_display hlit
    have hpanel := panel_of_display hlit
    have hwritten := ih.written
    have hrest := ih.panel
    have hrunning := ih.running
    -- holding a frame changes neither the light nor the panel
    rw [sink_hold] at hwritten hrest hrunning
    rw [panel_hold, hpanel, hcompleted, ← a.throughout_add, Nat.add_comm 1] at hrest
    refine ⟨?_, hrest, ?_, ?_⟩
    · rw [List.map_cons, Sink.writeFrames_cons_of_ok hok, hsink, hwritten]
    · intro k hk
      cases k with
      | zero => exact hs
      | succ k =>
        have hk' := hrunning k (Nat.lt_of_succ_lt_succ hk)
        rwa [panel_hold, hpanel, hcompleted, ← a.throughout_add, Nat.add_comm 1] at hk'
    · rw [ih.generator, generator_hold, hgenerator]

/-- The frames that are shown are the first ones of the source. -/
theorem Shows.take_eq (h : Shows a frames source q s rest q' s') :
    source.take frames.length = frames ∧ source.skip frames.length = (frames.length, rest) := by
  induction h with
  | nil => exact ⟨rfl, rfl⟩
  | cons hs hnext hlit hmore ih =>
    rw [List.length_cons, Source.take, Source.skip, hnext]
    simp [ih.1, ih.2]

/-- The first frames of a source are shown if nobody stops the effect before the last of them, and
they all get written. -/
theorem exists_shows {n : Nat} (hskip : source.skip n = (n, rest))
    (hwritten : (q.sink.writeFrames ((source.take n).map Frame.color)).1 = .ok ())
    (hrunning : ∀ k < n, (a.throughout q.sink.completed k (q.panel, s)).1.control.stopped = false) :
    ∃ q' s', Shows a (source.take n) source q s rest q' s' := by
  induction n generalizing source q s with
  | zero =>
    rw [Source.skip, Prod.mk.injEq] at hskip
    rcases hskip with ⟨-, rfl⟩
    exact ⟨q, s, .nil⟩
  | succ n ih =>
    rcases Source.skip_succ_eq hskip with ⟨frame, after, hnext, hafter⟩
    rw [Source.take, hnext] at hwritten ⊢
    simp only [List.map_cons] at hwritten ⊢
    cases hok : (q.sink.writeFrame frame.color).1 with
    | error e =>
      -- all frames can be written, so this one can
      rw [Sink.writeFrames_cons_of_error hok] at hwritten
      cases hwritten
    | ok =>
      rw [Sink.writeFrames_cons_of_ok hok] at hwritten
      rcases hlit : q.display a frame.color s with ⟨result, q₁, s₁⟩
      have hresult : result = .ok () := (congrArg Prod.fst hlit).symm.trans hok
      subst hresult
      have hsink : (q.sink.writeFrame frame.color).2 = q₁.sink := congrArg (·.2.1.sink) hlit
      have hpanel := panel_of_display hlit
      have hcompleted := completed_of_display hlit
      -- that nobody stops it during the later lines is part of what was assumed
      have hlater : ∀ k < n, (a.throughout (q₁.hold frame.delay q₁.clock.now).sink.completed k
          ((q₁.hold frame.delay q₁.clock.now).panel, s₁)).1.control.stopped = false := by
        intro k hk
        have hk' := hrunning (k + 1) (Nat.succ_lt_succ hk)
        rw [Nat.add_comm k 1, a.throughout_add, ← hpanel, ← hcompleted] at hk'
        rwa [sink_hold, panel_hold]
      rcases ih hafter (by rw [sink_hold, ← hsink]; exact hwritten) hlater with ⟨q', s', hshows⟩
      exact ⟨q', s', .cons (hrunning 0 (Nat.succ_pos n)) hnext hlit hshows⟩

/-! ## Enough fuel -/

/-- An effect that ends has ended within the frames that decide how it ends. -/
theorem Shows.lt_enough (h : Shows a frames source q s rest q₁ s₁)
    (hends : Ends a frames.length rest q₁ s₁ result q' s') : frames.length < q.enough a source := by
  rcases h.take_eq with ⟨htake, hskip⟩
  unfold enough
  cases hsize : source.size? with
  | some n =>
    have hlength := Source.length_take hsize frames.length
    rw [htake] at hlength
    show frames.length < n + 1
    omega
  | none =>
    apply Nat.lt_of_not_le
    intro hlong
    simp only at hlong
    have hshowed := h.showed
    have hfirst : (q.sink.writeFrames (frames.map Frame.color)).1 = .ok () := by
      rw [hshowed.written]
    cases hends with
    | stopped hs =>
      -- nothing was on the agenda during the last frame, and the effect was not stopped before it
      rcases Nat.exists_eq_add_of_lt (show 0 < frames.length by omega) with ⟨n, hn⟩
      rw [Nat.zero_add] at hn
      have hrunning := hshowed.running n (by omega)
      have hpanel := hshowed.panel
      rw [hn, a.throughout_succ, a.during_of_lt (by omega)] at hpanel
      rw [← hpanel] at hrunning
      cases hs.symm.trans hrunning
    | finished _ hnext => cases hsize.symm.trans (Source.size?_eq_of_skip hskip hnext)
    | failed _ _ hdark =>
      have hsettled := Sink.writeFrame_of_settled_lt hfirst (by rw [List.length_map]; omega)
      rw [hshowed.written] at hsettled
      cases (congrArg Prod.fst hdark).symm.trans (hsettled _)

/-! ## Requests -/

/-- The source of an effect that is started. -/
def sourceOf (q : Queue) (e : Effect) : Source Random.Generator :=
  e.source (Random.Generator.ofSeed q.generator.wide.1)

/-- The queue once an effect is started: a seed has been drawn, and the slot holds a fresh token. -/
def started (q : Queue) : Queue :=
  { q with generator := q.generator.wide.2 }.setActive (some Token.fresh)

variable {ticket : Ticket} {e : Effect}

/-- A stale request is skipped. -/
theorem pushWith_of_stale (h : q.panel.control.isStale ticket = true) (s : σ) :
    q.pushWith a ticket e s = some (.ok .skipped, q.skip e.name, s) := by
  simp [pushWith, start, h]

/-- A request that is not stale comes to an answer by showing some of its frames and then ending;
it has no answer only if its effect never ends. -/
theorem pushWith_eq_some_iff (h : q.panel.control.isStale ticket = false) :
    q.pushWith a ticket e s = some (result, q', s') ↔
      ∃ frames rest mid t ended, Shows a frames (q.sourceOf e) q.started s rest mid t ∧
        Ends a frames.length rest mid t result ended s' ∧ q' = ended.finish e.name result := by
  have hstart : q.start ticket e = some (q.sourceOf e, q.started) := by
    simp [start, h, sourceOf, started]
  unfold pushWith
  simp only [hstart]
  constructor
  · intro hpush
    split at hpush
    · cases hpush
    · next hdrain =>
      simp only [Option.some.injEq, Prod.mk.injEq] at hpush
      rcases hpush with ⟨rfl, rfl, rfl⟩
      rcases drain_eq_some_iff.1 hdrain with ⟨frames, rest, mid, t, -, hshows, hends⟩
      exact ⟨frames, rest, mid, t, _, hshows, Nat.zero_add frames.length ▸ hends, rfl⟩
  · rintro ⟨frames, rest, mid, t, ended, hshows, hends, rfl⟩
    have hdrain := drain_eq_some_iff.2 ⟨frames, rest, mid, t, hshows.lt_enough hends, hshows,
      (Nat.zero_add frames.length).symm ▸ hends⟩
    rw [hdrain]

@[simp] theorem sink_finish (name : String) (result : Except IoError Outcome) (q : Queue) :
    (q.finish name result).sink = q.sink := by
  cases result <;> rfl

@[simp] theorem generator_finish (name : String) (result : Except IoError Outcome) (q : Queue) :
    (q.finish name result).generator = q.generator := by
  cases result <;> rfl

/-- Once an effect has ended, the slot is empty, and nothing else of the control has changed. -/
@[simp] theorem control_finish (name : String) (result : Except IoError Outcome) (q : Queue) :
    (q.finish name result).panel.control = q.panel.control.setActive none := by
  cases result <;> rfl

/-- By the time a request is answered, all that the agenda has for the lines completed since then
has happened. Besides, playing changes the panel only in what is running and in the journal. -/
theorem exists_throughout_pushWith (h : q.pushWith a ticket e s = some (result, q', s')) :
    ∃ n panel, panel.control.ticket = q.panel.control.ticket ∧
      q'.sink.completed = q.sink.completed + n ∧
      s' = (a.throughout q.sink.completed n (panel, s)).2 ∧
      q'.panel.control.ticket = (a.throughout q.sink.completed n (panel, s)).1.control.ticket := by
  cases hstale : q.panel.control.isStale ticket with
  | true =>
    rw [pushWith_of_stale hstale] at h
    simp only [Option.some.injEq, Prod.mk.injEq] at h
    obtain ⟨-, rfl, rfl⟩ := h
    exact ⟨0, q.panel, rfl, rfl, rfl, rfl⟩
  | false =>
    obtain ⟨frames, rest, mid, t, ended, hshows, hends, rfl⟩ := (pushWith_eq_some_iff hstale).1 h
    have hshowed := hshows.showed
    have hpanel : (mid.panel, t) =
        a.throughout q.sink.completed frames.length (q.started.panel, s) := hshowed.panel
    have hmid : mid.sink.completed = q.sink.completed + frames.length := by
      have hwritten : q.sink.writeFrames (frames.map Frame.color) = (.ok (), mid.sink) :=
        hshowed.written
      have hcompleted := (Sink.took_writeFrames (congrArg Prod.fst hwritten)).2
      rwa [hwritten, List.length_map] at hcompleted
    -- the frame with which an effect ends may complete one line more, also if it fails
    obtain ⟨n, hn, hlast⟩ : ∃ n, ended.sink.completed = mid.sink.completed + n ∧
        (ended.panel, s') = a.throughout mid.sink.completed n (mid.panel, t) := by
      cases hends with
      | stopped | finished => exact ⟨0, rfl, rfl⟩
      | failed _ _ hdark => exact exists_throughout_display hdark
    rw [hpanel, hmid, ← a.throughout_add] at hlast
    refine ⟨frames.length + n, q.started.panel, rfl, ?_, congrArg Prod.snd hlast, ?_⟩
    · rw [sink_finish, hn, hmid, Nat.add_assoc]
    · rw [control_finish, ← hlast]
      rfl

/-! ## Undisturbed requests -/

/-- Undisturbed, the first frames of an effect are shown if they all get written. -/
theorem exists_shows_quiet (ha : a.Quiet) (hrunning : q.stopped = false) {n : Nat}
    (hskip : source.skip n = (n, rest))
    (hwritten : (q.sink.writeFrames ((source.take n).map Frame.color)).1 = .ok ()) (s : σ) :
    ∃ mid, Shows a (source.take n) source q s rest mid s ∧ mid.panel = q.panel ∧
      mid.generator = q.generator ∧
      q.sink.writeFrames ((source.take n).map Frame.color) = (.ok (), mid.sink) := by
  have hcalm : ∀ k < n, (a.throughout q.sink.completed k (q.panel, s)).1.control.stopped =
      false := by
    intro k _
    rw [ha.throughout]
    exact hrunning
  rcases exists_shows hskip hwritten hcalm with ⟨mid, t, hshows⟩
  have hshowed := hshows.showed
  have hpanel := hshowed.panel
  rw [ha.throughout, Prod.mk.injEq] at hpanel
  rcases hpanel with ⟨hpanel, rfl⟩
  exact ⟨mid, hshows, hpanel, hshowed.generator, hshowed.written⟩

/-- Undisturbed, what is left of an effect is played: its frames are written as far as the light
takes them. -/
theorem exists_ends_quiet (ha : a.Quiet) (hrunning : q.stopped = false) {n : Nat}
    (hsize : source.size? = some n) (s : σ) :
    ∃ frames rest mid ended, Shows a frames source q s rest mid s ∧
      Ends a frames.length rest mid s
        ((q.sink.writeFrames ((source.take n).map Frame.color)).1.map fun _ => .completed n)
        ended s ∧
      ended.sink = (q.sink.writeFrames ((source.take n).map Frame.color)).2 ∧
      ended.panel = q.panel ∧ ended.generator = q.generator := by
  cases hresult : (q.sink.writeFrames ((source.take n).map Frame.color)).1 with
  | ok =>
    -- the light takes all frames, and then the source is at its end
    rcases Source.exists_skip (n := n) (s := source) (by simp [hsize]) with ⟨rest, hskip⟩
    rcases exists_shows_quiet ha hrunning hskip hresult s with
      ⟨mid, hshows, hpanel, hgenerator, hwritten⟩
    refine ⟨_, rest, mid, mid, hshows, ?_, (congrArg Prod.snd hwritten).symm, hpanel, hgenerator⟩
    rw [Source.length_take_of_skip hskip]
    have hcalm : mid.stopped = false := by rwa [stopped, hpanel]
    exact .finished hcalm (Source.next_eq_none_of_skip hsize hskip)
  | error err =>
    -- the light takes the frames before the one that fails
    rcases Sink.exists_of_writeFrames_eq_error hresult with ⟨before, c, after, hsplit, hok, hfails⟩
    rcases List.map_eq_append_iff.1 hsplit with ⟨shown, others, hshown, rfl, hothers⟩
    rcases List.map_eq_cons_iff.1 hothers with ⟨frame, later, rfl, rfl, -⟩
    rcases Source.next_of_take_eq hshown with ⟨htake, rest, tail, hskip, hnext⟩
    rw [← htake] at hok
    rcases exists_shows_quiet ha hrunning hskip hok s with
      ⟨mid, hshows, hpanel, hgenerator, hwritten⟩
    rw [htake] at hshows hwritten
    rw [hwritten] at hfails
    have hdark :
        mid.display a frame.color s = (.error err, (mid.display a frame.color s).2.1, s) := by
      simp [display, hfails, ha.throughout]
    have hsink : (mid.sink.writeFrame frame.color).2 = _ := congrArg Prod.snd hfails
    have hcalm : mid.stopped = false := by rwa [stopped, hpanel]
    refine ⟨shown, rest, mid, _, hshows, .failed hcalm hnext hdark, hsink, ?_, hgenerator⟩
    rw [← hpanel]
    simp [display, ha.throughout]

/-- Undisturbed, an effect that ends is played on a queue that is free: its frames are written as
far as the light takes them, one seed is drawn, and the control is as before. -/
theorem pushWith_quiet (ha : a.Quiet) (hopen : q.panel.control.closed = false)
    (hfree : q.panel.control.active = none) {n : Nat} (hsize : e.size? = some n) (s : σ) :
    ∃ q', q.pushWith a q.panel.control.ticket e s =
        some ((q.sink.writeFrames ((e.frames q.generator.wide.1).map Frame.color)).1.map
          fun _ => .completed n, q', s) ∧
      q'.sink = (q.sink.writeFrames ((e.frames q.generator.wide.1).map Frame.color)).2 ∧
      q'.generator = q.generator.wide.2 ∧ q'.panel.control = q.panel.control := by
  have hfresh : q.panel.control.isStale q.panel.control.ticket = false := by
    simp [Control.isStale, hopen]
  have hcontrol : q.started.panel.control.setActive none = q.panel.control := by
    simp [started, setActive, Control.setActive, ← hfree]
  have hsource : (q.sourceOf e).size? = some n := (Effect.size?_source _ e).trans hsize
  have hframes : e.frames q.generator.wide.1 = (q.sourceOf e).take n := by
    rw [Effect.frames, hsize]
    rfl
  rw [hframes]
  rcases exists_ends_quiet (q := q.started) ha rfl hsource s with
    ⟨frames, rest, mid, ended, hshows, hends, hsink, hpanel, hgenerator⟩
  refine ⟨ended.finish e.name _,
    (pushWith_eq_some_iff hfresh).2 ⟨frames, rest, mid, s, ended, hshows, hends, rfl⟩, ?_, ?_, ?_⟩
  · rw [sink_finish]
    exact hsink
  · rw [generator_finish, hgenerator]
    rfl
  · rw [control_finish, hpanel, hcontrol]

end Queue

end Beacon
