import Beacon.Proofs.Scene.Lines

/-!
# Scenes with a clock

A scene says nothing about time: how much of a delay has passed when a player comes to hold a frame,
and when a sleep ends by its time-out, is left open. Here a clock is put beside it. Between any two
steps as much time may pass as likes to, so that writing a line, waiting for a frame or for a lock
takes as long as it happens to; but what a player does with a frame that it has written follows from
its readings of the clock, and no sleep ends by its time-out before its time.

1. **Clocked scenes** and their steps: `Watch` (what a player knows about the time of its last
   line), `Paces` (what a step of the scene does to that), `Timed` and `Step`.
2. **Runs**: what a timed run shows of its scene is a run of the scene (`Run.scene`).
3. **Stretches that take no time**: while no line is written and no frame is held, the clock is not
   looked at, and any run of the scene is a timed one (`of_calm`).
4. **Every run can be timed**: putting a clock beside a scene takes none of its runs away
   (`exists_run_of_scene`).
-/

namespace Beacon

/-! ## Clocked scenes -/

/-- What the one who has the queue knows about the time of its last line: nothing any more; it has
begun to write one; it has written a frame, and has then read the clock; it knows how old the frame
is; it sleeps until the rest of the delay is over. -/
inductive Watch
  | idle
  | begun
  | written
  | stamped (time : Nat)
  | aged (age : Duration)
  | asleep (due : Nat)

/-- Whether a line is to be written next. -/
def Play.writes : Play → Bool
  | on _ (.write _) | black => true
  | _ => false

/-- Whether the frame that was written last is being held. -/
def Play.holds : Play → Bool
  | on _ (.hold _) | on _ .sleep => true
  | _ => false

/-- A scene, what the clock shows, in nanoseconds, and what the one who has the queue knows about
the time. -/
structure Timed (ι : Type) where
  scene : Scene ι
  now : Nat
  watch : Watch

/-- What a step shows: nothing but that time passes; that a line is begun; that a frame has been
written; that a sleep is begun for a frame of some delay and age; or what happens in the scene. -/
inductive Timed.Event (ι : Type)
  | passed
  | began (thread : ι) (time : Nat)
  | wrote (thread : ι) (showing : Show) (frame : Frame) (time : Nat)
  | slept (thread : ι) (showing : Show) (delay age : Duration) (time : Nat)
  | did (ev : Scene.Event ι) (time : Nat)

namespace Timed

variable {ι : Type}

/-- A scene that nobody has used yet, when the clock shows `now`. -/
def fresh (b : Behaviour) (g : Random.Generator) (now : Nat) : Timed ι :=
  ⟨Scene.fresh b g, now, .idle⟩

/-- What happens in the scene. -/
def Event.scene? : Event ι → Option (Scene.Event ι)
  | passed | began _ _ => none
  | wrote i w frame _ => some (.wrote i w.ticket frame.color)
  | slept _ _ _ _ _ => some .quiet
  | did ev _ => some ev

/-- What a timed run shows of its scene. -/
def untimed (events : List (Event ι)) : List (Scene.Event ι) := events.filterMap Event.scene?

@[simp] theorem untimed_append (before after : List (Event ι)) :
    untimed (before ++ after) = untimed before ++ untimed after :=
  List.filterMap_append

/-- The time at which a line is begun. -/
def Event.began? : Event ι → Option Nat
  | began _ time => some time
  | _ => none

/-- When the lines of a timed run were begun. -/
def begins (events : List (Event ι)) : List Nat := events.filterMap Event.began?

@[simp] theorem begins_append (before after : List (Event ι)) :
    begins (before ++ after) = begins before ++ begins after :=
  List.filterMap_append

@[simp] theorem begins_map_did (es : List (Scene.Event ι)) (now : Nat) :
    begins (es.map (.did · now)) = [] := by
  simp [begins, List.filterMap_map, Function.comp_def, Event.began?]

/-- What a step of the scene does to the watch of the one who has the queue, `d` and `d'` being who
that is and where before the step and after it. -/
inductive Paces (now : Nat) : Option (ι × Play) → Watch → Option (ι × Play) → Watch → Prop
  | other {d watch} : Paces now d watch d watch
  | untimed {d d'} (hd : ∀ i p, d = some (i, p) → p.writes = false ∧ p.holds = false) :
      Paces now d .idle d' .idle
  | fails {i w frame error} : Paces now (some (i, .on w (.write frame))) .begun
      (some (i, .on w (.clear (.error error)))) .idle
  | darkens {i result} :
      Paces now (some (i, .black)) .begun (some (i, .done (.turnedOff result))) .idle
  | cancelled {i w delay age} : Paces now (some (i, .on w (.hold delay))) (.aged age)
      (some (i, .on w .judge)) .idle
  | lapsed {i w delay age} (hr : (Pace.remaining delay age).nanos = 0) :
      Paces now (some (i, .on w (.hold delay))) (.aged age) (some (i, .on w .look)) .idle
  | woken {i w due} :
      Paces now (some (i, .on w .sleep)) (.asleep due) (some (i, .on w .judge)) .idle
  | timesOut {i w due} (hdue : due ≤ now) :
      Paces now (some (i, .on w .sleep)) (.asleep due) (some (i, .on w .timedOut)) .idle

/-- A step at a point where no line is to be written and no frame is held. -/
theorem Paces.of_untimed {now : Nat} {i : ι} {p : Play} {d' : Option (ι × Play)}
    (hw : p.writes = false) (hh : p.holds = false) : Paces now (some (i, p)) .idle d' .idle := by
  refine .untimed ?_
  intro j q hd
  rcases Scene.desk_inj hd with ⟨rfl, rfl⟩
  exact ⟨hw, hh⟩

/-- A step while nobody has the queue. -/
theorem Paces.of_none {now : Nat} {d' : Option (ι × Play)} :
    Paces now (none : Option (ι × Play)) .idle d' .idle :=
  .untimed fun _ _ hnone => by cases hnone

variable [DecidableEq ι]

/-- One step. The clock never goes back. A line is begun before it is written. Once a frame has been
written the clock is read twice, for the time of the frame and for its age; then there is nothing
left of its delay, or the rest is slept out. -/
inductive Step (t : Timed ι) : Event ι → Timed ι → Prop
  | pass {now} (h : t.now ≤ now) : Step t .passed { t with now }
  | start {i p} (hw : t.watch = .idle) (hd : t.scene.desk = some (i, p)) (hp : p.writes = true) :
      Step t (.began i t.now) { t with watch := .begun }
  | write {i w frame s'} (hw : t.watch = .begun)
      (hd : t.scene.desk = some (i, .on w (.write frame)))
      (hs : Scene.Step t.scene (.wrote i w.ticket frame.color) s')
      (hd' : s'.desk = some (i, .on { w with shown := w.shown + 1 } (.hold frame.delay))) :
      Step t (.wrote i w frame t.now) ⟨s', t.now, .written⟩
  | stamp (hw : t.watch = .written) : Step t .passed { t with watch := .stamped t.now }
  | measure {time} (hw : t.watch = .stamped time) :
      Step t .passed { t with watch := .aged ⟨t.now - time⟩ }
  | sleep {i w delay age s'} (hw : t.watch = .aged age)
      (hd : t.scene.desk = some (i, .on w (.hold delay))) (hs : Scene.Step t.scene .quiet s')
      (hd' : s'.desk = some (i, .on w .sleep)) (hr : (Pace.remaining delay age).nanos ≠ 0) :
      Step t (.slept i w delay age t.now)
        ⟨s', t.now, .asleep (t.now + (Pace.remaining delay age).nanos)⟩
  | act {ev s' watch'} (hs : Scene.Step t.scene ev s')
      (hp : Paces t.now t.scene.desk t.watch s'.desk watch') :
      Step t (.did ev t.now) ⟨s', t.now, watch'⟩

/-! ## Runs -/

/-- Runs with a clock. -/
abbrev Run (t₀ : Timed ι) (events : List (Event ι)) (t : Timed ι) : Prop := Trace Step t₀ events t

variable {t t' : Timed ι} {ev : Event ι} {events : List (Event ι)}
variable {s s' : Scene ι} {now : Nat} {b : Behaviour} {g : Random.Generator}

/-- A step of the scene, where it is known who has the queue. -/
theorem Step.act_of_desk {d : Option (ι × Play)} {e : Scene.Event ι} {watch' : Watch}
    (hd : t.scene.desk = d) (hs : Scene.Step t.scene e s')
    (hp : Paces t.now d t.watch s'.desk watch') : Step t (.did e t.now) ⟨s', t.now, watch'⟩ := by
  subst hd
  exact .act hs hp

/-- A step either leaves the scene alone or is one of its steps. -/
theorem Step.scene (h : Step t ev t') : (ev.scene? = none ∧ t'.scene = t.scene) ∨
    ∃ e, ev.scene? = some e ∧ Scene.Step t.scene e t'.scene := by
  cases h with
  | pass | start | stamp | measure => exact .inl ⟨rfl, rfl⟩
  | write _ _ hs | sleep _ _ hs | act hs => exact .inr ⟨_, rfl, hs⟩

/-- The clock never goes back. -/
theorem Step.now_le (h : Step t ev t') : t.now ≤ t'.now := by
  cases h with
  | pass h => exact h
  | _ => exact Nat.le_refl _

/-- What a timed run shows of its scene is a run of the scene. -/
theorem Run.scene {t₀ : Timed ι} (hrun : Run t₀ events t) :
    Scene.Run t₀.scene (untimed events) t.scene := by
  induction hrun with
  | refl => exact .refl
  | @step events t ev t' hrun hstep ih =>
    rw [untimed_append]
    rcases hstep.scene with ⟨hnone, hsame⟩ | ⟨e, hsome, hs⟩
    · have hlast : untimed [ev] = [] := by simp [untimed, hnone]
      rw [hlast, List.append_nil, hsame]
      exact ih
    · have hlast : untimed [ev] = [e] := by simp [untimed, hsome]
      rw [hlast]
      exact ih.step hs

/-! ## Stretches that take no time -/

/-- Nobody holds a frame. -/
def Awake (s : Scene ι) : Prop := ∀ i p, s.desk = some (i, p) → p.holds = false

omit [DecidableEq ι] in
/-- A turn that writes no line, at a point where no frame is held, leads to such a point. -/
theorem turn_awake {i : ι} {p p' : Play} {e : Scene.Event ι} (h : Scene.Turn i s p e s' p')
    (hp : p.holds = false) (he : e.line? = none) : p.writes = false ∧ p'.holds = false := by
  cases h with
  | write | writeFails | black | blackFails => cases he
  | holdCancelled | holdOver | holdOn | wake | timeout => cases hp
  | _ => exact ⟨rfl, rfl⟩

/-- A step that writes no line, while nobody holds a frame, does not look at the clock. -/
theorem of_step {e : Scene.Event ι} (hs : Awake s) (hstep : Scene.Step s e s')
    (he : e.line? = none) :
    Step ⟨s, now, .idle⟩ (.did e now) ⟨s', now, .idle⟩ ∧ Awake s' := by
  -- whatever happens away from the desk needs no reading of the clock
  have hstays : s'.desk = s.desk →
      Step ⟨s, now, .idle⟩ (.did e now) ⟨s', now, .idle⟩ ∧ Awake s' := by
    intro hdesk
    refine ⟨.act_of_desk hdesk.symm hstep .other, ?_⟩
    unfold Awake
    rw [hdesk]
    exact hs
  cases hstep with
  | @take i job hd hq =>
    refine ⟨.act_of_desk hq (.take hd hq) .of_none, ?_⟩
    intro j p hdesk
    rcases Scene.desk_inj hdesk with ⟨rfl, rfl⟩
    cases job <;> rfl
  | @turn i p _ s₁ p' hq ht =>
    rcases turn_awake ht (hs i p hq) he with ⟨hwrites, hholds⟩
    refine ⟨.act_of_desk hq (.turn hq ht) (.of_untimed hwrites (hs i p hq)), ?_⟩
    intro j q hdesk
    rcases Scene.desk_inj hdesk with ⟨rfl, rfl⟩
    exact hholds
  | @leave i report hq =>
    refine ⟨.act_of_desk hq (.leave hq) (.of_untimed rfl rfl), ?_⟩
    intro j q hnone
    cases hnone
  | _ => exact hstays rfl

/-- While no line is written and nobody holds a frame, a run of the scene takes no time. -/
theorem of_calm {es : List (Scene.Event ι)} (h : Scene.CalmRun s es s') (hs : Awake s) :
    Run ⟨s, now, .idle⟩ (es.map (.did · now)) ⟨s', now, .idle⟩ ∧ Awake s' := by
  rcases h with ⟨hrun, hcalm⟩
  induction hrun with
  | refl => exact ⟨.refl, hs⟩
  | @step es s₁ e s₂ hrun hstep ih =>
    rcases ih fun e he => hcalm e (List.mem_append_left _ he) with ⟨htimed, hawake⟩
    rcases of_step hawake hstep (hcalm e (by simp)) with ⟨hlast, hawake'⟩
    rw [List.map_append]
    exact ⟨htimed.step hlast, hawake'⟩

omit [DecidableEq ι] in
/-- Whoever is to write a line can do nothing else. -/
theorem turn_line {i : ι} {p p' : Play} {e : Scene.Event ι} (h : Scene.Turn i s p e s' p')
    (hp : p.writes = true) : e.line? ≠ none := by
  cases h with
  | write | writeFails | black | blackFails => exact Option.some_ne_none _
  | _ => cases hp

/-- While a line is being written others may go on. -/
theorem of_calm_writing {es : List (Scene.Event ι)} {i : ι} {p : Play} {watch : Watch}
    (h : Scene.CalmRun s es s') (hd : s.desk = some (i, p)) (hp : p.writes = true) :
    Run ⟨s, now, watch⟩ (es.map (.did · now)) ⟨s', now, watch⟩ ∧ s'.desk = some (i, p) := by
  rcases h with ⟨hrun, hcalm⟩
  induction hrun with
  | refl => exact ⟨.refl, hd⟩
  | @step es s₁ e s₂ hrun hstep ih =>
    rcases ih fun e he => hcalm e (List.mem_append_left _ he) with ⟨htimed, hd₁⟩
    have hline : e.line? = none := hcalm e (by simp)
    have hdesk : s₂.desk = s₁.desk := by
      cases hstep with
      | take _ hq => cases hq.symm.trans hd₁
      | turn hq ht =>
        rcases Scene.desk_inj (hq.symm.trans hd₁) with ⟨rfl, rfl⟩
        exact absurd hline (turn_line ht hp)
      | leave hq =>
        rcases Scene.desk_inj (hq.symm.trans hd₁) with ⟨rfl, rfl⟩
        cases hp
      | _ => rfl
    rw [List.map_append]
    exact ⟨htimed.step (.act_of_desk hdesk.symm hstep .other), hdesk.trans hd₁⟩

/-! ## Every run can be timed -/

/-- What is known about the time when nothing has been done about it since the last step of the
scene. -/
def Unread (d : Option (ι × Play)) (watch : Watch) : Prop :=
  match d with
  | some (_, .on _ (.hold _)) => watch = .written
  | some (_, .on _ .sleep) => ∃ due, watch = .asleep due
  | _ => watch = .idle

/-- A turn of the one who has the queue takes the time it needs: a line is begun and written, and a
frame is held for no time, for its delay, or until a wake-up comes. -/
theorem exists_run_of_turn {i : ι} {p p' : Play} {e : Scene.Event ι} {watch : Watch}
    (hq : s.desk = some (i, p)) (ht : Scene.Turn i s p e s' p') (hr : Unread s.desk watch) :
    ∃ events now' watch',
      Run ⟨s, now, watch⟩ events ⟨{ s' with desk := some (i, p') }, now', watch'⟩ ∧
      untimed events = [e] ∧ Unread (some (i, p')) watch' := by
  have hstep := Scene.Step.turn hq ht
  rw [hq] at hr
  cases ht with
  | write hw =>
    -- a line is begun before it is written
    rcases hr with rfl
    have hbegun : Run ⟨s, now, .idle⟩ [.began i now] ⟨s, now, .begun⟩ :=
      Trace.refl.step (.start rfl hq rfl)
    exact ⟨_, _, _, hbegun.step (.write rfl hq hstep rfl), rfl, rfl⟩
  | writeFails hw | black hw | blackFails hw =>
    rcases hr with rfl
    have hbegun : Run ⟨s, now, .idle⟩ [.began i now] ⟨s, now, .begun⟩ :=
      Trace.refl.step (.start rfl hq rfl)
    exact ⟨_, _, _, hbegun.step (.act_of_desk hq hstep (by constructor)), rfl, rfl⟩
  | holdCancelled ht =>
    -- the age of the frame is read first, but it does not matter
    rcases hr with rfl
    have hstamped : Run ⟨s, now, .written⟩ [.passed] ⟨s, now, .stamped now⟩ :=
      Trace.refl.step (.stamp rfl)
    have hmeasured := hstamped.step (.measure rfl)
    exact ⟨_, _, _, hmeasured.step (.act_of_desk hq hstep .cancelled), rfl, rfl⟩
  | @holdOver w delay age ht hover =>
    -- time passes until the frame is old enough
    rcases hr with rfl
    have hstamped : Run ⟨s, now, .written⟩ [.passed] ⟨s, now, .stamped now⟩ :=
      Trace.refl.step (.stamp rfl)
    have hlater := hstamped.step (.pass (Nat.le_add_right now delay.nanos))
    have hmeasured := hlater.step (.measure rfl)
    have hr : (Pace.remaining delay ⟨now + delay.nanos - now⟩).nanos = 0 := by
      simp [Pace.remaining]
    exact ⟨_, _, _, hmeasured.step (.act_of_desk hq hstep (.lapsed hr)), rfl, rfl⟩
  | @holdOn w delay age ht hon =>
    -- no time passes, so what is left of the delay is at least what the turn has seen
    rcases hr with rfl
    have hstamped : Run ⟨s, now, .written⟩ [.passed] ⟨s, now, .stamped now⟩ :=
      Trace.refl.step (.stamp rfl)
    have hmeasured := hstamped.step (.measure rfl)
    have hleft : (Pace.remaining delay ⟨now - now⟩).nanos ≠ 0 := by
      simp only [Pace.remaining] at hon ⊢
      omega
    exact ⟨_, _, _, hmeasured.step (.sleep rfl hq hstep rfl hleft), rfl, _, rfl⟩
  | wake ht =>
    rcases hr with ⟨due, rfl⟩
    exact ⟨_, now, _, Trace.refl.step (.act_of_desk hq hstep .woken), rfl, rfl⟩
  | timeout =>
    -- time passes until the sleeper is due
    rcases hr with ⟨due, rfl⟩
    have hlater : Run ⟨s, now, .asleep due⟩ [.passed] ⟨s, max now due, .asleep due⟩ :=
      Trace.refl.step (.pass (Nat.le_max_left now due))
    have hdue : due ≤ max now due := Nat.le_max_right now due
    exact ⟨_, _, _, hlater.step (.act_of_desk hq hstep (.timesOut hdue)), rfl, rfl⟩
  | _ =>
    rcases hr with rfl
    exact ⟨_, now, _, Trace.refl.step (.act_of_desk hq hstep (.of_untimed rfl rfl)), rfl, rfl⟩

/-- Every step of a scene can be timed. -/
theorem exists_run_of_step {e : Scene.Event ι} {watch : Watch} (hr : Unread s.desk watch)
    (hstep : Scene.Step s e s') :
    ∃ events now' watch', Run ⟨s, now, watch⟩ events ⟨s', now', watch'⟩ ∧ untimed events = [e] ∧
      Unread s'.desk watch' := by
  -- whatever happens away from the desk needs no reading of the clock
  have hstays : s'.desk = s.desk →
      ∃ events now' watch', Run ⟨s, now, watch⟩ events ⟨s', now', watch'⟩ ∧
        untimed events = [e] ∧ Unread s'.desk watch' := by
    intro hdesk
    refine ⟨_, now, watch, Trace.refl.step (.act_of_desk hdesk.symm hstep .other), rfl, ?_⟩
    rw [hdesk]
    exact hr
  cases hstep with
  | @take i job hd hq =>
    rw [hq] at hr
    rcases hr with rfl
    refine ⟨_, now, .idle, Trace.refl.step (.act_of_desk hq (.take hd hq) .of_none), rfl, ?_⟩
    cases job <;> rfl
  | turn hq ht => exact exists_run_of_turn hq ht hr
  | @leave i report hq =>
    rw [hq] at hr
    rcases hr with rfl
    have hleave : Step ⟨s, now, .idle⟩ (.did (.left i report) now) ⟨_, now, .idle⟩ :=
      .act_of_desk hq (.leave hq) (.of_untimed rfl rfl)
    exact ⟨_, now, .idle, Trace.refl.step hleave, rfl, rfl⟩
  | _ => exact hstays rfl

/-- Every run of a scene is what some run with a clock shows of it. -/
theorem exists_run_of_scene {es : List (Scene.Event ι)}
    (hrun : Scene.Run (Scene.fresh b g) es s) :
    ∃ events now' watch, Run (fresh b g now) events ⟨s, now', watch⟩ ∧ untimed events = es := by
  have hunread : ∃ events now' watch, Run (fresh b g now) events ⟨s, now', watch⟩ ∧
      untimed events = es ∧ Unread s.desk watch := by
    induction hrun with
    | refl => exact ⟨[], now, .idle, .refl, rfl, rfl⟩
    | step _ hstep ih =>
      rcases ih with ⟨events, now₁, watch₁, htimed, rfl, hr⟩
      rcases exists_run_of_step hr hstep with ⟨more, now', watch', hmore, hlast, hr'⟩
      refine ⟨_, now', watch', htimed.append hmore, ?_, hr'⟩
      rw [untimed_append, hlast]
  rcases hunread with ⟨events, now', watch, htimed, huntimed, -⟩
  exact ⟨events, now', watch, htimed, huntimed⟩

end Timed

end Beacon
