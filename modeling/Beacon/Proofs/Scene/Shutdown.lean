import Beacon.Proofs.Scene.Hush
import Beacon.Proofs.Scene.Lines
import Beacon.Proofs.Scene.Schedule

/-!
# Closing leaves the light off

Closing a queue raises the closed flag, and then interrupts. Once that call has returned, whoever
was playing is cancelled or finds the queue closed before its first frame, so at most one more line
of an effect is written. When the light has been turned off after that, it stays off: whoever gets
the queue finds it closed at the first look (`Run.close_darkens`).

1. **Closing**: a call that closes has raised the flag before it goes on (`Closing`).
2. **Shut scenes**: what the call brings about, `Shut`. It does not speak of epochs, so it does not
   matter whether they wrap.
3. **Dark scenes**: the queue is closed and no effect is under way, `Dark`.
-/

namespace Beacon

/-- Whether a thread at this point is closing the queue and has raised the flag. -/
def Point.hasShut : Point → Bool
  | drawing .close | striking .close _ => true
  | _ => false

/-- Whether one who has the queue at this point has no effect under way. -/
def Play.dark : Play → Bool
  | ask _ | checkClosed _ _ | black | done (.skipped _ _) | done (.turnedOff _) => true
  | _ => false

namespace Scene

variable {ι : Type} {s s' : Scene ι} {i j : ι} {ev : Event ι} {e : UInt64}

/-! ## Closing -/

/-- Whoever is closing the queue and has raised the flag finds it raised. -/
def Closing (s : Scene ι) : Prop := ∀ i, (s.doing i).hasShut = true → s.closed = true

/-- A player looks at the epoch once more only if it has found the queue open. -/
theorem Turn.recheckEpoch {p : Play} {w : Show} (h : Turn i s p ev s' (.on w .recheckEpoch)) :
    s.closed = false := by
  cases h with
  | freshClosed hc => exact hc

variable [DecidableEq ι]

/-- A thread may go to a point where it has not raised the flag. -/
theorem Closing.go (h : Closing s) {p : Point} (hp : p.hasShut = true → s.closed = true) :
    Closing (s.go i p) := by
  intro j hj
  by_cases hji : j = i
  · subst hji
    exact hp (by simpa [Scene.go] using hj)
  · exact h j (by simpa [Scene.go, hji] using hj)

theorem Closing.step (h : Closing s) (hstep : Step s ev s') : Closing s' := by
  cases hstep with
  | request job hd hj => exact h.go (by rintro ⟨⟩)
  | call halt hd =>
    apply h.go
    intro hfirst
    cases halt <;> cases hfirst
  | shut hd =>
    intro j _
    rfl
  | @draw i halt hd =>
    -- the flag was raised before the epoch was drawn
    have hgo := h.go (i := i) (p := .striking halt (s.epoch + 1)) (by
      intro hshut
      apply h i
      rw [hd]
      cases halt <;> first | rfl | cases hshut)
    exact hgo
  | @release i halt e hd hl => exact h.go (i := i) (p := .idle) (by rintro ⟨⟩)
  | @leave i report hq => exact h.go (i := i) (p := .idle) (by rintro ⟨⟩)
  | turn hq ht =>
    rcases ht.frame with ⟨-, hclosed, hdoing, -⟩
    intro j hj
    exact hclosed.trans (h j (hdoing ▸ hj))
  | _ => exact h

theorem Run.closing {b : Behaviour} {g : Random.Generator} {events : List (Event ι)}
    (hrun : Run (fresh b g) events s) : Closing s :=
  hrun.invariant (fun _ _ _ hstep h => h.step hstep) fun _ hdoing => by cases hdoing

/-! ## Shut scenes -/

/-- What a call that closes brings about: the queue is closed, all effects that were started are
cancelled, and so is one whose player is about to look at the epoch. -/
structure Shut (s : Scene ι) : Prop where
  kept : Kept s
  closed : s.closed = true
  hushed : Hushed (fun _ => true) s
  rechecked : ∀ i w, s.desk = some (i, .on w .recheckEpoch) → (s.token w).cancelled = true

omit [DecidableEq ι] in
theorem Shut.of_quiet (hk : Kept s) (hc : s.closed = true) (hquiet : Quiet s) : Shut s where
  kept := hk
  closed := hc
  hushed := hquiet.hushed hk _
  rechecked _ _ hdesk := hquiet.cancelled hk hdesk rfl

theorem Shut.step (h : Shut s) (hstep : Step s ev s') : Shut s' where
  kept := h.kept.step hstep
  closed := hstep.closed h.closed
  hushed := h.hushed.step h.kept hstep fun i w hdesk _ _ => h.rechecked i w hdesk
  rechecked := by
    intro j w hdesk
    have hstays : s.desk = some (j, .on w .recheckEpoch) → (s'.token w).cancelled = true :=
      fun hold => hstep.cancelled (h.kept.born j w _ hold) (h.rechecked j w hold)
    cases hstep with
    | @take i job hd hq =>
      cases job <;> cases (desk_inj hdesk).2
    | @turn i p _ s₁ p' hq ht =>
      rcases desk_inj hdesk with ⟨rfl, rfl⟩
      -- nobody gets there any more
      have hopen := ht.recheckEpoch
      rw [h.closed] at hopen
      cases hopen
    | leave hq => cases hdesk
    | _ => exact hstays hdesk

/-- Every call that closes and has looked into the active slot has shut the scene. -/
theorem Run.struck_shut {b : Behaviour} {g : Random.Generator} {events : List (Event ι)}
    (hrun : Run (fresh b g) events s) : Struck (fun halt _ s => halt = .close → Shut s) s := by
  induction hrun with
  | refl =>
    intro j grip halt e hlatch
    cases hlatch
  | @step events s ev s' hrun hstep ih =>
    refine ih.step hrun.kept hstep ?_ ?_
    · intro halt e h hclose
      exact (h hclose).step hstep
    · intro j halt e hdoing hquiet heq
      subst heq
      have hclosed := (hrun.step hstep).closing j (by rw [hdoing]; rfl)
      exact Shut.of_quiet (hrun.step hstep).kept hclosed hquiet

/-- Once a call that closes has returned, the scene is shut. -/
theorem Run.shut {b : Behaviour} {g : Random.Generator} {events : List (Event ι)}
    (hrun : Run (fresh b g) events s) (hmem : .returned i .close e ∈ events) : Shut s := by
  rcases List.append_of_mem hmem with ⟨before, after, rfl⟩
  rcases hrun.split_at with ⟨s₁, s₂, hbefore, hreturn, hafter⟩
  have hshut : Shut s₁ := hbefore.struck_shut.returned hreturn rfl
  exact hafter.invariant (fun _ _ _ hstep h => h.step hstep) (hshut.step hreturn)

/-! ## Dark scenes -/

/-- The queue is closed, and whoever has it has no effect under way. -/
def Dark (s : Scene ι) : Prop := s.closed = true ∧ ∀ i p, s.desk = some (i, p) → p.dark = true

omit [DecidableEq ι] in
theorem Turn.dark {p p' : Play} (h : Turn i s p ev s' p') (hc : s.closed = true)
    (hp : p.dark = true) : p'.dark = true := by
  cases h with
  | ask | refuseClosed | black | blackFails => rfl
  | passClosed hopen =>
    rw [hc] at hopen
    cases hopen
  | _ => cases hp

theorem Dark.step (h : Dark s) (hstep : Step s ev s') : Dark s' := by
  refine ⟨hstep.closed h.1, ?_⟩
  intro j p hdesk
  cases hstep with
  | @take i job hd hq =>
    rcases desk_inj hdesk with ⟨rfl, rfl⟩
    cases job <;> rfl
  | @turn i p _ s₁ p' hq ht =>
    rcases desk_inj hdesk with ⟨rfl, rfl⟩
    exact ht.dark h.1 (h.2 i p hq)
  | leave hq => cases hdesk
  | _ => exact h.2 j p hdesk

/-- In a dark scene nobody writes a line of an effect. -/
theorem Dark.not_wrote (h : Dark s) {t : Ticket} {c : Color} : ¬ Step s (.wrote i t c) s' := by
  intro hstep
  cases hstep with
  | turn hq ht =>
    have hdark := h.2 _ _ hq
    cases ht <;> cases hdark

omit [DecidableEq ι] in
/-- In a dark scene whoever was asked for an effect reports that it was skipped. -/
theorem Dark.serves (h : Dark s) {job : Job} {report : Report}
    (hdesk : s.desk = some (i, .done report)) (hserves : job.Serves (.done report)) :
    (job = .turnOff ∧ ∃ result, report = .turnedOff result) ∨
      ∃ t effect, report = .skipped t effect ∧ (job = .push effect ∨ job = .pushWith t effect) := by
  have hdark := h.2 _ _ hdesk
  cases report with
  -- what is at the desk in the dark has played nothing
  | played w result => cases hdark
  | skipped t effect =>
    refine Or.inr ⟨t, effect, rfl, ?_⟩
    cases job with
    | push e =>
      rcases Option.some.inj hserves with rfl
      exact Or.inl rfl
    | pushWith t' e =>
      rcases hserves with ⟨heffect, hticket⟩
      rcases Option.some.inj heffect with rfl
      rcases Option.some.inj hticket with rfl
      exact Or.inr rfl
    | turnOff =>
      rcases hserves with hblack | ⟨result, hoff⟩
      · cases hblack
      · cases hoff
  | turnedOff result =>
    cases job with
    | turnOff => exact Or.inl ⟨rfl, result, rfl⟩
    | push e => cases hserves
    | pushWith t e => cases hserves.1

/-- Whoever gets the queue in the dark has been skipped when it leaves, unless it has turned the
light off. -/
theorem Dark.left {l₁ l₂ l₃ : List (Event ι)} {job : Job} {report : Report} (h : Dark s)
    (hrun : Run s (l₁ ++ .took i job :: (l₂ ++ .left i report :: l₃)) s')
    (hfirst : ∀ report, .left i report ∉ l₂) :
    (job = .turnOff ∧ ∃ result, report = .turnedOff result) ∨
      ∃ t effect, report = .skipped t effect ∧ (job = .push effect ∨ job = .pushWith t effect) := by
  rcases hrun.split_at with ⟨s₁, s₂, hbefore, htake, hrest⟩
  rcases hrest.split_at with ⟨s₃, s₄, hplay, hleave, -⟩
  have hgot : s₂.desk = some (i, job.first) := by
    cases htake with
    | take hd hq => rfl
    | turn hq ht => cases ht
  rcases hplay.serves hgot job.serves_first hfirst with ⟨p, hdesk, hserves⟩
  have hdark : Dark s₃ :=
    ((hbefore.step htake).append hplay).invariant (fun _ _ _ hs hd => hd.step hs) h
  cases hleave with
  | leave hq =>
    rcases desk_inj (hdesk.symm.trans hq) with ⟨-, rfl⟩
    exact hdark.serves hq hserves
  | turn hq ht => cases ht

/-- Whoever has the queue in a dark scene need wait for nobody, and leaves it by a few steps of its
own. -/
theorem Dark.exists_left (h : Dark s) {p : Play} (hdesk : s.desk = some (i, p)) :
    ∃ events s' report, Run s events s' ∧ events.length ≤ 3 ∧ .left i report ∈ events := by
  have hdark := h.2 i p hdesk
  cases p with
  | ask e =>
    have hrun := ((Run.refl.step (.turn hdesk .ask)).step (.turn rfl (.refuseClosed h.1))).step
      (.leave rfl)
    exact ⟨_, _, _, hrun, by simp, by simp; rfl⟩
  | checkClosed t e =>
    have hrun := (Run.refl.step (.turn hdesk (.refuseClosed h.1))).step (.leave rfl)
    exact ⟨_, _, _, hrun, by simp, by simp; rfl⟩
  | black =>
    cases hw : (s.sink.writeFrame Color.black).1 with
    | ok =>
      have hrun := (Run.refl.step (.turn hdesk (.black hw))).step (.leave rfl)
      exact ⟨_, _, _, hrun, by simp, by simp; rfl⟩
    | error error =>
      have hrun := (Run.refl.step (.turn hdesk (.blackFails hw))).step (.leave rfl)
      exact ⟨_, _, _, hrun, by simp, by simp; rfl⟩
  | done report => exact ⟨_, _, report, Run.refl.step (.leave hdesk), by simp, by simp⟩
  | _ => cases hdark

/-- A run stays in the dark, and each of its steps is one of a dark scene. -/
theorem Dark.step_of_mem {events : List (Event ι)} (h : Dark s) (hrun : Run s events s')
    (hmem : ev ∈ events) : ∃ s₁ s₂, Dark s₁ ∧ Step s₁ ev s₂ := by
  rcases List.append_of_mem hmem with ⟨before, after, rfl⟩
  rcases hrun.split_at with ⟨s₁, s₂, hbefore, hstep, -⟩
  exact ⟨s₁, s₂, hbefore.invariant (fun _ _ _ hs hd => hd.step hs) h, hstep⟩

/-- In the dark the only lines are those of turning the light off. -/
theorem Dark.eq_black {events : List (Event ι)} (h : Dark s) (hrun : Run s events s')
    {l : List UInt8} (hl : l ∈ written events) : l = Color.black.lineBytes := by
  rcases List.mem_filterMap.1 hl with ⟨ev, hmem, hline⟩
  rcases h.step_of_mem hrun hmem with ⟨s₁, s₂, hdark, hstep⟩
  cases ev with
  | wrote k t c => exact absurd hstep hdark.not_wrote
  | blackened k => exact (Option.some.inj hline).symm
  | _ => cases hline

/-- When turning the light off has succeeded, its line is the last one as long as the thread has the
queue. -/
theorem Run.getLast?_written {b : Behaviour} {g : Random.Generator} {events : List (Event ι)}
    (hrun : Run (fresh b g) events s) (hdesk : s.desk = some (i, .done (.turnedOff (.ok ())))) :
    (written events).getLast? = some Color.black.lineBytes := by
  induction hrun with
  | refl => cases hdesk
  | @step events s ev s' hrun hstep ih =>
    rw [written_append, written_singleton]
    cases hstep with
    | @take i job hd hq =>
      cases job <;> cases (desk_inj hdesk).2
    | @turn i p _ s₁ p' hq ht =>
      rcases desk_inj hdesk with ⟨rfl, rfl⟩
      cases ht with
      | black hw => simp [Event.line?]
    | leave hq => cases hdesk
    | _ => simpa [Event.line?] using ih hdesk

/-- Closing leaves the light off for good. After a call that closes has returned, at most one more
line of an effect is written. And when turning the light off has succeeded after that: the last line
is black in every scene that follows, no line of an effect is written, whoever gets the queue for an
effect was skipped when it leaves, whatever ticket it came with, and it can leave by a few steps of
its own. -/
theorem Run.close_darkens {b : Behaviour} {g : Random.Generator} {before : List (Event ι)}
    {s₁ : Scene ι} (hb : b.Faultless) (hbefore : Run (fresh b g) before s₁)
    (hreturned : .returned i .close e ∈ before) :
    (∀ after s₂, Run s₁ after s₂ → after.countP (Event.wroteOld fun _ => true) ≤ 1) ∧
    ∀ mid s₂ j after s₃, Run s₁ mid s₂ → s₂.desk = some (j, .done (.turnedOff (.ok ()))) →
      Run s₂ after s₃ →
      s₃.sink.lines.getLast? = some (Text.encode ("0 0 0".toList)) ∧
      (∀ k t c, .wrote k t c ∉ after) ∧
      (∀ l₁ k job l₂ report l₃, after = l₁ ++ .took k job :: (l₂ ++ .left k report :: l₃) →
        (∀ report, .left k report ∉ l₂) →
        (job = .turnOff ∧ ∃ result, report = .turnedOff result) ∨
          ∃ t effect, report = .skipped t effect ∧
            (job = .push effect ∨ job = .pushWith t effect)) ∧
      ∀ k p, s₃.desk = some (k, p) → ∃ rest s₄ report, Run s₃ rest s₄ ∧ rest.length ≤ 3 ∧
        .left k report ∈ rest := by
  have hshut : Shut s₁ := hbefore.shut hreturned
  constructor
  · -- what is in hand when the call returns is the only line that can still come
    intro after s₂ hafter
    obtain ⟨-, hcount⟩ := hafter.count_wrote_le hshut (fun _ _ _ _ hstep h => h.step hstep)
      fun _ h => h.hushed
    have hone := s₁.inHand_le_one fun _ => true
    omega
  · -- from then on nobody has a frame in hand: whoever has the queue is done
    intro mid s₂ j after s₃ hmid hoff hafter
    have hshut₂ : Shut s₂ := hmid.invariant (fun _ _ _ hstep h => h.step hstep) hshut
    have hdark : Dark s₂ := by
      refine ⟨hshut₂.closed, ?_⟩
      intro k p hdesk
      rw [hoff] at hdesk
      rcases desk_inj hdesk with ⟨-, rfl⟩
      rfl
    have hdark₃ : Dark s₃ := hafter.invariant (fun _ _ _ hstep h => h.step hstep) hdark
    refine ⟨?_, ?_, ?_, ?_⟩
    · -- the line of the thread that turned the light off, or a later one like it
      have hlast := (hbefore.append hmid).getLast?_written hoff
      have hlines := ((hbefore.append hmid).append hafter).lines hb
      rw [hlines, written_append, List.getLast?_append, hlast]
      cases hafter' : (written after).getLast? with
      | none => rfl
      | some l =>
        rw [hdark.eq_black hafter (List.mem_of_getLast? hafter')]
        rfl
    · -- a step that writes a line of an effect does not start from a dark scene
      intro k t c hmem
      rcases hdark.step_of_mem hafter hmem with ⟨s, s', hd, hstep⟩
      exact hd.not_wrote hstep
    · intro l₁ k job l₂ report l₃ hsplit hfirst
      subst hsplit
      exact hdark.left hafter hfirst
    · intro k p hdesk
      rcases hdark₃.exists_left hdesk with ⟨rest, s₄, report, hrest, hlength, hleft⟩
      exact ⟨rest, s₄, report, hrest, hlength, hleft⟩

/-- The thread 1 closes the queue while the thread 0 plays an endless effect, and turns the light
off once it gets the queue; a request that the thread 2 makes then is skipped. -/
theorem Run.close_darkens_endless : ∃ (before mid : List (Event Nat)) (s₁ s₂ s₃ : Scene Nat),
    (Behaviour.ofTables none [] []).Faultless ∧
    Run (fresh (Behaviour.ofTables none [] []) (Random.Generator.ofSeed 0)) before s₁ ∧
    .took 0 (.push (.flash ⟨⟨1000000000⟩, ⟨255, 0, 0⟩, -1⟩)) ∈ before ∧
    .returned 1 .close 1 ∈ before ∧ Run s₁ mid s₂ ∧
    s₂.desk = some (1, .done (.turnedOff (.ok ()))) ∧
    Run s₂ [.left 1 (.turnedOff (.ok ())), .quiet, .took 2 (.push (.solid ⟨0, 255, 0⟩)),
      .quiet] s₃ ∧
    s₃.sink.lines.getLast? = some (Text.encode ("0 0 0".toList)) := by
  have hb : (Behaviour.ofTables none [] []).Faultless := Behaviour.faultless_ofTables (by simp)
  let before : List (Event Nat) :=
    [.quiet, .took 0 (.push (.flash ⟨⟨1000000000⟩, ⟨255, 0, 0⟩, -1⟩)), .quiet, .quiet, .quiet,
      .quiet, .quiet, .quiet, .quiet, .quiet, .quiet, .shut 1, .drew 1 1, .quiet, .struck 1 1 0,
      .quiet, .returned 1 .close 1]
  let mid : List (Event Nat) :=
    [.quiet, .judged 0 0 true, .quiet, .quiet, .quiet, .quiet, .left 0 (.played
      ⟨⟨0⟩, .flash ⟨⟨1000000000⟩, ⟨255, 0, 0⟩, -1⟩, (Random.Generator.ofSeed 0).wide.1, 0, 0⟩
      (.ok (.interrupted 0))), .quiet, .took 1 .turnOff, .blackened 1]
  obtain ⟨s₂, hperform, hdesk, hidle⟩ : ∃ s₂ : Scene Nat,
      (fresh (Behaviour.ofTables none [] []) (Random.Generator.ofSeed 0)).perform
        (.request 0 (.push (.flash ⟨⟨1000000000⟩, ⟨255, 0, 0⟩, -1⟩)) :: Move.steps 0 9 ++
          .call 1 .close :: Move.steps 1 6 ++ Move.steps 0 7 ++
          .request 1 .turnOff :: Move.steps 1 2) = some (before ++ mid, s₂) ∧
      s₂.desk = some (1, .done (.turnedOff
        ((Sink.fresh (Behaviour.ofTables none [] [])).writeFrame Color.black).1)) ∧
      s₂.doing 2 = .idle := ⟨_, rfl, rfl, rfl⟩
  rw [Sink.writeFrame_faultless hb] at hdesk
  rcases (Run.of_perform _ _ hperform).split with ⟨s₁, hbefore, hmid⟩
  have hafter := (((Run.refl.step (.leave hdesk)).step (.request (i := 2)
    (.push (.solid ⟨0, 255, 0⟩)) (by simpa [go] using hidle) trivial)).step
    (.take (i := 2) (by simp [go]; rfl) rfl)).step (.turn rfl .ask)
  rcases close_darkens hb hbefore (i := 1) (e := 1) (by simp [before]) with ⟨-, hdark⟩
  rcases hdark mid s₂ 1 _ _ hmid hdesk hafter with ⟨hlast, -, -, -⟩
  exact ⟨before, mid, s₁, s₂, _, hb, hbefore, by simp [before], by simp [before], hmid, hdesk,
    hafter, hlast⟩

end Scene

end Beacon
