import Beacon.Proofs.Scene.Causes
import Beacon.Proofs.Scene.Lines
import Beacon.Proofs.Scene.Schedule
import Beacon.Proofs.Scene.Supply
import Mathlib.Data.List.Forall2

/-!
# Effects are cut, never altered

On a sink that never fails the lines of the light are made of blocks, one for each operation, in the
order in which the threads got the queue: a black line for turning the light off, nothing for an
effect that was skipped, and for one that was played the lines of its first frames, as many as its
outcome says (`Run.blocks`).

1. **Blocks**: `Report.block`, and the block under way, `Play.block`.
2. **Order**: each thread that got the queue leaves it before the next one gets it, with a report on
   what it was asked for (`Ordered`).
3. **Outcomes**: what a report says of its effect is true (`Report.Sound`).
-/

namespace Beacon

/-! ## Blocks -/

/-- The lines of the first `n` frames of what is played. -/
def Show.lines (w : Show) (n : Nat) : List (List UInt8) :=
  (w.source.take n).map fun frame => frame.color.lineBytes

/-- The lines that an operation leaves behind, by its report. -/
def Report.block : Report → List (List UInt8)
  | turnedOff _ => [Color.black.lineBytes]
  | played w (.ok (.completed n)) | played w (.ok (.interrupted n)) => w.lines n
  | _ => []

/-- The lines that the operation under way has left behind so far. -/
def Play.block : Play → List (List UInt8)
  | on w _ => w.lines w.shown
  | done report => report.block
  | _ => []

/-- What the one who has the queue will report, once that is settled. -/
def Play.report? : Play → Option Report
  | on w (.clear result) | on w (.drop result) | on w (.dropRouse result) | on w (.deafen result) =>
    some (.played w result)
  | done report => some report
  | _ => none

namespace Scene

variable {ι : Type} {s s' : Scene ι} {i : ι} {ev : Event ι}

/-- The reports with which threads left the queue. -/
def Event.left? : Event ι → Option (ι × Report)
  | left i report => some (i, report)
  | _ => none

/-- The operations of a run, in the order in which the threads got the queue. -/
def operations (events : List (Event ι)) : List (ι × Job) := events.filterMap Event.took?

/-- The reports of a run, in the order in which the threads left the queue. -/
def reports (events : List (Event ι)) : List (ι × Report) := events.filterMap Event.left?

/-- The lines that the operation under way has left behind so far. -/
def underWay (s : Scene ι) : List (List UInt8) := (s.desk.map fun d => d.2.block).getD []

@[simp] theorem operations_append (before after : List (Event ι)) :
    operations (before ++ after) = operations before ++ operations after :=
  List.filterMap_append

@[simp] theorem reports_append (before after : List (Event ι)) :
    reports (before ++ after) = reports before ++ reports after :=
  List.filterMap_append

@[simp] theorem operations_singleton (ev : Event ι) : operations [ev] = ev.took?.toList := by
  cases hev : ev.took? <;> simp [operations, hev]

@[simp] theorem reports_singleton (ev : Event ι) : reports [ev] = ev.left?.toList := by
  cases hev : ev.left? <;> simp [reports, hev]

theorem mem_reports {report : Report} {events : List (Event ι)} :
    (i, report) ∈ reports events ↔ .left i report ∈ events := by
  constructor
  · intro h
    rcases List.mem_filterMap.1 h with ⟨ev, hmem, hev⟩
    cases ev with
    | left j other =>
      rcases Prod.mk.inj (Option.some.inj hev) with ⟨rfl, rfl⟩
      exact hmem
    | _ => cases hev
  · intro h
    exact List.mem_filterMap.2 ⟨.left i report, h, rfl⟩

/-- A turn does not show that the queue was left. -/
theorem Turn.left?_eq_none {p p' : Play} (h : Turn i s p ev s' p') : ev.left? = none := by
  cases h <;> rfl

/-! ## Order -/

/-- The reports answer the operations one by one; only the last operation may still be under way. -/
def Ordered (events : List (Event ι)) (s : Scene ι) : Prop :=
  ∃ finished,
    List.Forall₂ (fun a b => a.1 = b.1 ∧ a.2.Serves (.done b.2)) finished (reports events) ∧
    match s.desk with
    | none => operations events = finished
    | some (i, p) => ∃ job, operations events = finished ++ [(i, job)] ∧ job.Serves p

variable [DecidableEq ι]

theorem Ordered.step {events : List (Event ι)} (h : Ordered events s) (hstep : Step s ev s') :
    Ordered (events ++ [ev]) s' := by
  rcases h with ⟨finished, hanswers, hdesk⟩
  unfold Ordered
  rw [operations_append, operations_singleton, reports_append, reports_singleton]
  cases hstep with
  | @take i job hd hq =>
    -- all operations before this one have been reported
    rw [hq] at hdesk
    refine ⟨finished, by simpa [Event.left?] using hanswers, job, ?_, job.serves_first⟩
    rw [hdesk]
    rfl
  | @turn i p _ s₁ p' hq ht =>
    rw [hq] at hdesk
    rcases hdesk with ⟨job, hoperations, hserves⟩
    have hleft := ht.left?_eq_none
    refine ⟨finished, by simpa [hleft] using hanswers, job, ?_, ht.serves hserves⟩
    rw [ht.took?_eq_none, hoperations]
    simp
  | @leave i report hq =>
    rw [hq] at hdesk
    rcases hdesk with ⟨job, hoperations, hserves⟩
    refine ⟨finished ++ [(i, job)], ?_, by simpa [Event.took?] using hoperations⟩
    exact List.rel_append hanswers (.cons ⟨rfl, hserves⟩ .nil)
  | _ => exact ⟨finished, by simpa [Event.left?] using hanswers,
      by simpa [Event.took?, go, onRelay, onToken] using hdesk⟩

theorem Run.ordered {b : Behaviour} {g : Random.Generator} {events : List (Event ι)}
    (hrun : Run (fresh b g) events s) : Ordered events s := by
  induction hrun with
  | refl => exact ⟨[], .nil, rfl⟩
  | step hrun hstep ih => exact ih.step hstep

/-! ## Outcomes -/

end Scene

/-- A report is true: the light was turned off without failure; the outcome of an effect counts the
frames that were shown, all of them if it was completed, and if it was interrupted its token had
been cancelled. -/
def Report.Sound {ι : Type} (i : ι) (events : List (Scene.Event ι)) : Report → Prop
  | turnedOff result => result = .ok ()
  | skipped _ _ => True
  | played w result =>
    (w.source.take w.shown).length = w.shown ∧
      (result = .ok (.completed w.shown) ∧ w.source.size? = some w.shown ∨
        result = .ok (.interrupted w.shown) ∧ Scene.Halted i w.ticket w.relay events)

/-- A report that is true stays so. -/
theorem Report.Sound.append {ι : Type} {i : ι} {events : List (Scene.Event ι)} {report : Report}
    (h : report.Sound i events) (more : List (Scene.Event ι)) :
    report.Sound i (events ++ more) := by
  cases report with
  | turnedOff result => exact h
  | skipped t e => trivial
  | played w result =>
    rcases h with ⟨hlength, hcompleted | ⟨hinterrupted, hhalted⟩⟩
    · exact ⟨hlength, Or.inl hcompleted⟩
    · exact ⟨hlength, Or.inr ⟨hinterrupted, hhalted.append more⟩⟩

/-- A true report leaves behind the lines of the frames that were shown. -/
theorem Report.Sound.block_eq {ι : Type} {i : ι} {events : List (Scene.Event ι)} {w : Show}
    {result : Except IoError Outcome} (h : (Report.played w result).Sound i events) :
    (Report.played w result).block = w.lines w.shown := by
  rcases h with ⟨-, ⟨rfl, -⟩ | ⟨rfl, -⟩⟩
  · rfl
  · rfl

namespace Scene

variable {ι : Type} {s s' : Scene ι} {i : ι} {ev : Event ι} {events : List (Event ι)}

/-- On a faultless sink the player comes to a true report. -/
theorem Turn.sound {p p' : Play} (h : Turn i s p ev s' p') (hb : s.sink.behaviour.Faultless)
    (hfits : ∀ w ph, p = .on w ph → ph.Fits w (s.relays w.relay))
    (hcaused : ∀ w, p = .on w .judge → (s.token w).cancelled = true →
      Halted i w.ticket w.relay events)
    (hp : ∀ report, p.report? = some report → report.Sound i events) :
    ∀ report, p'.report? = some report → report.Sound i events := by
  intro report hreport
  cases h with
  | refuseClosed | refuseEpoch =>
    rcases Option.some.inj hreport with rfl
    trivial
  | writeFails hw | blackFails hw =>
    rw [Sink.writeFrame_faultless hb] at hw
    cases hw
  | @judgeCancelled w ht =>
    -- the flag was up at the last look, so there is a cause for it
    rcases Option.some.inj hreport with rfl
    exact ⟨(hfits w _ rfl).1.length_take, Or.inr ⟨rfl, hcaused w rfl ht⟩⟩
  | @judgeOn w ht =>
    -- the flag was down at the last look, so all frames have been shown
    rcases Option.some.inj hreport with rfl
    rcases hfits w _ rfl with ⟨hsupplies, hup | hsize⟩
    · exact absurd (ht.symm.trans hup) Bool.false_ne_true
    · exact ⟨hsupplies.length_take, Or.inl ⟨rfl, hsize⟩⟩
  | black =>
    rcases Option.some.inj hreport with rfl
    rfl
  | lockClear | clear | drop | dropAgain | dropRouse | deafen => exact hp report hreport
  | _ => cases hreport

/-- On a faultless sink a turn adds the line that it writes to the block under way. -/
theorem Turn.block {p p' : Play} (h : Turn i s p ev s' p') (hb : s.sink.behaviour.Faultless)
    (hfits : ∀ w ph, p = .on w ph → ph.Fits w (s.relays w.relay))
    (hp : ∀ report, p.report? = some report → report.Sound i events) :
    p'.block = p.block ++ ev.line?.toList := by
  cases h with
  | @write w frame hw =>
    -- the frame that is written is the next one of the effect
    rcases hfits w _ rfl with ⟨-, hnext⟩
    show (w.source.take (w.shown + 1)).map _ = (w.source.take w.shown).map _ ++ [_]
    rw [hnext, List.map_append]
    rfl
  | writeFails hw | blackFails hw =>
    rw [Sink.writeFrame_faultless hb] at hw
    cases hw
  | @deafen w result =>
    have hsound := hp (.played w result) rfl
    exact hsound.block_eq.trans (List.append_nil _).symm
  | black => rfl
  | _ => exact (List.append_nil _).symm

variable [DecidableEq ι]

/-- All reports are true, also that of the one who has the queue once it is settled; and the lines
written are the blocks of all reports and the one under way. -/
structure Told (events : List (Event ι)) (s : Scene ι) : Prop where
  desk : ∀ i p report, s.desk = some (i, p) → p.report? = some report → report.Sound i events
  left : ∀ i report, .left i report ∈ events → report.Sound i events
  written : written events = (reports events).flatMap (·.2.block) ++ s.underWay

theorem Told.step (h : Told events s) (hb : s.sink.behaviour.Faultless) (hs : Supplied s)
    (hc : Caused events s) (hstep : Step s ev s') : Told (events ++ [ev]) s' := by
  have hwritten := h.written
  -- a step that shows no report and writes no line, and leaves the queue with whoever has it
  have hstays : s'.desk = s.desk → ev.left? = none → ev.line? = none →
      Told (events ++ [ev]) s' := by
    intro hdesk hleft hline
    refine ⟨?_, ?_, ?_⟩
    · intro j p report hd hreport
      exact (h.desk j p report (hdesk ▸ hd) hreport).append _
    · intro j report hmem
      rcases List.mem_append.1 hmem with hmem | hmem
      · exact (h.left j report hmem).append _
      · rcases List.mem_singleton.1 hmem with rfl
        cases hleft
    · simp [hwritten, underWay, hdesk, hleft, hline]
  cases hstep with
  | @take i job hd hq =>
    -- nothing is settled yet, and the block under way is still empty
    refine ⟨?_, ?_, ?_⟩
    · intro j p report hdesk hreport
      rcases desk_inj hdesk with ⟨rfl, rfl⟩
      cases job <;> cases hreport
    · intro j report hmem
      exact (h.left j report (by simpa using hmem)).append _
    · have hfirst : job.first.block = [] := by cases job <;> rfl
      simp [hwritten, underWay, hq, hfirst, Event.line?, Event.left?]
  | @turn i p _ s₁ p' hq ht =>
    -- what the player comes to is sound, and each line that it writes extends its block
    have hfits : ∀ w ph, p = .on w ph → ph.Fits w (s.relays w.relay) := by
      intro w ph heq
      subst heq
      exact hs i w ph hq
    have hcaused : ∀ w, p = .on w .judge → (s.token w).cancelled = true →
        Halted i w.ticket w.relay events := by
      rintro w rfl hcancelled
      exact hc i w .judge hq rfl hcancelled
    have hp : ∀ report, p.report? = some report → report.Sound i events :=
      fun report => h.desk i p report hq
    have hleft := ht.left?_eq_none
    refine ⟨?_, ?_, ?_⟩
    · intro j q report hdesk hreport
      rcases desk_inj hdesk with ⟨rfl, rfl⟩
      exact (ht.sound hb hfits hcaused hp report hreport).append _
    · intro j report hmem
      rcases List.mem_append.1 hmem with hmem | hmem
      · exact (h.left j report hmem).append _
      · rcases List.mem_singleton.1 hmem with rfl
        cases hleft
    · have hblock := ht.block hb hfits hp
      simp [hwritten, underWay, hq, hleft, hblock]
  | @leave i report hq =>
    -- the block under way becomes that of the report
    refine ⟨?_, ?_, ?_⟩
    · intro j p report hnone
      cases hnone
    · intro j other hmem
      rcases List.mem_append.1 hmem with hmem | hmem
      · exact (h.left j other hmem).append _
      · rcases Event.left.inj (List.mem_singleton.1 hmem) with ⟨rfl, rfl⟩
        exact (h.desk j _ other hq rfl).append _
    · simp [hwritten, underWay, hq, Event.line?, Event.left?, Play.block]
  | _ => exact hstays rfl rfl rfl

theorem Run.told {b : Behaviour} {g : Random.Generator} (hb : b.Faultless)
    (hrun : Run (fresh b g) events s) : Told events s := by
  induction hrun with
  | refl =>
    refine ⟨?_, ?_, rfl⟩
    · intro i p report hnone
      cases hnone
    · intro i report hnone
      cases hnone
  | step hrun hstep ih => exact ih.step (hrun.taken hb).1 hrun.supplied hrun.caused hstep

/-- Effects are cut, never altered. On a sink that never fails the lines of the light are the blocks
of the operations that were reported, in the order in which the threads got the queue, and then what
the operation under way has left behind. An effect that was played left the lines of its first `n`
frames, `n` being what its outcome says: all of its frames if it was completed; and if it was
interrupted, then a call had struck at its token, or the queue was closed or an epoch drawn after
the thread had got the queue, so that it cancelled the token itself. -/
theorem Run.blocks {b : Behaviour} {g : Random.Generator} (hb : b.Faultless)
    (hrun : Run (fresh b g) events s) :
    s.sink.lines = (reports events).flatMap (·.2.block) ++ s.underWay ∧
    Ordered events s ∧
    ∀ i w result, .left i (.played w result) ∈ events → ∃ n, (w.source.take n).length = n ∧
      (Report.played w result).block = (w.source.take n).map (·.color.lineBytes) ∧
      (result = .ok (.completed n) ∧ w.source.size? = some n ∨
        result = .ok (.interrupted n) ∧ Halted i w.ticket w.relay events) := by
  have htold := hrun.told hb
  refine ⟨?_, hrun.ordered, ?_⟩
  · rw [hrun.lines hb]
    exact htold.written
  · intro i w result hmem
    have hsound := htold.left i _ hmem
    exact ⟨w.shown, hsound.1, hsound.block_eq, hsound.2⟩

/-- The thread 0 plays a single colour, and the thread 1 turns the light off after it. -/
theorem Run.blocks_solid : ∃ (events : List (Event Nat)) (s : Scene Nat),
    (Behaviour.ofTables none [] []).Faultless ∧
    Run (fresh (Behaviour.ofTables none [] []) (Random.Generator.ofSeed 0)) events s ∧
    operations events = [(0, .push (.solid ⟨255, 0, 0⟩)), (1, .turnOff)] ∧
    s.sink.lines = [Text.encode ("255 0 0".toList), Text.encode ("0 0 0".toList)] := by
  have hb : (Behaviour.ofTables none [] []).Faultless := Behaviour.faultless_ofTables (by simp)
  have hreceived := Run.of_perform
    (s := fresh (Behaviour.ofTables none [] []) (Random.Generator.ofSeed 0))
    (.request 0 (.push (.solid ⟨255, 0, 0⟩)) :: Move.steps 0 11)
    [.quiet, .took 0 (.push (.solid ⟨255, 0, 0⟩)), .quiet, .quiet, .quiet, .quiet,
      .quiet, .quiet, .quiet, .quiet, .quiet, .quiet] rfl
  have hwritten := hreceived.step
    (.turn rfl (.write (Sink.writeFrame_faultless (hreceived.taken hb).1 _)))
  have hplayed := hwritten.append (Run.of_perform (Move.steps 0 10)
    [.quiet, .quiet, .quiet, .judged 0 0 false, .quiet, .quiet, .quiet, .quiet, .quiet,
      .left 0 (.played ⟨⟨0⟩, .solid ⟨255, 0, 0⟩, (Random.Generator.ofSeed 0).wide.1, 0, 1⟩
        (.ok (.completed 1)))] rfl)
  have htaken := hplayed.append (Run.of_perform (.request 1 .turnOff :: Move.steps 1 1)
    [.quiet, .took 1 .turnOff] rfl)
  have hblack := htaken.step
    (.turn rfl (.black (Sink.writeFrame_faultless (htaken.taken hb).1 _)))
  have hrun := hblack.step (.leave rfl)
  rcases blocks hb hrun with ⟨hlines, -, -⟩
  exact ⟨_, _, hb, hrun, rfl, hlines.trans rfl⟩

end Scene

end Beacon
