import Beacon.Proofs.Scene
import Beacon.Proofs.Sink.Faultless
import Beacon.Proofs.Trace

/-!
# The lines of a scene

On a sink that never fails the lines of the light are those that the steps of the run have written,
in the order of these steps, and nothing else (`Run.lines`). Only the one who has the queue writes,
one line with each step that writes at all. A run that writes nothing is a `CalmRun`, and an
`InnerRun` if moreover no thread begins or ends anything meanwhile.
-/

namespace Beacon

namespace Scene

variable {ι : Type} {s s' : Scene ι} {i : ι} {ev : Event ι}

/-- The line that a step writes. -/
def Event.line? : Event ι → Option (List UInt8)
  | wrote _ _ c => some c.lineBytes
  | blackened _ => some Color.black.lineBytes
  | _ => none

/-- The lines that a run writes. -/
def written (events : List (Event ι)) : List (List UInt8) := events.filterMap Event.line?

@[simp] theorem written_append (before after : List (Event ι)) :
    written (before ++ after) = written before ++ written after :=
  List.filterMap_append

@[simp] theorem written_singleton (ev : Event ι) : written [ev] = ev.line?.toList := by
  cases hev : ev.line? <;> simp [written, hev]

/-- No line of a run has the end of a line in it. -/
theorem newline_notMem_written {events : List (Event ι)} {l : List UInt8}
    (hl : l ∈ written events) : Sink.newline ∉ l := by
  rcases List.mem_filterMap.1 hl with ⟨ev, -, hev⟩
  cases ev with
  | wrote _ _ c =>
    rcases Option.some.inj hev with rfl
    exact c.newline_notMem_lineBytes
  | blackened _ =>
    rcases Option.some.inj hev with rfl
    exact Color.black.newline_notMem_lineBytes
  | _ => cases hev

/-- A turn writes its line whole, behind the earlier ones. -/
theorem Turn.taken {p p' : Play} (h : Turn i s p ev s' p') (hb : s.sink.behaviour.Faultless) :
    s'.sink.behaviour = s.sink.behaviour ∧ s'.sink.taken.toList =
      s.sink.taken.toList ++ ev.line?.toList.flatMap (· ++ [Sink.newline]) := by
  cases h with
  | write | writeFails | black | blackFails =>
    refine ⟨Sink.writeFrame_behaviour _ _, ?_⟩
    rw [Sink.taken_writeFrame hb]
    simp [Event.line?]
  | _ => exact ⟨rfl, (List.append_nil _).symm⟩

variable [DecidableEq ι]

theorem Step.taken (h : Step s ev s') (hb : s.sink.behaviour.Faultless) :
    s'.sink.behaviour = s.sink.behaviour ∧ s'.sink.taken.toList =
      s.sink.taken.toList ++ ev.line?.toList.flatMap (· ++ [Sink.newline]) := by
  cases h with
  | turn hq ht => exact ht.taken hb
  | _ => exact ⟨rfl, (List.append_nil _).symm⟩

variable {b : Behaviour} {g : Random.Generator} {events : List (Event ι)}

/-- What a faultless sink has taken are the lines of the run. -/
theorem Run.taken (hb : b.Faultless) (hrun : Run (fresh b g) events s) :
    s.sink.behaviour.Faultless ∧
      s.sink.taken.toList = (written events).flatMap (· ++ [Sink.newline]) := by
  induction hrun with
  | refl => exact ⟨hb, rfl⟩
  | @step events s ev s' hrun hstep ih =>
    rcases ih with ⟨hfaultless, htaken⟩
    rcases hstep.taken hfaultless with ⟨hbehaviour, htaken'⟩
    refine ⟨by rw [hbehaviour]; exact hfaultless, ?_⟩
    rw [htaken', htaken, written_append, written_singleton, List.flatMap_append]

/-- On a faultless sink the lines of the light are those of the run, in order. -/
theorem Run.lines (hb : b.Faultless) (hrun : Run (fresh b g) events s) :
    s.sink.lines = written events := by
  rcases hrun.taken hb with ⟨-, htaken⟩
  apply Sink.lines_eq_of_taken
  · intro l hl
    exact newline_notMem_written hl
  · exact htaken

/-! ## Runs that write nothing -/

/-- A run that writes no line. -/
structure CalmRun (s₀ : Scene ι) (events : List (Event ι)) (s : Scene ι) : Prop where
  run : Run s₀ events s
  calm : ∀ ev ∈ events, ev.line? = none

namespace CalmRun

variable {s₀ s₁ : Scene ι} {before after : List (Event ι)}

theorem refl : CalmRun s [] s := ⟨.refl, fun _ hnone => by cases hnone⟩

theorem step (h : CalmRun s₀ events s) (hstep : Step s ev s')
    (hev : ev.line? = none := by rfl) : CalmRun s₀ (events ++ [ev]) s' := by
  refine ⟨h.run.step hstep, ?_⟩
  intro x hx
  rcases List.mem_append.1 hx with hx | hx
  · exact h.calm x hx
  · rcases List.mem_singleton.1 hx with rfl
    exact hev

theorem append (h : CalmRun s₀ before s) (h' : CalmRun s after s₁) :
    CalmRun s₀ (before ++ after) s₁ := by
  refine ⟨h.run.append h'.run, ?_⟩
  intro x hx
  exact (List.mem_append.1 hx).elim (h.calm x) (h'.calm x)

end CalmRun

/-! ## Runs in which nobody comes or goes -/

/-- A step with which no thread begins or ends anything, nor gets a ticket: a thread gets the queue,
the one who has it goes on, or a composer does. -/
def Inner (s : Scene ι) (ev : Event ι) (s' : Scene ι) : Prop :=
  Step s ev s' ∧ s'.doing = s.doing ∧ s'.issued = s.issued

/-- Whatever the threads were at, they are at it still. -/
theorem doing_of_inner (h : Trace Inner s events s') : s'.doing = s.doing :=
  h.invariant (P := fun s' => s'.doing = s.doing) (fun _ _ _ hstep => hstep.2.1.trans) rfl

/-- A run that writes no line, and in which no thread begins or ends anything. -/
structure InnerRun (s₀ : Scene ι) (events : List (Event ι)) (s : Scene ι) : Prop
    extends CalmRun s₀ events s where
  inner : Trace Inner s₀ events s

namespace InnerRun

variable {s₀ s₁ : Scene ι} {before after : List (Event ι)}

theorem refl : InnerRun s [] s := ⟨.refl, .refl⟩

theorem step (h : InnerRun s₀ events s) (hstep : Step s ev s') (hev : ev.line? = none := by rfl)
    (hdoing : s'.doing = s.doing := by rfl) (hissued : s'.issued = s.issued := by rfl) :
    InnerRun s₀ (events ++ [ev]) s' :=
  ⟨h.toCalmRun.step hstep hev, h.inner.step ⟨hstep, hdoing, hissued⟩⟩

theorem append (h : InnerRun s₀ before s) (h' : InnerRun s after s₁) :
    InnerRun s₀ (before ++ after) s₁ :=
  ⟨h.toCalmRun.append h'.toCalmRun, h.inner.append h'.inner⟩

theorem doing (h : InnerRun s₀ events s) : s.doing = s₀.doing := doing_of_inner h.inner

end InnerRun

end Scene

end Beacon
