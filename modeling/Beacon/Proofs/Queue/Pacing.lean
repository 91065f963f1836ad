import Beacon.Proofs.Queue.Draining

/-!
# The clock of a queue that plays in one go

Each line that `Queue.pushWith` begins is noted with its time. Whatever each step takes beyond what
it must, and whatever others do meanwhile, no line is begun before the frame before it has stayed
for its delay, and the request has no answer before that; only the last frame of an effect that was
stopped does not stay (`Queue.pushWith_spaced`). What requests leave behind that are made one after
the other fits together (`Queue.Spaced.append`).
-/

namespace Beacon

namespace Queue

variable {σ : Type} {a : Agenda σ} {q q₁ q' : Queue} {s s₁ s' : σ}
variable {source rest : Source Random.Generator} {frames : List Frame} {c : Color}
variable {result : Except IoError Outcome} {shown now mid later : Nat}

/-! ## Single steps -/

/-- Showing a frame notes one time, between the readings of the clock before and after it. -/
theorem exists_begun_display {result : Except IoError Unit}
    (h : q.display a c s = (result, q', s')) :
    ∃ time, q.clock.now ≤ time ∧ time ≤ q'.clock.now ∧ q'.begun = q.begun.push time := by
  simp only [display, Prod.mk.injEq] at h
  rcases h with ⟨-, rfl, -⟩
  exact ⟨_, Clock.now_add_le_pass q.clock 0, Clock.now_add_le_pass (q.clock.pass 0) 0, rfl⟩

@[simp] theorem begun_hold (delay : Duration) (written : Nat) (q : Queue) :
    (q.hold delay written).begun = q.begun := by
  unfold hold
  split <;> rfl

/-- Holding a frame takes its time. -/
theorem now_le_hold (delay : Duration) (written : Nat) (q : Queue) :
    q.clock.now ≤ (q.hold delay written).clock.now := by
  unfold hold
  split
  · exact Nat.le_refl _
  · exact Nat.le_trans (Clock.now_add_le_pass q.clock 0)
      (Nat.le_trans (Nat.le_add_right _ _) (Clock.now_add_le_pass _ _))

/-- A frame that has just been written is held until its delay is over. -/
theorem add_le_now_hold (hs : q.stopped = false) (delay : Duration) :
    q.clock.now + delay.nanos ≤ (q.hold delay q.clock.now).clock.now := by
  have hread := Clock.now_add_le_pass q.clock 0
  have hslept := Clock.now_add_le_pass (q.clock.pass 0)
    (Pace.remaining delay ⟨(q.clock.pass 0).now - q.clock.now⟩).nanos
  simp only [hold, hs, Bool.false_eq_true, if_false]
  simp only [Pace.remaining] at hslept ⊢
  omega

/-! ## Spaced lines -/

/-- From `now` on lines are begun at these times, each not before the one before it has stayed as
long as is said with it, and when the last one has stayed as well it is at most `later`. -/
def Spaced : Nat → List (Nat × Nat) → Nat → Prop
  | now, [], later => now ≤ later
  | now, (time, stay) :: lines, later => now ≤ time ∧ Spaced (time + stay) lines later

theorem Spaced.of_le {lines : List (Nat × Nat)} (h : now ≤ mid) (h' : Spaced mid lines later) :
    Spaced now lines later := by
  cases lines with
  | nil => exact Nat.le_trans h h'
  | cons => exact ⟨Nat.le_trans h h'.1, h'.2⟩

theorem Spaced.append {lines more : List (Nat × Nat)} (h : Spaced now lines mid)
    (h' : Spaced mid more later) : Spaced now (lines ++ more) later := by
  induction lines generalizing now with
  | nil => exact h'.of_le h
  | cons line lines ih => exact ⟨h.1, ih h.2⟩

/-- How long frames stay that are shown one after the other: for their delays, but for the last one
if the effect was stopped meanwhile. -/
def stays (stopped : Bool) : List Frame → List Nat
  | [] => []
  | [frame] => [if stopped then 0 else frame.delay.nanos]
  | frame :: frames => frame.delay.nanos :: stays stopped frames

@[simp] theorem length_stays (stopped : Bool) (frames : List Frame) :
    (stays stopped frames).length = frames.length := by
  induction frames with
  | nil => rfl
  | cons frame frames ih =>
    cases frames with
    | nil => rfl
    | cons => exact congrArg Nat.succ ih

/-- Frames that are shown one after the other are begun one after the other, and stay. -/
theorem Shows.spaced (h : Shows a frames source q s rest q' s') :
    ∃ times, times.length = frames.length ∧ q'.begun.toList = q.begun.toList ++ times ∧
      Spaced q.clock.now (times.zip (stays q'.stopped frames)) q'.clock.now := by
  induction h with
  | nil => exact ⟨[], rfl, (List.append_nil _).symm, Nat.le_refl _⟩
  | @cons frame frames source after rest q q₁ q' s s₁ s' hs hnext hlit hmore ih =>
    rcases exists_begun_display hlit with ⟨time, hfrom, huntil, hbegun⟩
    rcases ih with ⟨times, hlength, hbegun', hspaced⟩
    rw [begun_hold, hbegun, Array.toList_push, List.append_assoc] at hbegun'
    refine ⟨time :: times, congrArg Nat.succ hlength, hbegun', ?_⟩
    have hlonger {stay : Nat} (hstay : time + stay ≤ (q₁.hold frame.delay q₁.clock.now).clock.now) :
        Spaced q.clock.now ((time, stay) :: times.zip (stays q'.stopped frames)) q'.clock.now :=
      ⟨hfrom, hspaced.of_le hstay⟩
    have hheld : q₁.stopped = false →
        time + frame.delay.nanos ≤ (q₁.hold frame.delay q₁.clock.now).clock.now := by
      intro hgoes
      have hhold := add_le_now_hold hgoes frame.delay
      omega
    have hstopped : (q₁.hold frame.delay q₁.clock.now).stopped = q₁.stopped := by
      rw [stopped, panel_hold, stopped]
    -- that the effect was stopped during a line shows only where no other line comes after it
    cases hmore with
    | nil =>
      apply hlonger
      rw [hstopped]
      split
      next => exact Nat.le_trans huntil (now_le_hold _ _ _)
      next hgoes => exact hheld (by simpa using hgoes)
    | cons hgoes => exact hlonger (hheld (hstopped.symm.trans hgoes))

/-! ## Requests -/

/-- How long the lines of a request stay that had this answer after these frames were shown. A line
that could not be written does not stay. -/
def lasting (frames : List Frame) : Except IoError Outcome → List Nat
  | .ok (.completed _) => stays false frames
  | .ok (.interrupted _) => stays true frames
  | .ok .skipped => []
  | .error _ => stays false frames ++ [0]

/-- How an effect ends takes the time of the line that could not be written, if there was one. -/
theorem Ends.spaced {stopped : Bool} (h : Ends a frames.length source q s result q' s')
    (hs : stopped = q.stopped) :
    ∃ times more, q'.begun.toList = q.begun.toList ++ times ∧ times.length = more.length ∧
      lasting frames result = stays stopped frames ++ more ∧
      Spaced q.clock.now (times.zip more) q'.clock.now := by
  cases h with
  | stopped hs' => exact ⟨[], [], by simp, rfl, by simp [lasting, hs, hs'], Nat.le_refl _⟩
  | finished hs' => exact ⟨[], [], by simp, rfl, by simp [lasting, hs, hs'], Nat.le_refl _⟩
  | failed hs' hnext hdark =>
    rcases exists_begun_display hdark with ⟨time, hfrom, huntil, hbegun⟩
    exact ⟨[time], [0], by simp [hbegun], rfl, by simp [lasting, hs, hs'], hfrom, huntil⟩

/-- The lines of a request that is made when the clock shows `q.clock.now` are those of the first
frames of its effect, and perhaps one more that could not be written. Each frame stays for its delay
before the next line is begun and before the request has its answer, but for the last one if the
effect was stopped. -/
theorem pushWith_spaced {ticket : Ticket} {e : Effect}
    (hpush : q.pushWith a ticket e s = some (result, q', s')) :
    ∃ frames times, frames = (q.sourceOf e).take frames.length ∧
      q'.begun.toList = q.begun.toList ++ times ∧ times.length = (lasting frames result).length ∧
      Spaced q.clock.now (times.zip (lasting frames result)) q'.clock.now := by
  cases hstale : q.panel.control.isStale ticket with
  | true =>
    -- nothing is begun
    rw [pushWith_of_stale hstale] at hpush
    simp only [Option.some.injEq, Prod.mk.injEq] at hpush
    rcases hpush with ⟨rfl, rfl, -⟩
    exact ⟨[], [], rfl, (List.append_nil _).symm, rfl, Nat.le_refl _⟩
  | false =>
    -- the frames that were held, and then the one at which the light failed, if it did
    rcases (pushWith_eq_some_iff hstale).1 hpush with
      ⟨frames, rest, q₁, s₁, ended, hshows, hends, rfl⟩
    rcases hshows.spaced with ⟨times, hlength, hbegun, hspaced⟩
    rcases hends.spaced rfl with ⟨last, more, hbegun', hlength', hlasting, hspaced'⟩
    have hclock : (ended.finish e.name result).clock = ended.clock := by cases result <;> rfl
    have hnoted : (ended.finish e.name result).begun = ended.begun := by cases result <;> rfl
    refine ⟨frames, times ++ last, hshows.take_eq.1.symm, ?_, ?_, ?_⟩
    · rw [hnoted, hbegun', hbegun, List.append_assoc]
      rfl
    · rw [hlasting, List.length_append, List.length_append, hlength, hlength', length_stays]
    · rw [hclock, hlasting, List.zip_append (by rw [hlength, length_stays])]
      exact hspaced.append hspaced'

end Queue

end Beacon
