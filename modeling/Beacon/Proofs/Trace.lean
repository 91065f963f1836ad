import Mathlib.Data.List.Induction

/-!
# Traces

A trace of a step relation is a sequence of steps, with what each of them shows. What holds at its
start and is kept by every step holds at its end (`Trace.invariant`), and a trace passes through
some state after any first part of what it shows (`Trace.split`, `Trace.split_at`).
-/

namespace Beacon

/-- A sequence of steps from one state to another, with what they show. -/
inductive Trace {σ ε : Type} (Step : σ → ε → σ → Prop) (s₀ : σ) : List ε → σ → Prop
  | refl : Trace Step s₀ [] s₀
  | step {events s ev s'} (htrace : Trace Step s₀ events s) (hstep : Step s ev s') :
      Trace Step s₀ (events ++ [ev]) s'

namespace Trace

variable {σ ε : Type} {Step : σ → ε → σ → Prop} {s₀ s s₁ : σ} {ev : ε}
variable {events before after : List ε}

/-- A trace can be continued by another one. -/
theorem append (h₁ : Trace Step s₀ before s) (h₂ : Trace Step s after s₁) :
    Trace Step s₀ (before ++ after) s₁ := by
  induction h₂ with
  | refl => simpa using h₁
  | step _ hstep ih =>
    rw [← List.append_assoc]
    exact ih.step hstep

/-- A trace that shows nothing has no step. -/
theorem eq_of_nil (h : Trace Step s₀ [] s) : s = s₀ := by
  generalize hevents : [] = events at h
  cases h with
  | refl => rfl
  | step => simp at hevents

/-- The last step of a trace. -/
theorem exists_last (h : Trace Step s₀ (events ++ [ev]) s₁) :
    ∃ s, Trace Step s₀ events s ∧ Step s ev s₁ := by
  generalize hall : events ++ [ev] = all at h
  cases h with
  | refl => simp at hall
  | step htrace hstep =>
    rcases List.append_inj' hall rfl with ⟨rfl, hlast⟩
    rcases List.singleton_inj.1 hlast with rfl
    exact ⟨_, htrace, hstep⟩

/-- A trace passes through a state after any first part of what it shows. -/
theorem split (h : Trace Step s₀ (before ++ after) s₁) :
    ∃ s, Trace Step s₀ before s ∧ Trace Step s after s₁ := by
  induction after using List.reverseRecOn generalizing s₁ with
  | nil =>
    rw [List.append_nil] at h
    exact ⟨s₁, h, .refl⟩
  | append_singleton after ev ih =>
    rw [← List.append_assoc] at h
    rcases h.exists_last with ⟨s, hinit, hstep⟩
    rcases ih hinit with ⟨mid, hbefore, hafter⟩
    exact ⟨mid, hbefore, hafter.step hstep⟩

/-- The step that shows something stands between what is shown before and after it. -/
theorem split_at (h : Trace Step s₀ (before ++ ev :: after) s₁) :
    ∃ s s', Trace Step s₀ before s ∧ Step s ev s' ∧ Trace Step s' after s₁ := by
  have h' : Trace Step s₀ ((before ++ [ev]) ++ after) s₁ := by simpa using h
  rcases h'.split with ⟨s', hbefore, hafter⟩
  rcases hbefore.exists_last with ⟨s, hfirst, hstep⟩
  exact ⟨s, s', hfirst, hstep, hafter⟩

/-- A step stands between what is shown before and after it. -/
theorem join_at {s' : σ} (hbefore : Trace Step s₀ before s) (hstep : Step s ev s')
    (hafter : Trace Step s' after s₁) : Trace Step s₀ (before ++ ev :: after) s₁ := by
  simpa using (hbefore.step hstep).append hafter

/-- What holds at the start and is kept by every step of a trace holds at its end. -/
theorem invariant_of_mem {P : σ → Prop}
    (hstep : ∀ s ev s', ev ∈ events → Step s ev s' → P s → P s') (h : Trace Step s₀ events s₁)
    (h₀ : P s₀) : P s₁ := by
  induction h with
  | refl => exact h₀
  | step _ hs ih =>
    refine hstep _ _ _ (by simp) hs (ih ?_)
    intro s ev s' hev
    exact hstep s ev s' (List.mem_append_left _ hev)

/-- What holds at the start and is kept by every step holds at the end. -/
theorem invariant {P : σ → Prop} (hstep : ∀ s ev s', Step s ev s' → P s → P s')
    (h : Trace Step s₀ events s₁) (h₀ : P s₀) : P s₁ :=
  h.invariant_of_mem (fun s ev s' _ => hstep s ev s') h₀

end Trace

end Beacon
