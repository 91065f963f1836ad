import Beacon.Proofs.Scene.Upkeep

/-!
# Why an effect was cancelled

A token is cancelled while its effect is being played only because of a call: one struck at it, or
one closed the queue or drew an epoch after the player had got the queue, so that the player found
its own request stale and cancelled it (`Run.caused`).
-/

namespace Beacon

/-- Whether a player at this point has looked at its flag for the last time. -/
def Phase.over : Phase → Bool
  | clear _ | drop _ | dropRouse _ | deafen _ => true
  | _ => false

/-- Whether one who has the queue must have been overtaken if this is the epoch and this the closed
flag: it has looked at what now is different. -/
def Play.Overtaken (epoch : UInt64) (closed : Bool) : Play → Prop
  | checkEpoch _ _ => closed = true
  | start t _ => closed = true ∨ epoch ≠ t.epoch
  | on w .enroll | on w .recheckClosed => closed = true ∨ epoch ≠ w.ticket.epoch
  | on w .recheckEpoch => epoch ≠ w.ticket.epoch
  | on _ .abort => True
  | _ => False

namespace Scene

variable {ι : Type} {s s' : Scene ι} {i : ι} {ev : Event ι}

/-- Whether a step closes the queue or draws an epoch. -/
def Event.calls : Event ι → Bool
  | shut _ | drew _ _ => true
  | _ => false

/-- The operations that threads got the queue for. -/
def Event.took? : Event ι → Option (ι × Job)
  | took i job => some (i, job)
  | _ => none

/-- The last that got the queue is the thread `i`, and `later` is what has happened since. -/
def GotQueue (i : ι) (events later : List (Event ι)) : Prop :=
  (∃ earlier job, events = earlier ++ .took i job :: later) ∧ ∀ ev ∈ later, ev.took? = none

/-- The token of an effect that a thread plays has been cancelled since the thread got the queue: a
call struck at it, or the player cancelled it itself, and it did so after a call. -/
def Halted (i : ι) (t : Ticket) (k : Nat) (events : List (Event ι)) : Prop :=
  ∃ before later ev more, events = before ++ ev :: more ∧ GotQueue i before later ∧
    ((∃ j e, ev = .struck j e k) ∨ ev = .aborted i t k ∧ ∃ call ∈ later, call.calls = true)

theorem GotQueue.append {events later more : List (Event ι)} (h : GotQueue i events later)
    (hmore : ∀ ev ∈ more, ev.took? = none) : GotQueue i (events ++ more) (later ++ more) := by
  rcases h with ⟨⟨earlier, job, rfl⟩, hlater⟩
  refine ⟨⟨earlier, job, by simp⟩, ?_⟩
  intro ev hev
  rcases List.mem_append.1 hev with hev | hev
  · exact hlater ev hev
  · exact hmore ev hev

theorem Halted.append {t : Ticket} {k : Nat} {events : List (Event ι)} (h : Halted i t k events)
    (more : List (Event ι)) : Halted i t k (events ++ more) := by
  rcases h with ⟨before, later, ev, rest, rfl, hgot, hcause⟩
  exact ⟨before, later, ev, rest ++ more, by simp, hgot, hcause⟩

/-! ## Overtaken players -/

/-- One who has been overtaken by the next point of its play has been so before. -/
theorem Turn.overtaken {p p' : Play} (h : Turn i s p ev s' p')
    (hp : p'.Overtaken s.epoch s.closed) : p.Overtaken s.epoch s.closed := by
  cases h with
  | passClosed hc =>
    rw [Play.Overtaken, hc] at hp
    cases hp
  | passEpoch he =>
    rcases hp with hc | hne
    · exact hc
    · exact absurd he hne
  | start | lockEnroll | enroll => exact hp
  | staleClosed hc => exact Or.inl hc
  | freshClosed hc => exact Or.inr hp
  | staleEpoch he => exact he
  | _ => cases hp

/-- A turn does not show that the queue was got. -/
theorem Turn.took?_eq_none {p p' : Play} (h : Turn i s p ev s' p') : ev.took? = none := by
  cases h <;> rfl

/-- Whoever has the queue was the last to get it, and if it has been overtaken, then there was a
call since. -/
def Attended (events : List (Event ι)) (s : Scene ι) : Prop :=
  ∀ i p, s.desk = some (i, p) → ∃ later, GotQueue i events later ∧
    (p.Overtaken s.epoch s.closed → ∃ call ∈ later, call.calls = true)

variable [DecidableEq ι]

/-- The queue is got only while nobody has it. -/
theorem Step.took?_eq_none (hstep : Step s ev s') {p : Play} (hdesk : s.desk = some (i, p)) :
    ev.took? = none := by
  cases hstep with
  | take hd hq => cases hq.symm.trans hdesk
  | turn hq ht => exact ht.took?_eq_none
  | _ => rfl

theorem Attended.step {events : List (Event ι)} (h : Attended events s) (hstep : Step s ev s') :
    Attended (events ++ [ev]) s' := by
  intro j p hdesk
  -- a thread that keeps the queue was overtaken before, or it is overtaken by this step
  have hkeeps : s.desk = some (j, p) → ∃ later, GotQueue j (events ++ [ev]) later ∧
      (p.Overtaken s'.epoch s'.closed → ∃ call ∈ later, call.calls = true) := by
    intro hold
    rcases h j p hold with ⟨later, hgot, hcalled⟩
    have htook : ∀ x ∈ [ev], x.took? = none := by
      intro x hx
      rcases List.mem_singleton.1 hx with rfl
      exact hstep.took?_eq_none hold
    refine ⟨later ++ [ev], hgot.append htook, ?_⟩
    intro hover
    cases hcalls : ev.calls with
    | true => exact ⟨ev, by simp, hcalls⟩
    | false =>
      have hepoch : s'.epoch = s.epoch := hstep.epoch_eq (by rintro k e rfl; cases hcalls)
      have hclosed : s'.closed = s.closed := hstep.closed_eq (by rintro k rfl; cases hcalls)
      rw [hepoch, hclosed] at hover
      rcases hcalled hover with ⟨call, hmem, hcall⟩
      exact ⟨call, List.mem_append_left _ hmem, hcall⟩
  cases hstep with
  | @take i job hd hq =>
    -- whoever has just got the queue has not been overtaken
    rcases desk_inj hdesk with ⟨rfl, rfl⟩
    refine ⟨[], ⟨⟨events, job, rfl⟩, by simp⟩, ?_⟩
    intro hover
    cases job <;> cases hover
  | @turn i p _ s₁ p' hq ht =>
    -- a turn changes neither the epoch nor the closed flag, so the player was overtaken before
    rcases desk_inj hdesk with ⟨rfl, rfl⟩
    rcases h i p hq with ⟨later, hgot, hcalled⟩
    have htook : ∀ x ∈ [ev], x.took? = none := by
      intro x hx
      rcases List.mem_singleton.1 hx with rfl
      exact ht.took?_eq_none
    refine ⟨later ++ [ev], hgot.append htook, ?_⟩
    intro hover
    rcases ht.frame with ⟨hepoch, hclosed, -, -⟩
    rw [hepoch, hclosed] at hover
    rcases hcalled (ht.overtaken hover) with ⟨call, hmem, hcall⟩
    exact ⟨call, List.mem_append_left _ hmem, hcall⟩
  | leave hq => cases hdesk
  | _ => exact hkeeps hdesk

theorem Run.attended {b : Behaviour} {g : Random.Generator} {events : List (Event ι)}
    (hrun : Run (fresh b g) events s) : Attended events s := by
  induction hrun with
  | refl =>
    intro i p hnone
    cases hnone
  | step hrun hstep ih => exact ih.step hstep

/-! ## Causes -/

omit [DecidableEq ι] in
/-- The flag of a player that has yet to look at it was up before, or has been raised by itself. -/
theorem Turn.cancelled_cause {p : Play} {w' : Show} {ph' : Phase}
    (h : Turn i s p ev s' (.on w' ph')) (hc : (s'.token w').cancelled = true)
    (hover : ph'.over = false) :
    ∃ w ph, p = .on w ph ∧ w.ticket = w'.ticket ∧ w.relay = w'.relay ∧
      ((s.token w).cancelled = true ∧ ph.over = false ∨
        ph = .abort ∧ ev = .aborted i w'.ticket w'.relay) := by
  cases h with
  | start =>
    -- the token of an effect that starts is fresh
    simp [token, opened, opening, Token.fresh] at hc
  | abort ht => exact ⟨w', _, rfl, rfl, rfl, Or.inr ⟨rfl, rfl⟩⟩
  | abortRouse | receive | wake =>
    refine ⟨w', _, rfl, rfl, rfl, Or.inl ⟨?_, rfl⟩⟩
    simpa [token, onToken, onRelay] using hc
  | @write w => exact ⟨w, _, rfl, rfl, rfl, Or.inl ⟨hc, rfl⟩⟩
  | writeFails | judgeCancelled | judgeOn | lockClear | clear | drop | dropAgain | dropRouse =>
    cases hover
  | _ => exact ⟨w', _, rfl, rfl, rfl, Or.inl ⟨hc, rfl⟩⟩

/-- Whenever the flag of an effect is up that its player has yet to look at, there is a cause for
it. -/
def Caused (events : List (Event ι)) (s : Scene ι) : Prop :=
  ∀ i w ph, s.desk = some (i, .on w ph) → ph.over = false → (s.token w).cancelled = true →
    Halted i w.ticket w.relay events

theorem Caused.step {events : List (Event ι)} (h : Caused events s) (ha : Attended events s)
    (hstep : Step s ev s') : Caused (events ++ [ev]) s' := by
  intro j w ph hdesk hover hc
  cases hstep with
  | @strike i halt e k hd hl hactive ht =>
    -- this step is the cause, if it is the effect of this player that it strikes
    by_cases hk : w.relay = k
    · subst hk
      rcases ha j _ hdesk with ⟨later, hgot, -⟩
      exact ⟨events, later, _, [], rfl, hgot, Or.inl ⟨i, e, rfl⟩⟩
    · have hold : (s.token w).cancelled = true := by
        simpa [token, onToken, onRelay, hk] using hc
      exact (h j w ph hdesk hover hold).append _
  | @rouse i k hl =>
    -- leaving the wake-up raises no flag
    have hold : (s.token w).cancelled = true := by
      by_cases hk : w.relay = k
      · subst hk
        simpa [token, onToken, onRelay] using hc
      · simpa [token, onToken, onRelay, hk] using hc
    exact (h j w ph hdesk hover hold).append _
  | @take i job hd hq =>
    cases job <;> cases (desk_inj hdesk).2
  | @turn i p _ s₁ p' hq ht =>
    -- the flag was up before, or the player has found its request stale and raises it itself
    rcases desk_inj hdesk with ⟨rfl, rfl⟩
    obtain ⟨w₀, ph₀, rfl, hticket, hrelay, ⟨hold, hover₀⟩ | ⟨rfl, rfl⟩⟩ :=
      ht.cancelled_cause hc hover
    · exact hticket ▸ hrelay ▸ (h i w₀ ph₀ hq hover₀ hold).append _
    · rcases ha i _ hq with ⟨later, hgot, hcalled⟩
      exact ⟨events, later, _, [], rfl, hgot, Or.inr ⟨rfl, hcalled trivial⟩⟩
  | leave hq => cases hdesk
  | @compose k r hcompose =>
    have hold : (s.token w).cancelled = true := by
      by_cases hk : w.relay = k
      · subst hk
        simpa [token, onRelay, hcompose.token_eq] using hc
      · simpa [token, onRelay, hk] using hc
    exact (h j w ph hdesk hover hold).append _
  | _ => exact (h j w ph hdesk hover hc).append _

/-- In every run each cancellation has its cause. -/
theorem Run.caused {b : Behaviour} {g : Random.Generator} {events : List (Event ι)}
    (hrun : Run (fresh b g) events s) : Caused events s := by
  induction hrun with
  | refl =>
    intro i w ph hnone
    cases hnone
  | step hrun hstep ih => exact ih.step hrun.attended hstep

end Scene

end Beacon
