import Beacon.Proofs.Scene

/-!
# What every step of a scene keeps

The facts about scenes that do not depend on what is asked of the queue. A raised flag stays up
(`Step.cancelled`), the closed flag stays up (`Step.closed`), the epoch changes only when a call
draws it (`Step.epoch_eq`), and whoever has the queue goes on with what it was asked for until it
leaves (`Run.serves`).

Two invariants are kept throughout. `Kept`: the active slot holds the relay of the effect that is
being played, from the moment its token is entered until the slot is cleared. `Timely`, as long as
the epoch does not wrap: no ticket and no call has an epoch that is still to come.
-/

namespace Beacon

/-- Whether a player at this point has its token in the active slot. -/
def Phase.entered : Phase → Bool
  | enroll | drop _ | dropRouse _ | deafen _ => false
  | _ => true

/-- The relay in the active slot while the play is at this point. -/
def Play.entered : Play → Option Nat
  | on w ph => if ph.entered then some w.relay else none
  | _ => none

@[simp] theorem Job.entered_first (job : Job) : job.first.entered = none := by
  cases job <;> rfl

namespace Relay

@[simp] theorem token_onToken (f : Token → Token) (r : Relay) : (r.onToken f).token = f r.token :=
  rfl

@[simp] theorem token_emptied (r : Relay) : r.emptied.token = r.token := rfl

@[simp] theorem token_deafened (r : Relay) : r.deafened.token = r.token := rfl

end Relay

namespace Scene

variable {ι : Type} {s s' : Scene ι} {i : ι} {ev : Event ι}

/-! ## Flags and counters -/

/-- A turn of the one who has the queue leaves alone what only others change. -/
theorem Turn.frame {p p' : Play} (h : Turn i s p ev s' p') :
    s'.epoch = s.epoch ∧ s'.closed = s.closed ∧ s'.doing = s.doing ∧ s'.issued = s.issued := by
  cases h <;> exact ⟨rfl, rfl, rfl, rfl⟩

theorem Turn.born_le {p p' : Play} (h : Turn i s p ev s' p') : s.born ≤ s'.born := by
  cases h <;> first | exact Nat.le_refl _ | exact Nat.le_succ _

/-- What holds of a token and is kept by a change at one relay holds after that change. -/
theorem token_update (P : Token → Prop) {relays : Nat → Relay} {k j : Nat} {r : Relay}
    (hr : P (relays k).token → P r.token) (h : P (relays j).token) :
    P (Function.update relays k r j).token := by
  by_cases hj : j = k
  · subst hj
    simpa using hr h
  · simpa [hj] using h

theorem Turn.cancelled {p p' : Play} (h : Turn i s p ev s' p') {k : Nat} (hk : k < s.born)
    (hc : (s.relays k).token.cancelled = true) : (s'.relays k).token.cancelled = true := by
  cases h with
  | start =>
    have hne : k ≠ s.born := by omega
    simpa [opened, hne] using hc
  | abort | abortRouse | receive | wake | drop | dropRouse | deafen =>
    exact token_update (·.cancelled = true) (by simp) hc
  | _ => exact hc

variable [DecidableEq ι]

/-- An epoch that does not wrap comes after the one before. -/
theorem epoch_lt_succ {e : UInt64} (h : e + 1 ≠ 0) : e < e + 1 := by
  have hlt := e.toNat_lt
  have hne : (e + 1).toNat ≠ 0 := fun h0 => h (UInt64.toNat_inj.1 h0)
  rw [UInt64.lt_iff_toNat_lt]
  rw [UInt64.toNat_add] at hne ⊢
  have hone : (1 : UInt64).toNat = 1 := rfl
  rw [hone] at hne ⊢
  omega

/-- A flag that is up stays up. -/
theorem Step.cancelled (h : Step s ev s') {k : Nat} (hk : k < s.born)
    (hc : (s.relays k).token.cancelled = true) : (s'.relays k).token.cancelled = true := by
  cases h with
  | strike | rouse => exact token_update (·.cancelled = true) (by simp) hc
  | turn hq ht => exact ht.cancelled hk hc
  | compose hcompose =>
    refine token_update (·.cancelled = true) ?_ hc
    rw [hcompose.token_eq]
    exact id
  | _ => exact hc

theorem Step.born_le (h : Step s ev s') : s.born ≤ s'.born := by
  cases h with
  | turn hq ht => exact ht.born_le
  | _ => exact Nat.le_refl _

/-- A queue that is closed stays closed. -/
theorem Step.closed (h : Step s ev s') (hc : s.closed = true) : s'.closed = true := by
  cases h with
  | shut => rfl
  | turn hq ht => exact ht.frame.2.1.trans hc
  | _ => exact hc

/-- Only a call that raises the closed flag closes the queue. -/
theorem Step.closed_eq (h : Step s ev s') (hev : ∀ i, ev ≠ .shut i) : s'.closed = s.closed := by
  cases h with
  | shut => exact absurd rfl (hev _)
  | turn hq ht => exact ht.frame.2.1
  | _ => rfl

/-- The epoch changes only when a call draws the next one. -/
theorem Step.epoch_eq (h : Step s ev s') (hev : ∀ i e, ev ≠ .drew i e) : s'.epoch = s.epoch := by
  cases h with
  | draw => exact absurd rfl (hev _ _)
  | turn hq ht => exact ht.frame.1
  | _ => rfl

/-- While no call draws the epoch zero, the epoch never falls. -/
theorem Step.epoch_le (h : Step s ev s') (hev : ∀ i, ev ≠ .drew i 0) : s.epoch ≤ s'.epoch := by
  cases h with
  | draw hd =>
    have hne : s.epoch + 1 ≠ 0 := fun h0 => hev _ (by rw [h0])
    exact UInt64.le_of_lt (epoch_lt_succ hne)
  | turn hq ht => exact UInt64.le_of_eq ht.frame.1.symm
  | _ => exact UInt64.le_refl _

/-! ## The active slot -/

/-- The active slot holds the relay of the effect that is being played, and that relay is in use.
The thread that has the queue is one that asked for it, and a call that holds the lock of the active
slot has drawn its epoch. -/
structure Kept (s : Scene ι) : Prop where
  active : s.active = s.desk.bind fun d => d.2.entered
  born : ∀ i w ph, s.desk = some (i, .on w ph) → w.relay < s.born
  queued : ∀ i p, s.desk = some (i, p) → ∃ job, s.doing i = .queued job
  held : ∀ i grip, s.latch = some (.caller i grip) → ∃ halt e, s.doing i = .striking halt e

omit [DecidableEq ι] in
theorem Kept.fresh (b : Behaviour) (g : Random.Generator) : Kept (Scene.fresh b g : Scene ι) :=
  ⟨rfl, fun _ _ _ h => (Option.some_ne_none _ h.symm).elim,
    fun _ _ h => (Option.some_ne_none _ h.symm).elim,
    fun _ _ h => (Option.some_ne_none _ h.symm).elim⟩

omit [DecidableEq ι] in
/-- A turn enters the token in the slot, and clears the slot, exactly when the play says so. -/
theorem Turn.active {p p' : Play} (h : Turn i s p ev s' p') (ha : s.active = p.entered) :
    s'.active = p'.entered := by
  cases h <;> first | exact ha | rfl

omit [DecidableEq ι] in
theorem Turn.relay_lt {p : Play} {w' : Show} {ph' : Phase} (h : Turn i s p ev s' (.on w' ph'))
    (hborn : ∀ w ph, p = .on w ph → w.relay < s.born) : w'.relay < s'.born := by
  cases h with
  | start => exact Nat.lt_succ_self _
  | @write w => exact hborn w _ rfl
  | _ => exact hborn _ _ rfl

omit [DecidableEq ι] in
/-- A turn takes the lock of the active slot only for the player itself. -/
theorem Turn.latch {p p' : Play} (h : Turn i s p ev s' p') {j : ι} {grip : Grip}
    (hl : s'.latch = some (.caller j grip)) : s.latch = some (.caller j grip) := by
  cases h with
  | lockEnroll | lockClear => cases hl
  | enroll | clear => cases hl
  | _ => exact hl

/-- A thread that goes elsewhere neither has the queue nor holds the lock of the active slot. -/
theorem Kept.go (h : Kept s) {p : Point} (hqueued : ∀ job, s.doing i ≠ .queued job)
    (hstriking : ∀ halt e, s.doing i ≠ .striking halt e) : Kept (s.go i p) := by
  refine ⟨h.active, h.born, ?_, ?_⟩
  · intro j q hdesk
    rcases h.queued j q hdesk with ⟨job, hjob⟩
    have hj : j ≠ i := fun hji => hqueued job (hji ▸ hjob)
    exact ⟨job, by simpa [Scene.go, hj] using hjob⟩
  · intro j grip hlatch
    rcases h.held j grip hlatch with ⟨halt, e, hdoing⟩
    have hj : j ≠ i := fun hji => hstriking halt e (hji ▸ hdoing)
    exact ⟨halt, e, by simpa [Scene.go, hj] using hdoing⟩

theorem Kept.step (h : Kept s) (hstep : Step s ev s') : Kept s' := by
  have hactive := h.active
  cases hstep with
  -- a thread that was idle neither has the queue nor holds the lock, wherever it goes
  | request job hd hj => exact h.go (by simp [hd]) (by simp [hd])
  | call halt hd => exact h.go (by simp [hd]) (by simp [hd])
  | @shut i hd =>
    -- nor does one that is about to close the queue or to draw an epoch
    have hgo := h.go (i := i) (p := .drawing .close) (by simp [hd]) (by simp [hd])
    exact ⟨hgo.active, hgo.born, hgo.queued, hgo.held⟩
  | @draw i halt hd =>
    have hgo := h.go (i := i) (p := .striking halt (s.epoch + 1)) (by simp [hd]) (by simp [hd])
    exact ⟨hgo.active, hgo.born, hgo.queued, hgo.held⟩
  | @grab i halt e hd hl =>
    -- only a thread that strikes takes the lock
    refine ⟨hactive, h.born, h.queued, ?_⟩
    intro j grip hlatch
    simp only [Option.some.injEq, Latch.caller.injEq] at hlatch
    rcases hlatch with ⟨rfl, -⟩
    exact ⟨halt, e, hd⟩
  | miss hl | strikeAgain hl | strike _ hl | rouse hl =>
    -- the lock stays with the call that has it
    refine ⟨hactive, h.born, h.queued, ?_⟩
    intro j grip hlatch
    simp only [Option.some.injEq, Latch.caller.injEq] at hlatch
    rcases hlatch with ⟨rfl, -⟩
    exact h.held _ _ hl
  | @release i halt e hd hl =>
    -- the lock is free now, and the caller did not have the queue
    refine ⟨hactive, h.born, ?_, ?_⟩
    · intro j p hdesk
      rcases h.queued j p hdesk with ⟨job, hjob⟩
      have hj : j ≠ i := fun hji => by simp [hji, hd] at hjob
      exact ⟨job, by simpa [Scene.go, hj] using hjob⟩
    · intro j grip hlatch
      cases hlatch
  | @take i job hd hq =>
    -- nobody had the queue, and the first thing to do with it enters no token
    rw [hq] at hactive
    refine ⟨by simpa using hactive, ?_, ?_, h.held⟩
    · intro j w ph hdesk
      cases job <;> cases (desk_inj hdesk).2
    · intro j p hdesk
      rcases desk_inj hdesk with ⟨rfl, -⟩
      exact ⟨job, hd⟩
  | @turn i p _ s₁ p' hq ht =>
    -- the play says when the slot is filled and cleared; threads stay where they are
    rw [hq] at hactive
    have hdoing := ht.frame.2.2.1
    refine ⟨by simpa using ht.active (by simpa using hactive), ?_, ?_, ?_⟩
    · intro j w ph hdesk
      rcases desk_inj hdesk with ⟨rfl, rfl⟩
      exact ht.relay_lt fun w ph hp => h.born _ w ph (hp ▸ hq)
    · intro j q hdesk
      rcases desk_inj hdesk with ⟨rfl, -⟩
      exact hdoing ▸ h.queued i p hq
    · intro j grip hlatch
      exact hdoing ▸ h.held j grip (ht.latch hlatch)
  | @leave i report hq =>
    -- the thread that leaves had asked for the queue, so it was not striking
    rw [hq] at hactive
    rcases h.queued _ _ hq with ⟨job, hjob⟩
    refine ⟨hactive, ?_, ?_, ?_⟩
    · intro j w ph hdesk
      cases hdesk
    · intro j p hdesk
      cases hdesk
    · intro j grip hlatch
      rcases h.held j grip hlatch with ⟨halt, e, hdoing⟩
      have hj : j ≠ i := fun hji => by simp [hji, hjob] at hdoing
      exact ⟨halt, e, by simpa [Scene.go, hj] using hdoing⟩
  | _ => exact ⟨hactive, h.born, h.queued, h.held⟩

theorem Run.kept {b : Behaviour} {g : Random.Generator} {events : List (Event ι)}
    (h : Run (fresh b g) events s) : Kept s :=
  h.invariant (fun _ _ _ hstep hk => hk.step hstep) (Kept.fresh b g)

/-! ## Tickets -/

end Scene

/-- The ticket that one who has the queue came with. -/
def Play.ticket? : Play → Option Ticket
  | checkClosed t _ | checkEpoch t _ | start t _ | done (.skipped t _) => some t
  | on w _ | done (.played w _) => some w.ticket
  | _ => none

/-- The epoch that a thread has in hand outside of the queue: the one it has drawn, or that of the
ticket it asks with. -/
def Point.epoch? : Point → Option UInt64
  | queued (.pushWith t _) => some t.epoch
  | striking _ e => some e
  | _ => none

namespace Scene

variable {ι : Type} {s s' : Scene ι} {i : ι} {ev : Event ι}

/-- A turn never changes the ticket that it was begun with; only one who comes without a ticket gets
one, of the present epoch. -/
theorem Turn.ticket {p p' : Play} (h : Turn i s p ev s' p') {t : Ticket}
    (ht : p'.ticket? = some t) : p.ticket? = some t ∨ t = ⟨s.epoch⟩ := by
  cases h with
  | ask => exact Or.inr (Option.some.inj ht).symm
  | black | blackFails => cases ht
  | _ => exact Or.inl ht

/-- No ticket, no call and no request has an epoch that is still to come. -/
structure Timely (s : Scene ι) : Prop where
  issued : ∀ t ∈ s.issued, t.epoch ≤ s.epoch
  doing : ∀ i e, (s.doing i).epoch? = some e → e ≤ s.epoch
  desk : ∀ i p t, s.desk = some (i, p) → p.ticket? = some t → t.epoch ≤ s.epoch

theorem Timely.fresh (b : Behaviour) (g : Random.Generator) :
    Timely (Scene.fresh b g : Scene ι) :=
  ⟨fun _ h => (List.not_mem_nil h).elim, fun _ _ h => (Option.some_ne_none _ h.symm).elim,
    fun _ _ _ h => (Option.some_ne_none _ h.symm).elim⟩

variable [DecidableEq ι]

/-- A thread may go to a point whose epoch has come. -/
theorem Timely.go_epoch {j : ι} {p : Point} {e bound : UInt64}
    (h : ∀ i e, (s.doing i).epoch? = some e → e ≤ bound)
    (hp : ∀ e, p.epoch? = some e → e ≤ bound)
    (he : (Function.update s.doing i p j).epoch? = some e) : e ≤ bound := by
  by_cases hj : j = i
  · subst hj
    exact hp e (by simpa using he)
  · exact h j e (by simpa [hj] using he)

theorem Timely.step (h : Timely s) (hstep : Step s ev s') (hwrap : ∀ i, ev ≠ .drew i 0) :
    Timely s' := by
  have hle := hstep.epoch_le hwrap
  cases hstep with
  | request job hd hj =>
    -- one asks only with a ticket that was issued
    refine ⟨h.issued, fun j e he => Timely.go_epoch h.doing ?_ he, h.desk⟩
    intro e he
    cases job with
    | pushWith t _ =>
      rcases Option.some.inj he with rfl
      exact h.issued t hj
    | _ => cases he
  | ticket hd =>
    -- a new ticket is of the present epoch
    refine ⟨?_, h.doing, h.desk⟩
    intro t ht
    rcases List.mem_cons.1 ht with rfl | ht
    · exact UInt64.le_refl _
    · exact h.issued t ht
  | call halt hd =>
    refine ⟨h.issued, fun j e he => Timely.go_epoch h.doing ?_ he, h.desk⟩
    intro e he
    cases halt <;> cases he
  | shut hd =>
    refine ⟨h.issued, fun j e he => Timely.go_epoch h.doing ?_ he, h.desk⟩
    intro e he
    cases he
  | draw hd =>
    -- all bounds go up with the epoch, and the epoch drawn is the present one
    refine ⟨fun t ht => UInt64.le_trans (h.issued t ht) hle, fun j e he => ?_,
      fun j p t hdesk ht => UInt64.le_trans (h.desk j p t hdesk ht) hle⟩
    refine Timely.go_epoch (fun j e he => UInt64.le_trans (h.doing j e he) hle) ?_ he
    intro e he
    rcases Option.some.inj he with rfl
    exact UInt64.le_refl _
  | @release i halt e hd hl =>
    -- the ticket that a preempting call gives was drawn before
    have hdrawn : e ≤ s.epoch := h.doing i e (by rw [hd]; rfl)
    refine ⟨?_, fun j e he => Timely.go_epoch h.doing ?_ he, h.desk⟩
    · intro t ht
      cases halt with
      | preempt =>
        rcases List.mem_cons.1 ht with rfl | ht
        · exact hdrawn
        · exact h.issued t ht
      | _ => exact h.issued t ht
    · intro e he
      cases he
  | @take i job hd hq =>
    -- the ticket is the one that the thread has been waiting with
    refine ⟨h.issued, h.doing, ?_⟩
    intro j p t hdesk ht
    rcases desk_inj hdesk with ⟨rfl, rfl⟩
    cases job with
    | pushWith t' _ =>
      rcases Option.some.inj ht with rfl
      exact h.doing i _ (by rw [hd]; rfl)
    | _ => cases ht
  | @turn i p _ s₁ p' hq ht =>
    -- a play keeps its ticket; whoever comes without one gets one of the present epoch
    rcases ht.frame with ⟨hepoch, -, hdoing, hissued⟩
    refine ⟨?_, ?_, ?_⟩
    · intro t hmem
      exact UInt64.le_trans (h.issued t (hissued ▸ hmem)) hle
    · intro j e he
      exact UInt64.le_trans (h.doing j e (hdoing ▸ he)) hle
    · intro j q t hdesk hticket
      rcases desk_inj hdesk with ⟨rfl, rfl⟩
      rcases ht.ticket hticket with hold | rfl
      · exact UInt64.le_trans (h.desk i p t hq hold) hle
      · exact hle
  | leave hq =>
    refine ⟨h.issued, fun j e he => Timely.go_epoch h.doing ?_ he, ?_⟩
    · intro e he
      cases he
    · intro j p t hdesk
      cases hdesk
  | _ => exact ⟨h.issued, h.doing, h.desk⟩

/-- While the epoch does not wrap, everything is timely. -/
theorem Run.timely {b : Behaviour} {g : Random.Generator} {events : List (Event ι)}
    (h : Run (fresh b g) events s) (hwrap : ∀ i, .drew i 0 ∉ events) : Timely s := by
  induction h with
  | refl => exact Timely.fresh b g
  | @step events s ev s' hrun hstep ih =>
    refine (ih fun i hmem => hwrap i (List.mem_append_left _ hmem)).step hstep ?_
    intro i heq
    subst heq
    exact hwrap i (by simp)

/-! ## What was asked for -/

end Scene

/-- The effect that the one who has the queue was asked for. -/
def Play.effect? : Play → Option Effect
  | ask e | checkClosed _ e | checkEpoch _ e | start _ e | done (.skipped _ e) => some e
  | on w _ | done (.played w _) => some w.effect
  | _ => none

/-- Whether the one who has the queue does what was asked for. -/
def Job.Serves : Job → Play → Prop
  | push e, p => p.effect? = some e
  | pushWith t e, p => p.effect? = some e ∧ p.ticket? = some t
  | turnOff, p => p = .black ∨ ∃ result, p = .done (.turnedOff result)

theorem Job.serves_first (job : Job) : job.Serves job.first := by
  cases job with
  | push e => rfl
  | pushWith t e => exact ⟨rfl, rfl⟩
  | turnOff => exact Or.inl rfl

namespace Scene

variable {ι : Type} {s s' : Scene ι} {i : ι} {ev : Event ι} {events : List (Event ι)} {job : Job}

/-- A turn goes on with what was asked for. -/
theorem Turn.serves {p p' : Play} (h : Turn i s p ev s' p') (hp : job.Serves p) :
    job.Serves p' := by
  cases job with
  | push e => cases h <;> exact hp
  | pushWith t e =>
    cases h with
    | ask => cases hp.2
    | black | blackFails => cases hp.1
    | _ => exact hp
  | turnOff =>
    rcases hp with rfl | ⟨result, rfl⟩
    · cases h with
      | black => exact Or.inr ⟨_, rfl⟩
      | blackFails => exact Or.inr ⟨_, rfl⟩
    · cases h

variable [DecidableEq ι]

/-- Until it leaves, whoever has the queue goes on with what it was asked for. -/
theorem Run.serves (hrun : Run s events s') {p : Play} (hdesk : s.desk = some (i, p))
    (hp : job.Serves p) (hfirst : ∀ report, .left i report ∉ events) :
    ∃ p', s'.desk = some (i, p') ∧ job.Serves p' := by
  refine hrun.invariant_of_mem (P := fun s => ∃ p, s.desk = some (i, p) ∧ job.Serves p) ?_
    ⟨p, hdesk, hp⟩
  intro s ev s' hmem hstep hserves
  rcases hserves with ⟨p, hdesk, hp⟩
  cases hstep with
  | take hd hq => cases hq.symm.trans hdesk
  | @turn k q _ s₁ p' hq ht =>
    rcases desk_inj (hq.symm.trans hdesk) with ⟨rfl, rfl⟩
    exact ⟨p', rfl, ht.serves hp⟩
  | @leave k report hq =>
    rcases desk_inj (hq.symm.trans hdesk) with ⟨rfl, -⟩
    exact absurd hmem (hfirst report)
  | _ => exact ⟨p, hdesk, hp⟩

/-- Whoever has the queue does what it asked for when it queued. -/
def Employed (s : Scene ι) : Prop :=
  ∀ i p, s.desk = some (i, p) → ∃ job, s.doing i = .queued job ∧ job.Serves p

theorem Employed.go (h : Employed s) {p : Point} (hqueued : ∀ job, s.doing i ≠ .queued job) :
    Employed (s.go i p) := by
  intro j q hdesk
  rcases h j q hdesk with ⟨job, hjob, hserves⟩
  have hj : j ≠ i := fun hji => hqueued job (hji ▸ hjob)
  exact ⟨job, by simpa [Scene.go, hj] using hjob, hserves⟩

theorem Employed.step (h : Employed s) (hstep : Step s ev s') : Employed s' := by
  cases hstep with
  | request job hd hj => exact h.go (by simp [hd])
  | call halt hd => exact h.go (by simp [hd])
  | @shut i hd => exact h.go (i := i) (p := .drawing .close) (by simp [hd])
  | @draw i halt hd => exact h.go (i := i) (p := .striking halt (s.epoch + 1)) (by simp [hd])
  | @release i halt e hd hl => exact h.go (i := i) (p := .idle) (by simp [hd])
  | @take i job hd hq =>
    intro j p hdesk
    rcases desk_inj hdesk with ⟨rfl, rfl⟩
    exact ⟨job, hd, job.serves_first⟩
  | @turn i p _ s₁ p' hq ht =>
    intro j q hdesk
    rcases desk_inj hdesk with ⟨rfl, rfl⟩
    rcases h i p hq with ⟨job, hjob, hserves⟩
    exact ⟨job, (congrFun ht.frame.2.2.1 i).trans hjob, ht.serves hserves⟩
  | leave hq =>
    intro j p hdesk
    cases hdesk
  | _ => exact h

theorem Run.employed {b : Behaviour} {g : Random.Generator} (h : Run (fresh b g) events s) :
    Employed s := by
  refine h.invariant (fun _ _ _ hstep hs => hs.step hstep) ?_
  intro i p hdesk
  cases hdesk

end Scene

end Beacon
