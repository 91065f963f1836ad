import Beacon.Proofs.Scene.Blocks

/-!
# The newest request

A request that preempts draws the next epoch, strikes at the active slot, and then waits for the
queue with the epoch as its ticket. The newest one is to win: requests before it are skipped or cut,
and it is played to its end.

Drawing and striking are two steps, and a call that is slow between them strikes at whatever it
finds in the slot then, be it an effect that was requested after it (`Run.newest_loses`). Apart from
such a call the newest request does win (`Run.newest_wins`).

1. **Exceeded tickets**: who is skipped, or finds its request stale, has a ticket that some call has
   exceeded.
2. **Late calls**: a call that strikes has drawn its epoch and has not returned since.
3. **Undisturbed requests**: while nobody strikes and nobody draws an epoch, whoever has the queue
   with a ticket of the present epoch goes on to the end (`Undisturbed`).
-/

namespace Beacon

/-- The ticket of one who has the queue and has found its request stale. -/
def Play.refused? : Play → Option Ticket
  | on w .abort => some w.ticket
  | done (.skipped t _) => some t
  | _ => none

namespace Scene

variable {ι : Type} {s s' : Scene ι} {i j : ι} {ev : Event ι} {events : List (Event ι)}
variable {b : Behaviour} {g : Random.Generator}

/-! ## Exceeded tickets -/

/-- A call has drawn an epoch after that of the ticket. -/
def Exceeded (t : Ticket) (events : List (Event ι)) : Prop :=
  ∃ j e, .drew j e ∈ events ∧ t.epoch < e

/-- A request is found stale because the queue is closed or its ticket is of another epoch. -/
theorem Turn.refused {p p' : Play} (h : Turn i s p ev s' p') {t : Ticket}
    (ht : p'.refused? = some t) :
    p.refused? = some t ∨ s.closed = true ∨ p.ticket? = some t ∧ s.epoch ≠ t.epoch := by
  cases h with
  | refuseClosed hc => exact Or.inr (Or.inl hc)
  | staleClosed hc => exact Or.inr (Or.inl hc)
  | refuseEpoch he =>
    rcases Option.some.inj ht with rfl
    exact Or.inr (Or.inr ⟨rfl, he⟩)
  | staleEpoch he =>
    rcases Option.some.inj ht with rfl
    exact Or.inr (Or.inr ⟨rfl, he⟩)
  | _ => cases ht

/-- Whoever has found its request stale has a ticket of an earlier epoch. -/
def Refused (s : Scene ι) : Prop :=
  ∀ i p t, s.desk = some (i, p) → p.refused? = some t → t.epoch < s.epoch

variable [DecidableEq ι]

theorem Refused.step (h : Refused s) (htimely : Timely s) (hopen : s.closed = false)
    (hstep : Step s ev s') (hwrap : ∀ i, ev ≠ .drew i 0) : Refused s' := by
  have hle := hstep.epoch_le hwrap
  intro k p t hdesk ht
  have hstays : s.desk = some (k, p) → t.epoch < s'.epoch := by
    intro hold
    exact UInt64.lt_of_lt_of_le (h k p t hold ht) hle
  cases hstep with
  | @take i job hd hq =>
    rcases desk_inj hdesk with ⟨rfl, rfl⟩
    cases job <;> cases ht
  | @turn i p _ s₁ p' hq hturn =>
    rcases desk_inj hdesk with ⟨rfl, rfl⟩
    rcases hturn.refused ht with hold | hclosed | ⟨hticket, hne⟩
    · exact UInt64.lt_of_lt_of_le (h i p t hq hold) hle
    · rw [hopen] at hclosed
      cases hclosed
    · -- no ticket has an epoch that is still to come
      have hpast := htimely.desk i p t hq hticket
      exact UInt64.lt_of_lt_of_le (UInt64.lt_of_le_of_ne hpast (Ne.symm hne)) hle
  | leave hq => cases hdesk
  | _ => exact hstays hdesk

/-- A queue that nobody closes stays open. -/
theorem Run.open (hrun : Run (fresh b g) events s) (hopen : ∀ i, .shut i ∉ events) :
    s.closed = false := by
  refine hrun.invariant_of_mem (P := fun s => s.closed = false) ?_ rfl
  intro s ev s' hmem hstep hclosed
  rw [hstep.closed_eq, hclosed]
  intro i heq
  subst heq
  exact hopen i hmem

theorem Run.refused (hrun : Run (fresh b g) events s) (hopen : ∀ i, .shut i ∉ events)
    (hwrap : ∀ i, .drew i 0 ∉ events) : Refused s := by
  induction hrun with
  | refl =>
    intro i p t hnone
    cases hnone
  | @step events s ev s' hrun hstep ih =>
    have hopen' : ∀ i, .shut i ∉ events := fun i hi => hopen i (List.mem_append_left _ hi)
    have hwrap' : ∀ i, .drew i 0 ∉ events := fun i hi => hwrap i (List.mem_append_left _ hi)
    refine (ih hopen' hwrap').step (hrun.timely hwrap') (hrun.open hopen') hstep ?_
    intro i heq
    subst heq
    exact hwrap i (by simp)

/-- The present epoch has been drawn, unless it is still the first. -/
theorem Run.drew_epoch (hrun : Run (fresh b g) events s) (hne : s.epoch ≠ 0) :
    ∃ i, .drew i s.epoch ∈ events := by
  induction hrun with
  | refl => exact absurd rfl hne
  | @step events s ev s' hrun hstep ih =>
    by_cases hev : ∃ i e, ev = .drew i e
    · rcases hev with ⟨i, e, rfl⟩
      refine ⟨i, ?_⟩
      cases hstep with
      | draw hd => simp
      | turn hq ht => cases ht
    · have hepoch : s'.epoch = s.epoch := by
        apply hstep.epoch_eq
        intro i e heq
        subst heq
        exact hev ⟨i, e, rfl⟩
      rw [hepoch] at hne ⊢
      rcases ih hne with ⟨i, hi⟩
      exact ⟨i, List.mem_append_left _ hi⟩

/-- A ticket of an earlier epoch has been exceeded. -/
theorem Run.exceeded (hrun : Run (fresh b g) events s) {t : Ticket} (ht : t.epoch < s.epoch) :
    Exceeded t events := by
  have hne : s.epoch ≠ 0 := by
    intro h0
    rw [h0] at ht
    exact absurd ht (UInt64.not_lt.2 (UInt64.zero_le))
  rcases hrun.drew_epoch hne with ⟨i, hi⟩
  exact ⟨i, s.epoch, hi, ht⟩

/-- Whatever one who has found its request stale shows, the ticket has been exceeded. -/
theorem Run.refused_exceeded {before after : List (Event ι)} {t : Ticket}
    (hrun : Run (fresh b g) (before ++ ev :: after) s)
    (hopen : ∀ i, .shut i ∉ before ++ ev :: after)
    (hwrap : ∀ i, .drew i 0 ∉ before ++ ev :: after)
    (hshows : ∀ s₁ s₂, Step s₁ ev s₂ → ∃ i p, s₁.desk = some (i, p) ∧ p.refused? = some t) :
    Exceeded t (before ++ ev :: after) := by
  rcases hrun.split_at with ⟨s₁, s₂, hbefore, hstep, -⟩
  rcases hshows s₁ s₂ hstep with ⟨i, p, hdesk, hrefused⟩
  have hlt := hbefore.refused (fun i hi => hopen i (List.mem_append_left _ hi))
    (fun i hi => hwrap i (List.mem_append_left _ hi)) i p t hdesk hrefused
  rcases hbefore.exceeded hlt with ⟨j, e, hmem, he⟩
  exact ⟨j, e, List.mem_append_left _ hmem, he⟩

omit [DecidableEq ι] in
theorem Exceeded.of_le {t : Ticket} {e : UInt64} (hmem : .drew j e ∈ events)
    (hle : ¬ e ≤ t.epoch) : Exceeded t events :=
  ⟨j, e, hmem, UInt64.not_le.1 hle⟩

/-! ## Late calls -/

/-- A thread that strikes has drawn its epoch, and has not returned since. -/
def Drawn (events : List (Event ι)) (s : Scene ι) : Prop :=
  ∀ j halt e, s.doing j = .striking halt e → ∃ before after,
    events = before ++ .drew j e :: after ∧ ∀ halt', .returned j halt' e ∉ after

theorem Drawn.step (h : Drawn events s) (hstep : Step s ev s') :
    Drawn (events ++ [ev]) s' := by
  intro j halt e hdoing
  -- one that goes on striking has not returned with this step
  have hstays : s.doing j = .striking halt e → (∀ halt', ev ≠ .returned j halt' e) →
      ∃ before after, events ++ [ev] = before ++ .drew j e :: after ∧
        ∀ halt', .returned j halt' e ∉ after := by
    intro hold hev
    rcases h j halt e hold with ⟨before, after, rfl, hafter⟩
    refine ⟨before, after ++ [ev], by simp, ?_⟩
    intro halt' hmem
    rcases List.mem_append.1 hmem with hmem | hmem
    · exact hafter halt' hmem
    · exact hev halt' (List.mem_singleton.1 hmem).symm
  have hgo : ∀ {i p}, Function.update s.doing i p j = .striking halt e →
      (∀ halt' e', p ≠ .striking halt' e') → j ≠ i ∧ s.doing j = .striking halt e := by
    intro i p hupdate hp
    by_cases hj : j = i
    · subst hj
      rw [Function.update_self] at hupdate
      exact absurd hupdate (hp halt e)
    · rw [Function.update_of_ne hj] at hupdate
      exact ⟨hj, hupdate⟩
  cases hstep with
  | request job hd hj => exact hstays (hgo hdoing (by rintro _ _ ⟨⟩)).2 (by rintro _ ⟨⟩)
  | call halt' hd =>
    refine hstays (hgo hdoing ?_).2 (by rintro _ ⟨⟩)
    intro halt'' e' hfirst
    cases halt' <;> cases hfirst
  | shut hd => exact hstays (hgo hdoing (by rintro _ _ ⟨⟩)).2 (by rintro _ ⟨⟩)
  | @draw i halt' hd =>
    -- a call that draws its epoch with this step has nothing after it yet
    by_cases hj : j = i
    · subst hj
      simp only [go, Function.update_self, Point.striking.injEq] at hdoing
      rcases hdoing with ⟨-, rfl⟩
      exact ⟨events, [], rfl, by simp⟩
    · simp only [go, Function.update_of_ne hj] at hdoing
      exact hstays hdoing (by rintro _ ⟨⟩)
  | @release i halt' e' hd hl =>
    -- the call that returns does not strike any more, and it shows its own thread
    rcases hgo hdoing (by rintro _ _ ⟨⟩) with ⟨hj, hold⟩
    apply hstays hold
    intro halt'' hev
    exact hj (Event.returned.inj hev).1.symm
  | @leave i report hq => exact hstays (hgo hdoing (by rintro _ _ ⟨⟩)).2 (by rintro _ ⟨⟩)
  | turn hq ht =>
    rcases ht.frame with ⟨-, -, hframe, -⟩
    apply hstays (hframe ▸ hdoing)
    intro halt' heq
    subst heq
    cases ht
  | _ => exact hstays hdoing (by rintro _ ⟨⟩)

theorem Run.drawn (hrun : Run (fresh b g) events s) : Drawn events s := by
  induction hrun with
  | refl =>
    intro j halt e hnone
    cases hnone
  | step hrun hstep ih => exact ih.step hstep

omit [DecidableEq ι] in
/-- A call strikes with the epoch that it has drawn. -/
theorem Step.struck [DecidableEq ι] {e : UInt64} {k : Nat} (hstep : Step s (.struck j e k) s') :
    ∃ halt, s.doing j = .striking halt e := by
  cases hstep with
  | strike hd hl ha ht => exact ⟨_, hd⟩
  | turn hq ht => cases ht

/-! ## Undisturbed requests -/

end Scene

/-- What there is to a request that is on the way to be completed: it has its ticket and its effect,
the token of the effect is not cancelled, and once the player has come to a result it is completion.
-/
def Play.Wins {ι : Type} (s : Scene ι) (t : Ticket) (effect : Effect) : Play → Prop
  | checkClosed t' e | checkEpoch t' e | start t' e => t' = t ∧ e = effect
  | on _ .abort | on _ .abortRouse => False
  | on w (.clear result) | on w (.drop result) | on w (.dropRouse result) | on w (.deafen result)
  | done (.played w result) =>
    w.ticket = t ∧ w.effect = effect ∧ result = .ok (.completed w.shown) ∧
      w.source.size? = some w.shown
  | on w _ => w.ticket = t ∧ w.effect = effect ∧ (s.token w).cancelled = false
  | _ => False

/-- What wins does so in another scene with the same token. -/
theorem Play.Wins.of_token {ι : Type} {s s' : Scene ι} {t : Ticket} {effect : Effect} {p : Play}
    (h : p.Wins s t effect) (htoken : ∀ w ph, p = .on w ph → s'.token w = s.token w) :
    p.Wins s' t effect := by
  cases p with
  | on w ph =>
    have hw := htoken w ph rfl
    cases ph <;> first | exact h | simpa only [Play.Wins, hw] using h
  | done report => cases report <;> exact h
  | _ => exact h

namespace Scene

variable {ι : Type} {s s' : Scene ι} {i j : ι} {ev : Event ι} {events : List (Event ι)}
variable {b : Behaviour} {g : Random.Generator} {t : Ticket} {effect : Effect}

/-- A request whose ticket is of the present epoch has the queue, and nobody strikes. -/
structure Undisturbed (i : ι) (t : Ticket) (effect : Effect) (s : Scene ι) : Prop where
  opened : s.closed = false
  epoch : s.epoch = t.epoch
  calm : ∀ j halt e, s.doing j ≠ .striking halt e
  wins : ∃ p, s.desk = some (i, p) ∧ p.Wins s t effect

/-- Turning goes on to the end: the request is not found stale, no flag is seen up, and the player
stops when all frames have been shown. -/
theorem Turn.wins {p p' : Play} (h : Turn i s p ev s' p') (hw : Wary s)
    (hb : s.sink.behaviour.Faultless)
    (hfits : ∀ w ph, p = .on w ph → ph.Fits w (s.relays w.relay)) (hopen : s.closed = false)
    (hepoch : s.epoch = t.epoch) (hp : p.Wins s t effect) : p'.Wins s' t effect := by
  cases h with
  -- a play that wins is not here: it has its ticket already, and was not found stale
  | ask | abort | abortAgain | abortRouse | black | blackFails => exact hp.elim
  | refuseClosed hc | staleClosed hc =>
    -- nobody has closed the queue
    rw [hopen] at hc
    cases hc
  | passClosed | passEpoch => exact hp
  | refuseEpoch he =>
    -- both looks compare the ticket with the present epoch, which is its own
    rcases hp with ⟨rfl, -⟩
    exact absurd hepoch he
  | staleEpoch he =>
    rcases hp with ⟨rfl, -, -⟩
    exact absurd hepoch he
  | start =>
    -- the token of an effect that starts is fresh
    rcases hp with ⟨rfl, rfl⟩
    refine ⟨rfl, rfl, ?_⟩
    simp [token, Scene.opened, opening, Token.fresh]
  | lookCancelled ht | holdCancelled ht | timedOutCancelled ht | judgeCancelled ht =>
    -- the flag of the token is down, so nobody sees it up
    rcases hp with ⟨-, -, hdown⟩
    rw [hdown] at ht
    cases ht
  | receive =>
    rcases hp with ⟨hticket, heffect, hdown⟩
    exact ⟨hticket, heffect, by simpa [token, onRelay] using hdown⟩
  | wake ht =>
    -- a wake-up is left only after the flag has been raised
    rcases hp with ⟨-, -, hdown⟩
    have hup := hw.wake _ ht
    rw [token] at hdown
    rw [hdown] at hup
    cases hup
  | writeFails hfails =>
    rw [Sink.writeFrame_faultless hb] at hfails
    cases hfails
  | @judgeOn w ht =>
    -- with the flag down the player is here only because the source has nothing left
    rcases hp with ⟨hticket, heffect, hdown⟩
    rcases hfits w _ rfl with ⟨-, hup | hsize⟩
    · exact absurd (hdown.symm.trans hup) Bool.false_ne_true
    · exact ⟨hticket, heffect, rfl, hsize⟩
  | _ => exact hp

variable [DecidableEq ι]

/-- A thread may go to any point where it does not strike. -/
theorem Undisturbed.go (h : Undisturbed i t effect s) {p : Point}
    (hp : ∀ halt e, p ≠ .striking halt e) : Undisturbed i t effect (s.go j p) where
  opened := h.opened
  epoch := h.epoch
  wins := h.wins
  calm := by
    intro k halt e hk
    by_cases hkj : k = j
    · subst hkj
      simp only [Scene.go, Function.update_self] at hk
      exact hp halt e hk
    · simp only [Scene.go, Function.update_of_ne hkj] at hk
      exact h.calm k halt e hk

/-- A step that is neither a call's nor the end of the request leaves it undisturbed. -/
theorem Undisturbed.step (h : Undisturbed i t effect s) (hk : Kept s) (hw : Wary s)
    (hs : Supplied s) (hb : s.sink.behaviour.Faultless) (hstep : Step s ev s')
    (hshut : ∀ j, ev ≠ .shut j) (hdrew : ∀ j e, ev ≠ .drew j e)
    (hleft : ∀ report, ev ≠ .left i report) : Undisturbed i t effect s' := by
  rcases h.wins with ⟨p, hdesk, hwins⟩
  -- whoever held the lock of the slot would be striking
  have hfree : ∀ j grip, s.latch ≠ some (.caller j grip) := by
    intro j grip hl
    rcases hk.held j grip hl with ⟨halt, e, hdoing⟩
    exact h.calm j halt e hdoing
  cases hstep with
  | request job hd hj => exact h.go (by rintro _ _ ⟨⟩)
  | ticket hd => exact ⟨h.opened, h.epoch, h.calm, p, hdesk, hwins⟩
  | call halt hd =>
    apply h.go
    intro halt' e hfirst
    cases halt <;> cases hfirst
  | shut hd => exact absurd rfl (hshut _)
  | draw hd => exact absurd rfl (hdrew _ _)
  -- getting the lock of the slot, and going on with it, is for threads that strike
  | grab hd hl => exact absurd hd (h.calm _ _ _)
  | miss hl | strikeAgain hl | strike hd hl | rouse hl | release hd hl =>
    exact absurd hl (hfree _ _)
  | take hd hq => cases hq.symm.trans hdesk
  | @turn k q _ s₁ p' hq ht =>
    -- only the one who has the queue turns, and its play goes on winning
    rcases desk_inj (hq.symm.trans hdesk) with ⟨rfl, rfl⟩
    rcases ht.frame with ⟨hepoch, hclosed, hdoing, -⟩
    refine ⟨hclosed.trans h.opened, hepoch.trans h.epoch, ?_, p', rfl, ?_⟩
    · intro j halt e hj
      exact h.calm j halt e (hdoing ▸ hj)
    · have hfits : ∀ w ph, q = .on w ph → ph.Fits w (s.relays w.relay) := by
        intro w ph heq
        subst heq
        exact hs k w ph hq
      have hnext : p'.Wins s₁ t effect := ht.wins hw hb hfits h.opened h.epoch hwins
      exact hnext.of_token fun _ _ _ => rfl
  | @leave k report hq =>
    rcases desk_inj (hq.symm.trans hdesk) with ⟨rfl, -⟩
    exact absurd rfl (hleft report)
  | @compose k r hc =>
    -- a composer does not touch the token
    refine ⟨h.opened, h.epoch, h.calm, p, hdesk, hwins.of_token ?_⟩
    intro w ph _
    by_cases hwk : w.relay = k
    · subst hwk
      simp [token, onRelay, hc.token_eq]
    · simp [token, onRelay, hwk]

/-! ## The newest request wins -/

/-- A call that drew no later epoch than that of the ticket has struck at the effect that a thread
plays, and did so since the thread got the queue. -/
def StruckLate (i : ι) (t : Ticket) (k : Nat) (events : List (Event ι)) : Prop :=
  ∃ before later j e more, events = before ++ .struck j e k :: more ∧ GotQueue i before later ∧
    .drew j e ∈ before ∧ e ≤ t.epoch

/-- A token is cancelled because the ticket has been exceeded, or because of a late call. -/
theorem Run.exceeded_or_struckLate (hrun : Run (fresh b g) events s)
    (hopen : ∀ i, .shut i ∉ events) (hwrap : ∀ i, .drew i 0 ∉ events) {k : Nat}
    (h : Halted i t k events) : Exceeded t events ∨ StruckLate i t k events := by
  rcases h with ⟨before, later, ev, more, rfl, hgot, ⟨j, e, rfl⟩ | ⟨rfl, -⟩⟩
  · rcases hrun.split_at with ⟨s₁, s₂, hbefore, hstep, -⟩
    rcases hstep.struck with ⟨halt, hdoing⟩
    rcases hbefore.drawn j halt e hdoing with ⟨l₁, l₂, hsplit, -⟩
    have hdrew : .drew j e ∈ before := by simp [hsplit]
    by_cases hle : e ≤ t.epoch
    · exact Or.inr ⟨before, later, j, e, more, rfl, hgot, hdrew, hle⟩
    · exact Or.inl (Exceeded.of_le (List.mem_append_left _ hdrew) hle)
  · refine Or.inl (hrun.refused_exceeded hopen hwrap ?_)
    intro s₁ s₂ hstep
    cases hstep with
    | turn hq ht =>
      cases ht with
      | @abort w hdown => exact ⟨i, .on w .abort, hq, rfl⟩

/-- A request with the newest ticket is undisturbed from the moment it gets the queue, if every call
that drew an epoch before has returned by then. -/
theorem Run.undisturbed {before : List (Event ι)} {s₁ s₂ : Scene ι}
    (hbefore : Run (fresh b g) before s₁) (htake : Step s₁ (.took i (.pushWith t effect)) s₂)
    (hopen : ∀ i, .shut i ∉ before) (hwrap : ∀ i, .drew i 0 ∉ before)
    (hnewest : ∀ j e, .drew j e ∈ before → e ≤ t.epoch)
    (hreturned : ∀ l₁ j e l₂, before = l₁ ++ .drew j e :: l₂ → ∃ halt, .returned j halt e ∈ l₂) :
    Undisturbed i t effect s₂ := by
  have hcalm : ∀ j halt e, s₁.doing j ≠ .striking halt e := by
    intro j halt e hdoing
    rcases hbefore.drawn j halt e hdoing with ⟨l₁, l₂, hsplit, hnot⟩
    rcases hreturned l₁ j e l₂ hsplit with ⟨halt', hmem⟩
    exact hnot halt' hmem
  cases htake with
  | take hd hq =>
    have hpast : t.epoch ≤ s₁.epoch := (hbefore.timely hwrap).doing i t.epoch (by rw [hd]; rfl)
    have hpresent : s₁.epoch ≤ t.epoch := by
      apply UInt64.not_lt.1
      intro hlt
      rcases hbefore.exceeded hlt with ⟨j, e, hmem, he⟩
      exact UInt64.not_lt.2 (hnewest j e hmem) he
    exact ⟨hbefore.open hopen, UInt64.le_antisymm hpresent hpast, hcalm, _, rfl, rfl, rfl⟩
  | turn hq ht => cases ht

/-- An undisturbed request leaves the queue completed, whatever the others do short of drawing an
epoch and closing the queue. -/
theorem Undisturbed.completed {later : List (Event ι)} {s₁ s₂ : Scene ι} {report : Report}
    (h : Undisturbed i t effect s) (hk : Kept s) (hw : Wary s) (hs : Supplied s)
    (hb : s.sink.behaviour.Faultless) (hlater : Run s later s₁)
    (hleave : Step s₁ (.left i report) s₂) (hopen : ∀ j, .shut j ∉ later)
    (hwrap : ∀ j, .drew j 0 ∉ later) (hnewest : ∀ j e, .drew j e ∈ later → e ≤ t.epoch)
    (hfirst : ∀ report, .left i report ∉ later) :
    ∃ w, report = .played w (.ok (.completed w.shown)) ∧ w.ticket = t ∧ w.effect = effect ∧
      w.source.size? = some w.shown := by
  -- the invariants go along with the run up to the step with which the thread leaves
  have hend : Kept s₁ ∧ Wary s₁ ∧ Supplied s₁ ∧ s₁.sink.behaviour.Faultless ∧
      Undisturbed i t effect s₁ := by
    refine hlater.invariant_of_mem (P := fun s => Kept s ∧ Wary s ∧ Supplied s ∧
      s.sink.behaviour.Faultless ∧ Undisturbed i t effect s) ?_ ⟨hk, hw, hs, hb, h⟩
    rintro s ev s' hmem hstep ⟨hk, hw, hs, hb, h⟩
    refine ⟨hk.step hstep, hw.step hk hstep, hs.step hw hstep, ?_, ?_⟩
    · rw [(hstep.taken hb).1]
      exact hb
    · refine h.step hk hw hs hb hstep ?_ ?_ ?_
      · intro j heq
        subst heq
        exact hopen j hmem
      · -- an epoch drawn now would come after that of the ticket
        intro j e heq
        subst heq
        have hle := hnewest j e hmem
        have hne : e ≠ 0 := by
          intro heq
          subst heq
          exact hwrap j hmem
        cases hstep with
        | draw hd =>
          rw [h.epoch] at hle hne
          exact UInt64.not_lt.2 hle (epoch_lt_succ hne)
        | turn hq ht => cases ht
      · intro report heq
        subst heq
        exact hfirst report hmem
  -- a play that wins and is done has played to the end
  rcases hend with ⟨-, -, -, -, hlast⟩
  rcases hlast.wins with ⟨p, hdesk, hwins⟩
  cases hleave with
  | leave hq =>
    rcases desk_inj (hdesk.symm.trans hq) with ⟨-, rfl⟩
    cases report with
    | played w result =>
      rcases hwins with ⟨hticket, heffect, rfl, hsize⟩
      exact ⟨w, rfl, hticket, heffect, hsize⟩
    | _ => exact hwins.elim
  | turn hq ht => cases ht

/-- The block of a report stands among the lines. -/
theorem Run.block_infix (hb : b.Faultless) (hrun : Run (fresh b g) events s) {report : Report}
    (hmem : .left i report ∈ events) :
    ∃ above below, s.sink.lines = above ++ report.block ++ below := by
  rcases List.append_of_mem (mem_reports.2 hmem) with ⟨above, below, hsplit⟩
  refine ⟨above.flatMap (·.2.block), below.flatMap (·.2.block) ++ s.underWay, ?_⟩
  rw [hrun.lines hb, (hrun.told hb).written, hsplit]
  simp

/-- The newest request wins, unless a late call strikes. While nobody closes the queue, the sink
does not fail and the epoch does not wrap:

* a request is skipped only if its ticket has been exceeded by an epoch that was drawn;
* its token is cancelled while it is played only if its ticket has been exceeded, or a call with no
  later epoch struck only after it had got the queue;
* once it has been played it is completed, and all its frames are written, unless it was interrupted
  for one of these causes;
* a request with a ticket that no epoch exceeds is completed, and all its frames are written, if
  every call that drew an epoch had returned when the request got the queue. -/
theorem Run.newest_wins (hb : b.Faultless) (hrun : Run (fresh b g) events s)
    (hopen : ∀ i, .shut i ∉ events) (hwrap : ∀ i, .drew i 0 ∉ events) :
    (∀ i t effect, .left i (.skipped t effect) ∈ events → Exceeded t events) ∧
    (∀ i w ph, s.desk = some (i, .on w ph) → ph.over = false → (s.token w).cancelled = true →
      Exceeded w.ticket events ∨ StruckLate i w.ticket w.relay events) ∧
    (∀ i w result, .left i (.played w result) ∈ events →
      (∃ n, result = .ok (.completed n) ∧ w.source.size? = some n ∧ ∃ above below,
        s.sink.lines = above ++ (w.source.take n).map (·.color.lineBytes) ++ below) ∨
      (∃ n, result = .ok (.interrupted n)) ∧
        (Exceeded w.ticket events ∨ StruckLate i w.ticket w.relay events)) ∧
    ∀ before i t effect later report more,
      events = before ++ .took i (.pushWith t effect) :: (later ++ .left i report :: more) →
      (∀ report, .left i report ∉ later) →
      (∀ j e, .drew j e ∈ events → e ≤ t.epoch) →
      (∀ l₁ j e l₂, before = l₁ ++ .drew j e :: l₂ → ∃ halt, .returned j halt e ∈ l₂) →
      ∃ w n, report = .played w (.ok (.completed n)) ∧ w.ticket = t ∧ w.effect = effect ∧
        w.source.size? = some n ∧ ∃ above below,
          s.sink.lines = above ++ (w.source.take n).map (·.color.lineBytes) ++ below := by
  refine ⟨?_, ?_, ?_, ?_⟩
  · -- whoever leaves as skipped found its request stale; the queue is open, so an epoch was drawn
    intro i t effect hmem
    rcases List.append_of_mem hmem with ⟨before, after, rfl⟩
    apply hrun.refused_exceeded hopen hwrap
    intro s₁ s₂ hstep
    cases hstep with
    | leave hq => exact ⟨i, _, hq, rfl⟩
    | turn hq ht => cases ht
  · -- each raised flag has a cause; a call that struck has exceeded the ticket or was late
    intro i w ph hdesk hover hcancelled
    have hhalted := hrun.caused i w ph hdesk hover hcancelled
    exact hrun.exceeded_or_struckLate hopen hwrap hhalted
  · -- what is reported is true, and an interruption was seen at a raised flag
    intro i w result hmem
    rcases (hrun.told hb).left i _ hmem with ⟨-, ⟨rfl, hsize⟩ | ⟨rfl, hhalted⟩⟩
    · exact Or.inl ⟨w.shown, rfl, hsize, hrun.block_infix hb hmem⟩
    · exact Or.inr ⟨⟨w.shown, rfl⟩, hrun.exceeded_or_struckLate hopen hwrap hhalted⟩
  · -- from the moment it gets the queue the request is undisturbed, for no call is striking then
    -- and none comes after it
    intro before i t effect later report more hevents hfirst hnewest hreturned
    subst hevents
    rcases hrun.split_at with ⟨s₁, s₂, hbefore, htake, hrest⟩
    rcases hrest.split_at with ⟨s₃, s₄, hlater, hleave, -⟩
    have hgot := hbefore.step htake
    have hundisturbed := hbefore.undisturbed htake (fun j hj => hopen j (by simp [hj]))
      (fun j hj => hwrap j (by simp [hj])) (fun j e hj => hnewest j e (by simp [hj])) hreturned
    obtain ⟨w, rfl, hticket, heffect, hsize⟩ := hundisturbed.completed hgot.kept hgot.wary
      hgot.supplied (hgot.taken hb).1 hlater hleave (fun j hj => hopen j (by simp [hj]))
      (fun j hj => hwrap j (by simp [hj])) (fun j e hj => hnewest j e (by simp [hj])) hfirst
    have hleft : .left i (.played w (.ok (.completed w.shown))) ∈
        before ++ .took i (.pushWith t effect) ::
          (later ++ .left i (.played w (.ok (.completed w.shown))) :: more) := by simp
    rcases hrun.block_infix hb hleft with ⟨above, below, hlines⟩
    exact ⟨w, w.shown, rfl, hticket, heffect, hsize, above, below, hlines⟩

/-- The thread 0 preempts, and then plays a single colour to its end. -/
theorem Run.newest_wins_solid : ∃ (events : List (Event Nat)) (s : Scene Nat) (report : Report),
    (Behaviour.ofTables none [] []).Faultless ∧
    Run (fresh (Behaviour.ofTables none [] []) (Random.Generator.ofSeed 0)) events s ∧
    (∀ i, .shut i ∉ events) ∧ (∀ i, .drew i 0 ∉ events) ∧ .drew 0 1 ∈ events ∧
    .left 0 report ∈ events ∧
    ∃ w n, report = .played w (.ok (.completed n)) ∧ w.ticket = ⟨1⟩ ∧
      w.effect = .solid ⟨255, 0, 0⟩ := by
  have hb : (Behaviour.ofTables none [] []).Faultless := Behaviour.faultless_ofTables (by simp)
  have hreceived := Run.of_perform
    (s := fresh (Behaviour.ofTables none [] []) (Random.Generator.ofSeed 0))
    (.call 0 .preempt :: Move.steps 0 4 ++
      .request 0 (.pushWith ⟨1⟩ (.solid ⟨255, 0, 0⟩)) :: Move.steps 0 10)
    [.quiet, .drew 0 1, .quiet, .quiet, .returned 0 .preempt 1, .quiet,
      .took 0 (.pushWith ⟨1⟩ (.solid ⟨255, 0, 0⟩)), .quiet, .quiet, .quiet, .quiet, .quiet, .quiet,
      .quiet, .quiet, .quiet] rfl
  have hwritten := hreceived.step
    (.turn rfl (.write (Sink.writeFrame_faultless (hreceived.taken hb).1 _)))
  have hrun := hwritten.append (Run.of_perform (Move.steps 0 10)
    [.quiet, .quiet, .quiet, .judged 0 0 false, .quiet, .quiet, .quiet, .quiet, .quiet,
      .left 0 (.played ⟨⟨1⟩, .solid ⟨255, 0, 0⟩, (Random.Generator.ofSeed 0).wide.1, 0, 1⟩
        (.ok (.completed 1)))] rfl)
  rcases newest_wins hb hrun (by simp) (by simp) with ⟨-, -, -, hwins⟩
  -- the call of the thread returned before the thread asked for the queue
  have hreturned : ∀ (l₁ : List (Event Nat)) j e l₂,
      [.quiet, .drew 0 1, .quiet, .quiet, .returned 0 .preempt 1, .quiet] =
        l₁ ++ .drew j e :: l₂ → ∃ halt, .returned j halt e ∈ l₂ := by
    intro l₁ j e l₂ hsplit
    rcases l₁ with _ | ⟨x, _ | ⟨y, l₁⟩⟩
    · simp at hsplit
    · simp only [List.cons_append, List.nil_append, List.cons.injEq, Event.drew.injEq] at hsplit
      rcases hsplit with ⟨-, ⟨rfl, rfl⟩, rfl⟩
      exact ⟨.preempt, by simp⟩
    · simp only [List.cons_append, List.cons.injEq] at hsplit
      have hmem : Event.drew j e ∈ l₁ ++ .drew j e :: l₂ := by simp
      rw [← hsplit.2.2] at hmem
      simp at hmem
  obtain ⟨w, n, hreport, hticket, heffect, -, -⟩ := hwins
    [.quiet, .drew 0 1, .quiet, .quiet, .returned 0 .preempt 1, .quiet] 0 ⟨1⟩ (.solid ⟨255, 0, 0⟩)
    [.quiet, .quiet, .quiet, .quiet, .quiet, .quiet, .quiet, .quiet, .quiet,
      .wrote 0 ⟨1⟩ ⟨255, 0, 0⟩, .quiet, .quiet, .quiet, .judged 0 0 false, .quiet, .quiet, .quiet,
      .quiet, .quiet] _ [] rfl (by simp) (by simp) hreturned
  exact ⟨_, _, _, hb, hrun, by simp, by simp, by simp, by simp, w, n, hreport, hticket,
    heffect⟩

/-- The newest request can lose: the call of the thread 0 draws the epoch 1 and is slow. The request
of the thread 1 comes later, with the ticket 2, and when its token is in the slot, the thread 0
strikes at it. No epoch was drawn after 2, but that request is interrupted, the other one is
skipped, and nothing is ever shown. -/
theorem Run.newest_loses : ∃ (events : List (Event Nat)) (s : Scene Nat),
    Run (fresh (Behaviour.ofTables none [] []) (Random.Generator.ofSeed 0)) events s ∧
    (∀ i, .shut i ∉ events) ∧ (∀ i, .drew i 0 ∉ events) ∧ (∀ i e, .drew i e ∈ events → e ≤ 2) ∧
    .returned 1 .preempt 2 ∈ events ∧ .struck 0 1 0 ∈ events ∧
    .left 1 (.played ⟨⟨2⟩, .solid ⟨255, 0, 0⟩, (Random.Generator.ofSeed 0).wide.1, 0, 0⟩
      (.ok (.interrupted 0))) ∈ events ∧
    .left 0 (.skipped ⟨1⟩ (.solid ⟨0, 255, 0⟩)) ∈ events ∧
    s.doing 0 = .idle ∧ s.doing 1 = .idle ∧ s.desk = none ∧ s.sink.lines = [] := by
  obtain ⟨s, hperform, hidle₀, hidle₁, hdesk, hsink⟩ : ∃ s : Scene Nat,
      (fresh (Behaviour.ofTables none [] []) (Random.Generator.ofSeed 0)).perform
        (.call 0 .preempt :: Move.steps 0 1 ++ .call 1 .preempt :: Move.steps 1 4 ++
          .request 1 (.pushWith ⟨2⟩ (.solid ⟨255, 0, 0⟩)) :: Move.steps 1 6 ++ Move.steps 0 4 ++
          Move.steps 1 9 ++ .request 0 (.pushWith ⟨1⟩ (.solid ⟨0, 255, 0⟩)) ::
          Move.steps 0 4) = some ([.quiet, .drew 0 1, .quiet, .drew 1 2, .quiet, .quiet,
            .returned 1 .preempt 2, .quiet, .took 1 (.pushWith ⟨2⟩ (.solid ⟨255, 0, 0⟩)), .quiet,
            .quiet, .quiet, .quiet, .quiet, .quiet, .struck 0 1 0, .quiet, .returned 0 .preempt 1,
            .quiet, .quiet, .quiet, .judged 1 0 true, .quiet, .quiet, .quiet, .quiet,
            .left 1 (.played ⟨⟨2⟩, .solid ⟨255, 0, 0⟩, (Random.Generator.ofSeed 0).wide.1, 0, 0⟩
              (.ok (.interrupted 0))), .quiet,
            .took 0 (.pushWith ⟨1⟩ (.solid ⟨0, 255, 0⟩)), .quiet, .quiet,
            .left 0 (.skipped ⟨1⟩ (.solid ⟨0, 255, 0⟩))], s) ∧
      s.doing 0 = .idle ∧ s.doing 1 = .idle ∧ s.desk = none ∧
      s.sink = Sink.fresh (Behaviour.ofTables none [] []) := ⟨_, rfl, rfl, rfl, rfl, rfl⟩
  refine ⟨_, s, Run.of_perform _ _ hperform, by simp, by simp, ?_, by simp, by simp, by simp,
    by simp, hidle₀, hidle₁, hdesk, ?_⟩
  · intro i e hmem
    have he : i = 0 ∧ e = 1 ∨ i = 1 ∧ e = 2 := by simpa using hmem
    rcases he with ⟨-, rfl⟩ | ⟨-, rfl⟩
    · decide
    · decide
  · rw [hsink]
    rfl

end Scene

end Beacon
