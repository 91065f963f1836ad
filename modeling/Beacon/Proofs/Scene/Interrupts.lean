import Beacon.Proofs.Scene.Hush
import Beacon.Proofs.Scene.Schedule

/-!
# No interrupt is lost

A call that interrupts draws the next epoch and strikes at the active slot. Once it has returned,
the requests with older tickets are over, wherever they were: one that still waits will be refused,
one that was about to start finds its ticket stale when it looks again, and one that was playing has
its token cancelled. What is left of them is at most the one line that a player has in hand
(`Run.interrupt_kept`).

1. **Tickets in order**: an effect is started only with a ticket of the present epoch, so the
   tickets of the lines never go down (`Run.wrote_le`).
2. **Past requests**: `Past e` says that the requests older than `e` are over. It is what a call
   that draws `e` brings about, and every step keeps it.
-/

namespace Beacon

/-- Whether a ticket is older than an epoch. -/
def Ticket.olderThan (e : UInt64) (t : Ticket) : Bool := decide (t.epoch < e)

theorem Ticket.olderThan_iff {e : UInt64} {t : Ticket} : t.olderThan e = true ↔ t.epoch < e :=
  decide_eq_true_iff

/-- The ticket of the effect that is about to start, or was started. -/
def Play.started? : Play → Option Ticket
  | start t _ => some t
  | on w _ => some w.ticket
  | _ => none

namespace Scene

variable {ι : Type} {s s' : Scene ι} {i : ι} {ev : Event ι} {e : UInt64}

/-! ## Tickets in order -/

/-- The epoch has come to `e`, and no effect is being played that was requested before. -/
def Settled (e : UInt64) (s : Scene ι) : Prop :=
  e ≤ s.epoch ∧ ∀ i p t, s.desk = some (i, p) → p.started? = some t → e ≤ t.epoch

/-- An effect gets ready to start only when its ticket is of the present epoch. -/
theorem Turn.started {p p' : Play} (h : Turn i s p ev s' p') {t : Ticket}
    (ht : p'.started? = some t) : p.started? = some t ∨ s.epoch = t.epoch := by
  cases h with
  | passEpoch he =>
    rcases Option.some.inj ht with rfl
    exact Or.inr he
  | ask | refuseClosed | passClosed | refuseEpoch | deafen | black | blackFails => cases ht
  | _ => exact Or.inl ht

variable [DecidableEq ι]

theorem Settled.step (h : Settled e s) (hstep : Step s ev s') (hwrap : ∀ i, ev ≠ .drew i 0) :
    Settled e s' := by
  refine ⟨UInt64.le_trans h.1 (hstep.epoch_le hwrap), ?_⟩
  intro j p t hdesk ht
  cases hstep with
  | @take i job hd hq =>
    rcases desk_inj hdesk with ⟨rfl, rfl⟩
    cases job <;> cases ht
  | @turn i p _ s₁ p' hq hturn =>
    rcases desk_inj hdesk with ⟨rfl, rfl⟩
    rcases hturn.started ht with hold | hnow
    · exact h.2 i p t hq hold
    · exact hnow ▸ h.1
  | leave hq => cases hdesk
  | _ => exact h.2 j p t hdesk ht

/-- A line is written by one who has started an effect with that ticket. -/
theorem Step.wrote {j : ι} {t : Ticket} {c : Color} (hstep : Step s (.wrote j t c) s') :
    ∃ w ph, s.desk = some (j, .on w ph) ∧ w.ticket = t ∧
      ∃ w' ph', s'.desk = some (j, .on w' ph') ∧ w'.ticket = t := by
  cases hstep with
  | turn hq ht =>
    cases ht with
    | write hw => exact ⟨_, _, hq, rfl, _, _, rfl, rfl⟩
    | writeFails hw => exact ⟨_, _, hq, rfl, _, _, rfl, rfl⟩

/-- In a settled scene no line of an older request is written any more. -/
theorem Settled.wrote_le {events : List (Event ι)} (h : Settled e s) (hrun : Run s events s')
    (hwrap : ∀ i, .drew i 0 ∉ events) {j : ι} {t : Ticket} {c : Color}
    (hmem : .wrote j t c ∈ events) : e ≤ t.epoch := by
  rcases List.append_of_mem hmem with ⟨before, after, rfl⟩
  rcases hrun.split_at with ⟨s₁, s₂, hbefore, hwrote, -⟩
  -- the scene is still settled when the line is written
  have hsettled : Settled e s₁ := by
    refine hbefore.invariant_of_mem ?_ h
    intro s ev s' hev hstep hs
    apply hs.step hstep
    intro i heq
    subst heq
    exact hwrap i (List.mem_append_left _ hev)
  rcases hwrote.wrote with ⟨w, ph, hdesk, rfl, -⟩
  exact hsettled.2 j (.on w ph) w.ticket hdesk rfl

/-- The tickets of the lines never go down. -/
theorem Run.wrote_le {b : Behaviour} {g : Random.Generator} {before after : List (Event ι)}
    {i j : ι} {t t' : Ticket} {c c' : Color}
    (hrun : Run (fresh b g) (before ++ .wrote i t c :: after) s)
    (hwrap : ∀ k, .drew k 0 ∉ before ++ .wrote i t c :: after)
    (hmem : .wrote j t' c' ∈ after) : t.epoch ≤ t'.epoch := by
  rcases hrun.split_at with ⟨s₁, s₂, hbefore, hwrote, hafter⟩
  have htimely : Timely s₁ := hbefore.timely fun i hi => hwrap i (List.mem_append_left _ hi)
  rcases hwrote.wrote with ⟨w, ph, hdesk, rfl, w', ph', hdesk', hticket⟩
  -- whoever writes has the queue, with a ticket that has come
  have hsettled : Settled w.ticket.epoch s₁ := by
    refine ⟨htimely.desk i _ w.ticket hdesk rfl, ?_⟩
    intro k p t hk ht
    rcases desk_inj (hdesk.symm.trans hk) with ⟨rfl, rfl⟩
    rcases Option.some.inj ht with rfl
    exact UInt64.le_refl _
  have hsettled' : Settled w.ticket.epoch s₂ := hsettled.step hwrote (by rintro i ⟨⟩)
  exact hsettled'.wrote_le hafter (fun i hi => hwrap i (by simp [hi])) hmem

/-! ## Past requests -/

/-- The requests older than `e` are over: their epoch has gone by, those that were started are
cancelled, and none of them sleeps without a wake-up. -/
structure Past (e : UInt64) (s : Scene ι) : Prop where
  kept : Kept s
  timely : Timely s
  epoch : e ≤ s.epoch
  hushed : Hushed (Ticket.olderThan e) s
  wakened : Wakened (Ticket.olderThan e) s

omit [DecidableEq ι] in
/-- No older request passes its second look, for its ticket is not of the present epoch. -/
theorem epoch_ne_of_olderThan {t : Ticket} (he : e ≤ s.epoch) (ht : t.olderThan e = true) :
    s.epoch ≠ t.epoch := by
  intro heq
  have hlt := Ticket.olderThan_iff.1 ht
  rw [← heq] at hlt
  exact absurd he (UInt64.not_le.2 hlt)

theorem Past.step (h : Past e s) (hstep : Step s ev s') (hwrap : ∀ i, ev ≠ .drew i 0) :
    Past e s' where
  kept := h.kept.step hstep
  timely := h.timely.step hstep hwrap
  epoch := UInt64.le_trans h.epoch (hstep.epoch_le hwrap)
  hushed := h.hushed.step h.kept hstep fun _ _ _ hold hpass =>
    absurd hpass (epoch_ne_of_olderThan h.epoch hold)
  wakened := h.wakened.step h.hushed hstep

/-- What a call that draws `e` brings about: the epoch has come to `e` and the older requests are
hushed. -/
def Superseded (e : UInt64) (s : Scene ι) : Prop := e ≤ s.epoch ∧ Hushed (Ticket.olderThan e) s

/-- Every call that has looked into the active slot has superseded the requests before its epoch. -/
theorem Run.superseded {b : Behaviour} {g : Random.Generator} {events : List (Event ι)}
    (hrun : Run (fresh b g) events s) (hwrap : ∀ i, .drew i 0 ∉ events) :
    Struck (fun _ e => Superseded e) s := by
  induction hrun with
  | refl =>
    intro j grip halt e hlatch
    cases hlatch
  | @step events s ev s' hrun hstep ih =>
    have hold : ∀ i, .drew i 0 ∉ events := fun i hi => hwrap i (List.mem_append_left _ hi)
    have hev : ∀ i, ev ≠ .drew i 0 := by
      intro i heq
      subst heq
      exact hwrap i (by simp)
    have hkept := hrun.kept
    have htimely := hrun.timely hold
    refine (ih hold).step hkept hstep ?_ ?_
    · -- the epoch has not fallen, so older tickets still do not pass
      rintro halt e ⟨hepoch, hhushed⟩
      refine ⟨UInt64.le_trans hepoch (hstep.epoch_le hev), ?_⟩
      exact hhushed.step hkept hstep fun _ _ _ hold hpass =>
        absurd hpass (epoch_ne_of_olderThan hepoch hold)
    · -- the call strikes now: its epoch is not after the present one
      intro j halt e hdoing hquiet
      have hepoch := (htimely.step hstep hev).doing j e (by rw [hdoing]; rfl)
      exact ⟨hepoch, hquiet.hushed (hkept.step hstep) _⟩

/-- A sleeper whose token is cancelled has a wake-up waiting or under way, in every run. -/
theorem Run.roused {b : Behaviour} {g : Random.Generator} {events : List (Event ι)}
    (hrun : Run (fresh b g) events s) : Roused s :=
  hrun.invariant (fun _ _ _ hstep h => h.step hstep) fun _ _ hdesk =>
    (Option.some_ne_none _ hdesk.symm).elim

/-- Once a call has returned, the requests older than the epoch it drew are over. -/
theorem Run.past {b : Behaviour} {g : Random.Generator} {events : List (Event ι)} {halt : Halt}
    (hrun : Run (fresh b g) events s) (hwrap : ∀ i, .drew i 0 ∉ events)
    (hmem : .returned i halt e ∈ events) : Past e s := by
  rcases List.append_of_mem hmem with ⟨before, after, rfl⟩
  rcases hrun.split_at with ⟨s₁, s₂, hbefore, hreturn, hafter⟩
  have hwrap₁ : ∀ i, .drew i 0 ∉ before := fun i hi => hwrap i (List.mem_append_left _ hi)
  rcases (hbefore.superseded hwrap₁).returned hreturn with ⟨hepoch, hhushed⟩
  have hspent : s₁.latch = some (.caller i .spent) := by
    cases hreturn with
    | release hd hl => exact hl
    | turn hq ht => cases ht
  -- the call itself holds the lock, and it has left its wake-up
  have hpast : Past e s₁ := by
    refine ⟨hbefore.kept, hbefore.timely hwrap₁, hepoch, hhushed, ?_⟩
    apply hbefore.roused.wakened hhushed
    intro j k hlatch
    rw [hspent] at hlatch
    cases hlatch
  refine hafter.invariant_of_mem ?_ (hpast.step hreturn (by rintro i ⟨⟩))
  intro s ev s' hev hstep h
  apply h.step hstep
  intro j heq
  subst heq
  exact hwrap j (by simp [hev])

/-- No interrupt is lost. From the moment a call has returned that drew the epoch `e`, the requests
with older tickets write at most one more line between them, the one for which a player had looked
at the flag before; they write none after a request with a ticket of `e` or later has written; and
none of them sleeps without a wake-up waiting for it. -/
theorem Run.interrupt_kept {b : Behaviour} {g : Random.Generator} {before after : List (Event ι)}
    {s₁ s₂ : Scene ι} {halt : Halt} (hbefore : Run (fresh b g) before s₁)
    (hreturned : .returned i halt e ∈ before) (hafter : Run s₁ after s₂)
    (hwrap : ∀ j, .drew j 0 ∉ before ++ after) :
    after.countP (Event.wroteOld (Ticket.olderThan e)) ≤ s₁.inHand (Ticket.olderThan e) ∧
    s₁.inHand (Ticket.olderThan e) ≤ 1 ∧
    (∀ earlier later j t c, before ++ after = earlier ++ .wrote j t c :: later → e ≤ t.epoch →
      ∀ k t' c', .wrote k t' c' ∈ later → e ≤ t'.epoch) ∧
    ∀ j w, s₂.desk = some (j, .on w .sleep) → w.ticket.epoch < e → (s₂.token w).wake = true := by
  have hpast : Past e s₁ :=
    hbefore.past (fun j hj => hwrap j (List.mem_append_left _ hj)) hreturned
  -- from when the call has returned, each step keeps older effects hushed
  obtain ⟨hpast', hcount⟩ := hafter.count_wrote_le hpast
    (fun s ev s' hev hstep h => h.step hstep (by
      intro j heq
      subst heq
      exact hwrap j (List.mem_append_right _ hev)))
    fun s h => h.hushed
  refine ⟨by omega, s₁.inHand_le_one _, ?_, ?_⟩
  · -- lines are written in the order of their tickets
    intro earlier later j t c hsplit he k t' c' hmem
    have hrun := hbefore.append hafter
    rw [hsplit] at hrun hwrap
    exact UInt64.le_trans he (hrun.wrote_le hwrap hmem)
  · -- an older effect that sleeps has its wake-up waiting
    intro j w hdesk hlt
    exact hpast'.wakened j w hdesk (Ticket.olderThan_iff.2 hlt)

/-- The bound is met: the thread 0 waits for the frame of a colour when the interrupt of the thread
1 returns, and still writes it. -/
theorem Run.interrupt_kept_in_hand : ∃ (before after : List (Event Nat)) (s₁ s₂ : Scene Nat),
    Run (fresh (Behaviour.ofTables none [] []) (Random.Generator.ofSeed 0)) before s₁ ∧
    Run s₁ after s₂ ∧ .returned 1 .interrupt 1 ∈ before ∧
    after.countP (Event.wroteOld (Ticket.olderThan 1)) = 1 ∧
    s₁.inHand (Ticket.olderThan 1) = 1 := by
  obtain ⟨s₂, hrun⟩ := exists_run
    (s := fresh (Behaviour.ofTables none [] []) (Random.Generator.ofSeed 0))
    (.request 0 (.push (.solid Color.black)) :: Move.steps 0 10 ++
      .call 1 .interrupt :: Move.steps 1 5 ++ Move.steps 0 2)
    ([.quiet, .took 0 (.push (.solid Color.black)), .quiet, .quiet, .quiet, .quiet, .quiet,
      .quiet, .quiet, .quiet, .quiet, .quiet, .drew 1 1, .quiet, .struck 1 1 0, .quiet,
      .returned 1 .interrupt 1] ++ [.quiet, .wrote 0 ⟨0⟩ Color.black]) rfl
  rcases hrun.split with ⟨s₁, hbefore, hafter⟩
  obtain ⟨hcount, hone, -, -⟩ := interrupt_kept hbefore
    (show Event.returned 1 .interrupt 1 ∈ _ by simp) hafter (by simp)
  have hwritten : [.quiet, .wrote 0 ⟨0⟩ Color.black].countP
      (Event.wroteOld (ι := Nat) (Ticket.olderThan 1)) = 1 := by decide
  exact ⟨_, _, s₁, s₂, hbefore, hafter, by simp, hwritten, by omega⟩

end Scene

end Beacon
