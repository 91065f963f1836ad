import Beacon.Proofs.Scene.Schedule

/-!
# Scenes never get stuck

Three things can keep a thread or a composer from going on: the lock of the queue, the lock of the
active slot, and the slot for a frame, which must be empty for one who sends and full for one who
receives. `WaitsFor` says who waits for whom because of them. In every scene that can be reached,
whoever has not finished can go on, or waits, directly or through others, for one who can
(`Run.leads_on`). So it never happens that some have not finished and none of them can go on.

The invariant behind it is `Orderly`: the player holds the lock of the active slot only where it
enters or clears its token, and nobody but the player of an effect listens to its composer.
-/

namespace Beacon

/-! ## Composers -/

/-- A composer can go on unless it has a frame in hand and the slot is full. To whom nobody listens,
a full slot does not matter. -/
theorem Relay.exists_compose {r : Relay} (hc : r.composer ≠ .gone)
    (hroom : ∀ frame rest, r.composer = .sending frame rest → r.heard = true → r.slot = none) :
    ∃ r', Compose r r' := by
  cases hcomposer : r.composer with
  | asking source =>
    cases hn : source.next with
    | none => exact ⟨_, .ended hcomposer hn⟩
    | some next =>
      cases ht : r.token.cancelled with
      | true => exact ⟨_, .stopped hcomposer hn ht⟩
      | false => exact ⟨_, .offer hcomposer hn ht⟩
  | sending frame rest =>
    cases hh : r.heard with
    | true => exact ⟨_, .send hcomposer (hroom frame rest hcomposer hh) hh⟩
    | false => exact ⟨_, .unheard hcomposer hh⟩
  | gone => exact absurd hcomposer hc

/-- A composer that has not finished, and to whom somebody listens. -/
def Relay.Busy (r : Relay) : Prop := r.heard = true ∧ r.composer ≠ .gone

/-! ## The player's locks and frames -/

/-- Whether the lock of the active slot is taken at this point. -/
def Play.locks : Play → Bool
  | on _ .enroll | on _ (.clear _) => true
  | _ => false

/-- The relay that is listened to at this point. -/
def Play.listens : Play → Option Nat
  | on w _ => some w.relay
  | _ => none

namespace Scene

variable {ι : Type} {s s' : Scene ι} {i j : ι} {ev : Event ι} {p p' : Play}

/-- The player holds the lock of the active slot only where it enters or clears its token, and to a
composer that has not finished nobody listens but the player of its effect. -/
structure Orderly (s : Scene ι) : Prop where
  latch : s.latch = some .player → ∃ i p, s.desk = some (i, p) ∧ p.locks = true
  busy : ∀ k, (s.relays k).Busy → ∃ i p, s.desk = some (i, p) ∧ p.listens = some k

theorem Orderly.fresh (b : Behaviour) (g : Random.Generator) :
    Orderly (Scene.fresh b g : Scene ι) :=
  ⟨fun h => (Option.some_ne_none _ h.symm).elim, fun _ h => absurd rfl h.2⟩

theorem Turn.locks (h : Turn i s p ev s' p') (hp : s.latch = some .player → p.locks = true)
    (hl : s'.latch = some .player) : p'.locks = true := by
  cases h with
  | lockEnroll | lockClear => rfl
  | enroll | clear => cases hl
  | _ => cases hp hl

/-- A change at one relay that lets nobody listen anew and puts no composer to work. -/
theorem busy_of_update {relays : Nat → Relay} {k l : Nat} {r : Relay}
    (hr : r.Busy → (relays k).Busy) (h : (Function.update relays k r l).Busy) :
    (relays l).Busy := by
  by_cases hl : l = k
  · subst hl
    exact hr (by simpa using h)
  · simpa [hl] using h

theorem Turn.listens (h : Turn i s p ev s' p')
    (hp : ∀ k, (s.relays k).Busy → p.listens = some k) {k : Nat} (hk : (s'.relays k).Busy) :
    p'.listens = some k := by
  cases h with
  | start =>
    by_cases hborn : k = s.born
    · rw [hborn]
      rfl
    · cases hp k (by simpa [opened, hborn] using hk)
  | abort | abortRouse | receive | wake | drop | dropRouse =>
    refine hp k (busy_of_update ?_ hk)
    exact id
  | @deafen w =>
    -- nobody listens to this relay any more, and to another one nobody has listened
    by_cases hrelay : k = w.relay
    · subst hrelay
      simp [onRelay, Relay.deafened, Relay.Busy] at hk
    · exact absurd (Option.some.inj (hp k (by simpa [onRelay, hrelay] using hk))).symm hrelay
  | _ => exact hp k hk

variable [DecidableEq ι]

theorem Orderly.step (h : Orderly s) (hstep : Step s ev s') : Orderly s' := by
  cases hstep with
  | grab | miss | strikeAgain =>
    -- the lock is held by a call now, not by the player
    refine ⟨?_, h.busy⟩
    intro hnone
    cases hnone
  | strike | rouse =>
    refine ⟨?_, ?_⟩
    · intro hnone
      cases hnone
    · intro k hk
      refine h.busy k (busy_of_update ?_ hk)
      exact id
  | release =>
    refine ⟨?_, h.busy⟩
    intro hnone
    cases hnone
  | take hd hq =>
    -- nobody had the queue, so the player held no lock and listened to no relay
    refine ⟨?_, ?_⟩
    · intro hl
      rcases h.latch hl with ⟨i, p, hdesk, -⟩
      cases hq.symm.trans hdesk
    · intro k hk
      rcases h.busy k hk with ⟨i, p, hdesk, -⟩
      cases hq.symm.trans hdesk
  | @turn i p _ s₁ p' hq ht =>
    -- a turn says itself what lock its player holds and to whom it listens
    refine ⟨?_, ?_⟩
    · intro hl
      refine ⟨i, p', rfl, ht.locks ?_ hl⟩
      intro hl
      rcases h.latch hl with ⟨j, q, hdesk, hlocks⟩
      exact (desk_inj (hq.symm.trans hdesk)).2 ▸ hlocks
    · intro k hk
      refine ⟨i, p', rfl, ht.listens ?_ hk⟩
      intro k hk
      rcases h.busy k hk with ⟨j, q, hdesk, hlistens⟩
      exact (desk_inj (hq.symm.trans hdesk)).2 ▸ hlistens
  | leave hq =>
    -- whoever leaves holds no lock and listens to nobody
    refine ⟨?_, ?_⟩
    · intro hl
      rcases h.latch hl with ⟨j, q, hdesk, hlocks⟩
      rcases (desk_inj (hq.symm.trans hdesk)).2 with rfl
      cases hlocks
    · intro k hk
      rcases h.busy k hk with ⟨j, q, hdesk, hlistens⟩
      rcases (desk_inj (hq.symm.trans hdesk)).2 with rfl
      cases hlistens
  | @compose k r hc =>
    refine ⟨h.latch, ?_⟩
    intro l hl
    refine h.busy l (busy_of_update ?_ hl)
    intro hr
    exact ⟨hc.heard_eq ▸ hr.1, hc.composer_ne_gone⟩
  | _ => exact ⟨h.latch, h.busy⟩

theorem Run.orderly {b : Behaviour} {g : Random.Generator} {events : List (Event ι)}
    (hrun : Run (fresh b g) events s) : Orderly s :=
  hrun.invariant (fun _ _ _ hstep h => h.step hstep) (Orderly.fresh b g)

end Scene

/-! ## Waiting -/

/-- One who can go on by itself: a thread, or the composer of an effect. -/
inductive Mover (ι : Type)
  | thread (thread : ι)
  | composer (relay : Nat)

/-- The move by which one goes on. -/
def Mover.move {ι : Type} (age : Duration) (late : Bool) : Mover ι → Scene.Move ι
  | thread i => .next i age late
  | composer k => .compose k

namespace Scene

variable {ι : Type} {s s' : Scene ι} {i j : ι} {ev : Event ι} {p : Play}

/-- A thread is done when it has nothing under way, and a composer when it has gone. -/
def Done (s : Scene ι) : Mover ι → Prop
  | .thread i => s.doing i = .idle
  | .composer k => (s.relays k).composer = .gone

/-- Whether a thread holds the lock of the active slot. -/
def Holds (s : Scene ι) (i : ι) : Prop :=
  (∃ grip, s.latch = some (.caller i grip)) ∨
    s.latch = some .player ∧ ∃ p, s.desk = some (i, p)

/-- Whether a thread needs the lock of the active slot to go on. -/
def Needs (s : Scene ι) (i : ι) : Prop :=
  (∃ halt e, s.doing i = .striking halt e) ∨ ∃ p, s.desk = some (i, p) ∧ p.locks = true

/-- Who waits for whom: for the one who has the queue, for the one who holds the lock of the active
slot, for a composer to put a frame into the empty slot, and for the player to take one out of the
full slot. -/
inductive WaitsFor (s : Scene ι) : Mover ι → Mover ι → Prop
  | queue {i j : ι} {job : Job} {p : Play} (hd : s.doing i = .queued job)
      (hq : s.desk = some (j, p)) (hne : j ≠ i) : WaitsFor s (.thread i) (.thread j)
  | latch {i j : ι} (hn : s.Needs i) (hh : s.Holds j) (hne : j ≠ i) :
      WaitsFor s (.thread i) (.thread j)
  | frame {i : ι} {w : Show} (hq : s.desk = some (i, .on w .receive))
      (hs : (s.relays w.relay).slot = none) (hc : (s.relays w.relay).composer ≠ .gone) :
      WaitsFor s (.thread i) (.composer w.relay)
  | room {i : ι} {w : Show} {ph : Phase} {frame : Frame} {rest : Source Random.Generator}
      (hq : s.desk = some (i, .on w ph)) (hs : (s.relays w.relay).slot ≠ none)
      (hc : (s.relays w.relay).composer = .sending frame rest) :
      WaitsFor s (.composer w.relay) (.thread i)

variable [DecidableEq ι]

/-- One can go on: there is a step that it makes. -/
def Ready (s : Scene ι) (m : Mover ι) : Prop :=
  ∃ age late ev s', s.advance (m.move age late) = some (ev, s') ∧ Step s ev s'

/-- One can go on, or waits, directly or through others, for one who can. -/
def Leads (s : Scene ι) (m : Mover ι) : Prop :=
  ∃ m', Relation.ReflTransGen s.WaitsFor m m' ∧ ¬ s.Done m' ∧ s.Ready m'

theorem Ready.leads {m : Mover ι} (h : s.Ready m) (hm : ¬ s.Done m) : s.Leads m :=
  ⟨m, .refl, hm, h⟩

theorem Leads.head {m m' : Mover ι} (hwaits : s.WaitsFor m m') (h : s.Leads m') : s.Leads m := by
  rcases h with ⟨last, hchain, hdone, hready⟩
  exact ⟨last, .head hwaits hchain, hdone, hready⟩

theorem ready_of_threadNext (late : Bool)
    (h : s.threadNext i Duration.zero late = some (ev, s')) : s.Ready (.thread i) :=
  ⟨Duration.zero, late, ev, s', h, Step.of_threadNext h⟩

theorem ready_of_compose {k : Nat} {r : Relay} (h : Relay.Compose (s.relays k) r) :
    s.Ready (.composer k) :=
  ⟨Duration.zero, false, .quiet, s.onRelay k fun _ => r,
    by simp [Mover.move, advance, Relay.compose_iff.1 h], .compose h⟩

/-- Who has the queue goes on if its play does. -/
theorem ready_of_playNext (hk : Kept s) (hq : s.desk = some (i, p))
    (h : ∃ ev s₁ p', s.playNext i Duration.zero true p = some (ev, s₁, p')) :
    s.Ready (.thread i) := by
  rcases h with ⟨ev, s₁, p', hplay⟩
  rcases hk.queued i p hq with ⟨job, hd⟩
  have hnext : s.threadNext i Duration.zero true = some (ev, { s₁ with desk := some (i, p') }) := by
    cases p with
    | done => cases hplay
    | _ => simp [threadNext, hd, hq, hplay]
  exact ready_of_threadNext true hnext

/-- Who holds the lock of the active slot can go on, and so it will be released. -/
theorem Holds.ready (hk : Kept s) (ho : Orderly s) (h : s.Holds i) : s.Ready (.thread i) := by
  rcases h with ⟨grip, hl⟩ | ⟨hl, p, hq⟩
  · rcases hk.held i grip hl with ⟨halt, e, hd⟩
    exact ready_of_threadNext false (by simp only [threadNext, hd, hl, if_true]; rfl)
  · rcases ho.latch hl with ⟨j, q, hq', hlocks⟩
    rcases desk_inj (hq.symm.trans hq') with ⟨rfl, rfl⟩
    apply ready_of_playNext hk hq
    cases p with
    | on w ph =>
      cases ph with
      | enroll | clear => simp [playNext, playOn, hl]
      | _ => cases hlocks
    | _ => cases hlocks

/-- The lock of the active slot is free, or one who can go on holds it. -/
theorem Needs.leads (hk : Kept s) (ho : Orderly s) (h : s.Needs i) (hdone : s.doing i ≠ .idle)
    (hfree : s.latch = none → s.Ready (.thread i)) : s.Leads (.thread i) := by
  have hheld : ∀ j, s.Holds j → s.Leads (.thread i) := by
    intro j hj
    by_cases hne : j = i
    · exact (hne ▸ hj.ready hk ho).leads hdone
    · refine .head (.latch h hj hne) ((hj.ready hk ho).leads ?_)
      -- who holds the lock is striking, or has the queue
      rcases hj with ⟨grip, hl⟩ | ⟨-, p, hq⟩
      · rcases hk.held j grip hl with ⟨halt, e, hd⟩
        simp [Done, hd]
      · rcases hk.queued j p hq with ⟨job, hd⟩
        simp [Done, hd]
  cases hl : s.latch with
  | none => exact (hfree hl).leads hdone
  | some latch =>
    cases latch with
    | caller j grip => exact hheld j (Or.inl ⟨grip, hl⟩)
    | player =>
      rcases ho.latch hl with ⟨j, p, hq, -⟩
      exact hheld j (Or.inr ⟨hl, p, hq⟩)

/-- Who has the queue can go on, but for the lock of the active slot and for a frame to come. -/
theorem leads_of_desk (hk : Kept s) (ho : Orderly s) (hq : s.desk = some (i, p)) :
    s.Leads (.thread i) := by
  rcases hk.queued i p hq with ⟨job, hd⟩
  have hdone : ¬ s.Done (.thread i) := by simp [Done, hd]
  cases p with
  | on w ph =>
    cases ph with
    | enroll | clear =>
      -- here the lock is needed, and whoever holds it can let it go
      apply Needs.leads hk ho (Or.inr ⟨_, hq, rfl⟩) hdone
      intro hl
      exact ready_of_playNext hk hq (by simp [playNext, playOn, hl])
    | receive =>
      -- here a frame is needed, unless the composer has gone
      cases hs : (s.relays w.relay).slot with
      | some frame =>
        exact (ready_of_playNext hk hq (by simp [playNext, playOn, hs])).leads hdone
      | none =>
        by_cases hc : (s.relays w.relay).composer = .gone
        · exact (ready_of_playNext hk hq (by simp [playNext, playOn, hs, hc])).leads hdone
        · rcases Relay.exists_compose hc fun _ _ _ _ => hs with ⟨r, hr⟩
          exact .head (.frame hq hs hc) ((ready_of_compose hr).leads hc)
    | abort | drop =>
      refine (ready_of_playNext hk hq ?_).leads hdone
      simp only [playNext, playOn]
      split <;> exact ⟨_, _, _, rfl⟩
    | _ => exact (ready_of_playNext hk hq ⟨_, _, _, rfl⟩).leads hdone
  | done report =>
    have hnext : s.threadNext i Duration.zero false =
        some (.left i report, { s.go i .idle with desk := none }) := by
      simp [threadNext, hd, hq]
    exact (ready_of_threadNext false hnext).leads hdone
  | _ => exact (ready_of_playNext hk hq ⟨_, _, _, rfl⟩).leads hdone

theorem leads_thread (hk : Kept s) (ho : Orderly s) (hdone : ¬ s.Done (.thread i)) :
    s.Leads (.thread i) := by
  have hready : ∀ {ev s'}, s.threadNext i Duration.zero false = some (ev, s') →
      s.Leads (.thread i) := fun h => (ready_of_threadNext false h).leads hdone
  cases hd : s.doing i with
  | idle => exact absurd hd hdone
  | closing => exact hready (by simp only [threadNext, hd]; rfl)
  | drawing halt => exact hready (by simp only [threadNext, hd]; rfl)
  | striking halt e =>
    apply Needs.leads hk ho (Or.inl ⟨halt, e, hd⟩) hdone
    intro hl
    exact ready_of_threadNext false (by simp only [threadNext, hd, hl]; rfl)
  | queued job =>
    -- one that waits for the queue waits for whoever has it, and that one can go on
    cases hq : s.desk with
    | none => exact hready (by simp only [threadNext, hd, hq]; rfl)
    | some d =>
      rcases d with ⟨j, p⟩
      have hplayer := leads_of_desk hk ho hq
      by_cases hne : j = i
      · exact hne ▸ hplayer
      · exact .head (.queue hd hq hne) hplayer

theorem leads_composer (hk : Kept s) (ho : Orderly s) {k : Nat}
    (hdone : ¬ s.Done (.composer k)) : s.Leads (.composer k) := by
  have hc : (s.relays k).composer ≠ .gone := hdone
  by_cases hroom : ∀ frame rest, (s.relays k).composer = .sending frame rest →
      (s.relays k).heard = true → (s.relays k).slot = none
  · rcases Relay.exists_compose hc hroom with ⟨r, hr⟩
    exact (ready_of_compose hr).leads hdone
  · -- the slot is full, and the one who listens is the player
    simp only [not_forall] at hroom
    rcases hroom with ⟨frame, rest, hsending, hheard, hfull⟩
    rcases ho.busy k ⟨hheard, hc⟩ with ⟨i, p, hq, hlistens⟩
    cases p with
    | on w ph =>
      rcases Option.some.inj hlistens with rfl
      exact .head (.room hq hfull hsending) (leads_of_desk hk ho hq)
    | _ => cases hlistens

/-- There is no deadlock. In every scene that can be reached, each thread and each composer that has
not finished can go on, or waits, directly or through others, for one that has not finished and can.
Nobody waits for the queue while it holds the lock of the active slot; and a composer whose frames
nobody listens to any more, or whose effect nobody plays any more, can always go on. -/
theorem Run.leads_on {b : Behaviour} {g : Random.Generator} {events : List (Event ι)}
    (hrun : Run (fresh b g) events s) :
    (∀ m, ¬ s.Done m → ∃ m', Relation.ReflTransGen s.WaitsFor m m' ∧ ¬ s.Done m' ∧
      ∃ age late ev s', s.advance (m'.move age late) = some (ev, s') ∧ Step s ev s') ∧
    (∀ i job, s.doing i = .queued job → (∀ p, s.desk ≠ some (i, p)) → ¬ s.Holds i) ∧
    ∀ k, (s.relays k).composer ≠ .gone →
      ((s.relays k).heard = false ∨ ∀ i w ph, s.desk = some (i, .on w ph) → w.relay ≠ k) →
      ∃ r, Relay.Compose (s.relays k) r := by
  have hk := hrun.kept
  have ho := hrun.orderly
  refine ⟨?_, ?_, ?_⟩
  · intro m hm
    cases m with
    | thread i => exact leads_thread hk ho hm
    | composer k => exact leads_composer hk ho hm
  · -- a call that holds the lock is striking, and a player that holds it has the queue
    intro i job hd hwaits hholds
    rcases hholds with ⟨grip, hl⟩ | ⟨-, p, hq⟩
    · rcases hk.held i grip hl with ⟨halt, e, hstriking⟩
      cases hd.symm.trans hstriking
    · exact hwaits p hq
  · -- a composer waits only for room in a slot that somebody listens to
    intro k hc hleft
    apply Relay.exists_compose hc
    intro frame rest _ hheard
    rcases hleft with hunheard | hnobody
    · cases hunheard.symm.trans hheard
    · rcases ho.busy k ⟨hheard, hc⟩ with ⟨i, p, hq, hlistens⟩
      cases p with
      | on w ph => exact absurd (Option.some.inj hlistens) (hnobody i w ph hq)
      | _ => cases hlistens

/-- The thread 1 waits for the queue, and the thread 0, which has it, waits for the first frame of
its flash: neither can go on, but the composer of the flash can. -/
theorem Run.leads_on_composer : ∃ (events : List (Event Nat)) (s : Scene Nat),
    Run (fresh (Behaviour.ofTables none [] []) (Random.Generator.ofSeed 0)) events s ∧
    (∀ age late, s.threadNext 0 age late = none ∧ s.threadNext 1 age late = none) ∧
    ∃ m', Relation.ReflTransGen s.WaitsFor (.thread 1) m' ∧ ¬ s.Done m' ∧
      ∃ age late ev s', s.advance (m'.move age late) = some (ev, s') ∧ Step s ev s' := by
  obtain ⟨events, s, hperform, hstuck, hdone⟩ : ∃ events s,
      (fresh (Behaviour.ofTables none [] []) (Random.Generator.ofSeed 0)).perform
        (.request 0 (.push (.flash ⟨⟨1000000000⟩, ⟨255, 0, 0⟩, -1⟩)) :: Move.steps 0 10 ++
          [.request 1 .turnOff]) = some (events, s) ∧
      (∀ age late, s.threadNext 0 age late = none ∧ s.threadNext 1 age late = none) ∧
      ¬ s.Done (.thread 1) :=
    ⟨_, _, rfl, fun _ _ => ⟨rfl, rfl⟩, fun h => nomatch h⟩
  have hrun := Run.of_perform _ _ hperform
  exact ⟨events, s, hrun, hstuck, (leads_on hrun).1 (.thread 1) hdone⟩

end Scene

end Beacon
