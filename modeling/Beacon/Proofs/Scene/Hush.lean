import Beacon.Proofs.Scene.Upkeep

/-!
# Hushed effects

A kind of request, given by its tickets, is hushed when no effect of that kind can go on: whichever
of them is past its second look at the control has its token cancelled. A hushed effect writes the
frame that it has in hand, if it had looked at the flag for that frame before, and nothing else; so
all requests of a hushed kind write at most one more line between them (`Run.count_wrote_le`). Nor
does one of them sleep without a wake-up waiting for it (`Wakened`).

Being hushed is kept by every step that does not let a request of the kind pass its second look
(`Hushed.step`), and it begins when a call looks into the active slot: then the scene is `Quiet`,
and what a call brings about, it brings about then (`Struck`).
-/

namespace Beacon

/-- Whether a player at this point is past its second look at the control, and not yet clearing the
slot. One that found its request stale counts from the moment its flag is up. -/
def Phase.committed : Phase → Bool
  | abortRouse | look | receive | write _ | hold _ | sleep | timedOut | judge => true
  | _ => false

/-- Whether a player at this point has looked at the flag for a frame that it has yet to write. -/
def Phase.inHand : Phase → Bool
  | receive | write _ => true
  | _ => false

/-- How many lines the requests of a kind will still write when they are hushed: one if the player
is of that kind and has a frame in hand. -/
def Play.inHand (old : Ticket → Bool) : Play → Nat
  | on w ph => if ph.inHand && old w.ticket then 1 else 0
  | _ => 0

theorem Play.inHand_le_one (old : Ticket → Bool) (p : Play) : p.inHand old ≤ 1 := by
  cases p with
  | on w ph =>
    simp only [inHand]
    split <;> omega
  | _ => exact Nat.zero_le _

@[simp] theorem Job.inHand_first (old : Ticket → Bool) (job : Job) : job.first.inHand old = 0 := by
  cases job <;> rfl

namespace Scene

variable {ι : Type} {s s' : Scene ι} {i : ι} {ev : Event ι} {old : Ticket → Bool}

/-- Whether a step writes a line of a request of some kind. -/
def Event.wroteOld (old : Ticket → Bool) : Event ι → Bool
  | wrote _ t _ => old t
  | _ => false

/-- How many lines the requests of a hushed kind will still write. -/
def inHand (old : Ticket → Bool) (s : Scene ι) : Nat := (s.desk.map fun d => d.2.inHand old).getD 0

theorem inHand_le_one (old : Ticket → Bool) (s : Scene ι) : s.inHand old ≤ 1 := by
  unfold inHand
  cases s.desk with
  | none => exact Nat.zero_le _
  | some d => exact d.2.inHand_le_one old

/-- No effect of this kind can go on: past its second look, its token is cancelled. -/
def Hushed (old : Ticket → Bool) (s : Scene ι) : Prop :=
  ∀ i w ph, s.desk = some (i, .on w ph) → old w.ticket = true → ph.committed = true →
    (s.token w).cancelled = true

/-- No effect of this kind sleeps without a wake-up waiting for it. -/
def Wakened (old : Ticket → Bool) (s : Scene ι) : Prop :=
  ∀ i w, s.desk = some (i, .on w .sleep) → old w.ticket = true → (s.token w).wake = true

/-! ## Steps keep a kind hushed -/

/-- How a player comes to be past its second look: it was so before, its flag has just been raised,
or it finds that its ticket is of the present epoch. -/
theorem Turn.committed {p : Play} {w' : Show} {ph' : Phase} (h : Turn i s p ev s' (.on w' ph'))
    (hc : ph'.committed = true) :
    ∃ w ph, p = .on w ph ∧ w.ticket = w'.ticket ∧ w.relay = w'.relay ∧
      (ph.committed = true ∨ (s'.token w').cancelled = true ∨
        (ph = .recheckEpoch ∧ s.epoch = w.ticket.epoch ∧ s' = s)) := by
  cases h with
  | freshEpoch he => exact ⟨w', _, rfl, rfl, rfl, Or.inr (Or.inr ⟨rfl, he, rfl⟩)⟩
  | abort ht => exact ⟨w', _, rfl, rfl, rfl, Or.inr (Or.inl (by simp [token, onToken, onRelay]))⟩
  | abortAgain ht => exact ⟨w', _, rfl, rfl, rfl, Or.inr (Or.inl ht)⟩
  | start | lockEnroll | enroll | staleClosed | freshClosed | staleEpoch | writeFails
  | judgeCancelled | judgeOn | lockClear | clear | drop | dropAgain | dropRouse => cases hc
  | @write w => exact ⟨w, _, rfl, rfl, rfl, Or.inl rfl⟩
  | _ => exact ⟨_, _, rfl, rfl, rfl, Or.inl rfl⟩

/-- A player that falls asleep has seen its flag down. -/
theorem Turn.sleep {p : Play} {w : Show} (h : Turn i s p ev s' (.on w .sleep)) :
    ∃ delay, p = .on w (.hold delay) ∧ (s.token w).cancelled = false ∧ s' = s := by
  cases h with
  | holdOn _ ht _ => exact ⟨_, rfl, ht, rfl⟩

/-- Only a player with a frame in hand writes, and only one that sees its flag down gets a frame in
hand. -/
theorem Turn.inHand {p p' : Play} (h : Turn i s p ev s' p')
    (hdown : ∀ w, p = .on w .look → old w.ticket = true → (s.token w).cancelled = true) :
    (ev.wroteOld old).toNat + p'.inHand old ≤ p.inHand old := by
  cases h with
  | @lookOn w ht =>
    have hnot : old w.ticket = false := by
      cases hold : old w.ticket with
      | false => rfl
      | true => rw [hdown w rfl hold] at ht; cases ht
    simp [Event.wroteOld, Play.inHand, Phase.inHand, hnot]
  | @write w frame | @writeFails w frame =>
    cases hold : old w.ticket <;> simp [Event.wroteOld, Play.inHand, Phase.inHand, hold]
  | receive => exact Nat.le_of_eq (Nat.zero_add _)
  | _ => exact Nat.zero_le _

variable [DecidableEq ι]

/-- A step that lets no request of a hushed kind pass its second look keeps the kind hushed. -/
theorem Hushed.step (h : Hushed old s) (hk : Kept s) (hstep : Step s ev s')
    (hpass : ∀ i w, s.desk = some (i, .on w .recheckEpoch) → old w.ticket = true →
      s.epoch = w.ticket.epoch → (s.token w).cancelled = true) : Hushed old s' := by
  intro j w' ph' hdesk hold hc
  -- a flag that is up stays up, whatever the step
  have hstays : ∀ i w ph, s.desk = some (i, .on w ph) → (s.token w).cancelled = true →
      w.relay = w'.relay → (s'.token w').cancelled = true := by
    intro i w ph hdesk hcancelled hrelay
    have := hstep.cancelled (hk.born i w ph hdesk) hcancelled
    rwa [hrelay] at this
  cases hstep with
  | @take i job hd hq =>
    cases job <;> cases (desk_inj hdesk).2
  | @turn i p _ s₁ p' hq ht =>
    rcases desk_inj hdesk with ⟨rfl, rfl⟩
    rcases ht.committed hc with ⟨w, ph, rfl, hticket, hrelay, hcommitted⟩
    have hold' : old w.ticket = true := hticket ▸ hold
    rcases hcommitted with hcommitted | hraised | ⟨rfl, hepoch, rfl⟩
    · exact hstays i w ph hq (h i w ph hq hold' hcommitted) hrelay
    · exact hraised
    · exact hstays i w _ hq (hpass i w hq hold' hepoch) hrelay
  | leave hq => cases hdesk
  | _ => exact hstays j w' ph' hdesk (h j w' ph' hdesk hold hc) rfl

/-- In a scene where a kind is hushed, a step that writes a line of that kind uses up the frame in
hand, and no other step gets one into hand. -/
theorem Hushed.inHand_step (h : Hushed old s) (hstep : Step s ev s') :
    (ev.wroteOld old).toNat + s'.inHand old ≤ s.inHand old := by
  cases hstep with
  | @take i job hd hq => simp [Scene.inHand, Event.wroteOld, hq]
  | @turn i p _ s₁ p' hq ht =>
    have hdown : ∀ w, p = .on w .look → old w.ticket = true → (s.token w).cancelled = true := by
      rintro w rfl hold
      exact h i w .look hq hold rfl
    simpa [Scene.inHand, hq] using ht.inHand hdown
  | leave hq => simp [Scene.inHand, Event.wroteOld]
  | _ => exact Nat.le_of_eq (Nat.zero_add _)

/-- While a kind stays hushed, its requests write no more than the frame in hand. -/
theorem Run.count_wrote_le {s₀ : Scene ι} {events : List (Event ι)} {P : Scene ι → Prop}
    (hrun : Run s₀ events s) (h₀ : P s₀)
    (hstep : ∀ s ev s', ev ∈ events → Step s ev s' → P s → P s')
    (hhushed : ∀ s, P s → Hushed old s) :
    P s ∧ events.countP (Event.wroteOld old) + s.inHand old ≤ s₀.inHand old := by
  -- each line of the kind uses up the frame in hand, and no other frame gets into hand
  induction hrun with
  | refl => exact ⟨h₀, by simp⟩
  | @step events s ev s' hrun hs ih =>
    obtain ⟨hP, hcount⟩ := ih fun s ev s' hmem => hstep s ev s' (List.mem_append_left _ hmem)
    refine ⟨hstep s ev s' (by simp) hs hP, ?_⟩
    have hone := (hhushed s hP).inHand_step hs
    rw [List.countP_append, List.countP_singleton]
    cases hev : ev.wroteOld old with
    | false =>
      rw [hev] at hone
      simp only [Bool.toNat_false] at hone
      simp only [Bool.false_eq_true, if_false]
      omega
    | true =>
      rw [hev] at hone
      simp only [Bool.toNat_true] at hone
      simp only [if_true]
      omega

/-! ## Sleepers -/

/-- A sleeper whose token is cancelled has a wake-up waiting, or a call is about to leave it one. -/
def Roused (s : Scene ι) : Prop :=
  ∀ i w, s.desk = some (i, .on w .sleep) → (s.token w).cancelled = true →
    (s.token w).wake = true ∨ ∃ j, s.latch = some (.caller j (.rouse w.relay))

omit [DecidableEq ι] in
/-- A sleeper whose token is cancelled has a wake-up waiting, unless a call is about to leave it
one. -/
theorem Roused.wake (h : Roused s) {w : Show} (hdesk : s.desk = some (i, .on w .sleep))
    (hc : (s.token w).cancelled = true)
    (hl : ∀ j, s.latch ≠ some (.caller j (.rouse w.relay))) : (s.token w).wake = true := by
  rcases h i w hdesk hc with hwake | ⟨j, hlatch⟩
  · exact hwake
  · exact absurd hlatch (hl j)

theorem Roused.step (h : Roused s) (hstep : Step s ev s') : Roused s' := by
  intro j w hdesk hc
  cases hstep with
  | grab hd hl | release hd hl => exact Or.inl (h.wake hdesk hc (by simp [hl]))
  | miss hl | strikeAgain hl => exact Or.inl (h.wake hdesk hc (by simp [hl]))
  | @strike i halt e k hd hl ha ht =>
    -- the call that raises the flag is the one that is about to leave the wake-up
    by_cases hk : w.relay = k
    · exact Or.inr ⟨i, by rw [hk]⟩
    · have hold : (s.token w).cancelled = true := by
        simpa [token, onToken, onRelay, hk] using hc
      have hwake := h.wake hdesk hold (by simp [hl])
      exact Or.inl (token_update (·.wake = true) (by simp) hwake)
  | @rouse i k hl =>
    -- the wake-up that was due is left with this step
    by_cases hk : w.relay = k
    · exact Or.inl (by simp [token, onToken, onRelay, hk])
    · have hold : (s.token w).cancelled = true := by
        simpa [token, onToken, onRelay, hk] using hc
      have hwake := h.wake hdesk hold (by simp [hl, Ne.symm hk])
      exact Or.inl (token_update (·.wake = true) (by simp) hwake)
  | @take i job hd hq =>
    cases job <;> cases (desk_inj hdesk).2
  | @turn i p _ s₁ p' hq ht =>
    rcases desk_inj hdesk with ⟨rfl, rfl⟩
    -- a player falls asleep only with its flag down
    rcases ht.sleep with ⟨delay, rfl, hdown, rfl⟩
    have hup : (s₁.token w).cancelled = true := hc
    rw [hdown] at hup
    cases hup
  | leave hq => cases hdesk
  | @compose k r hcompose =>
    have htoken : (Function.update s.relays k r w.relay).token = (s.token w) := by
      by_cases hk : w.relay = k
      · simp [token, hk, hcompose.token_eq]
      · simp [token, hk]
    have hc' : (Function.update s.relays k r w.relay).token.cancelled = true := hc
    rw [htoken] at hc'
    exact (h j w hdesk hc').imp_left fun hwake =>
      show (Function.update s.relays k r w.relay).token.wake = true by rw [htoken]; exact hwake
  | _ => exact h j w hdesk hc

/-- While a kind is hushed, none of its effects falls asleep, and a wake-up that waits for a sleeper
stays where it is. -/
theorem Wakened.step (h : Wakened old s) (hh : Hushed old s) (hstep : Step s ev s') :
    Wakened old s' := by
  intro j w hdesk hold
  cases hstep with
  | strike hd hl ha ht => exact token_update (·.wake = true) (by simp) (h j w hdesk hold)
  | rouse hl => exact token_update (·.wake = true) (by simp) (h j w hdesk hold)
  | @take i job hd hq =>
    cases job <;> cases (desk_inj hdesk).2
  | @turn i p _ s₁ p' hq ht =>
    rcases desk_inj hdesk with ⟨rfl, rfl⟩
    -- a player falls asleep only with its flag down, and that of this one is up
    rcases ht.sleep with ⟨delay, rfl, hdown, rfl⟩
    have hup := hh i w (.hold delay) hq hold rfl
    rw [hdown] at hup
    cases hup
  | leave hq => cases hdesk
  | compose hcompose =>
    refine token_update (·.wake = true) ?_ (h j w hdesk hold)
    rw [hcompose.token_eq]
    exact id
  | _ => exact h j w hdesk hold

omit [DecidableEq ι] in
/-- A kind that is hushed has its sleepers wakened once every wake-up has been left. -/
theorem Roused.wakened (h : Roused s) (hh : Hushed old s)
    (hl : ∀ j k, s.latch ≠ some (.caller j (.rouse k))) : Wakened old s := by
  intro i w hdesk hold
  have hcancelled := hh i w .sleep hdesk hold rfl
  exact h.wake hdesk hcancelled fun j => hl j w.relay

/-! ## Calls that strike -/

/-- The effect in the active slot, if there is one, has been cancelled. -/
def Quiet (s : Scene ι) : Prop := ∀ k, s.active = some k → (s.relays k).token.cancelled = true

omit [DecidableEq ι] in
/-- An effect that is being played and has its token in the slot is cancelled in a quiet scene. -/
theorem Quiet.cancelled (h : Quiet s) (hk : Kept s) {w : Show} {ph : Phase}
    (hdesk : s.desk = some (i, .on w ph)) (hentered : ph.entered = true) :
    (s.token w).cancelled = true := by
  have hactive := hk.active
  rw [hdesk] at hactive
  exact h w.relay (by simpa [Play.entered, hentered] using hactive)

omit [DecidableEq ι] in
/-- Past its second look, an effect has its token in the slot: in a quiet scene everything is
hushed. -/
theorem Quiet.hushed (h : Quiet s) (hk : Kept s) (old : Ticket → Bool) : Hushed old s := by
  intro i w ph hdesk _ hcommitted
  have hentered : ph.entered = true := by
    cases ph <;> first | rfl | cases hcommitted
  exact h.cancelled hk hdesk hentered

/-- A call that holds the lock of the active slot and has looked into it did so before this step, or
leaves a quiet scene with this step. -/
theorem Step.gripped (hk : Kept s) (hstep : Step s ev s') {j : ι} {grip : Grip}
    (hl' : s'.latch = some (.caller j grip)) (hgrip : grip ≠ .aim) :
    s'.doing j = s.doing j ∧
      ((∃ held, s.latch = some (.caller j held) ∧ held ≠ .aim) ∨ Quiet s') := by
  -- one that holds the lock is striking, so no step of a thread that goes elsewhere is its own
  have hgo : ∀ {i p}, s.latch = some (.caller j grip) →
      (∀ halt e, s.doing i ≠ .striking halt e) → Function.update s.doing i p j = s.doing j := by
    intro i p hl hnot
    rcases hk.held j grip hl with ⟨halt, e, hdoing⟩
    have hj : j ≠ i := fun hji => hnot halt e (hji ▸ hdoing)
    simp [hj]
  cases hstep with
  | request job hd hj => exact ⟨hgo hl' (by simp [hd]), Or.inl ⟨grip, hl', hgrip⟩⟩
  | call halt hd => exact ⟨hgo hl' (by simp [hd]), Or.inl ⟨grip, hl', hgrip⟩⟩
  | shut hd => exact ⟨hgo hl' (by simp [hd]), Or.inl ⟨grip, hl', hgrip⟩⟩
  | draw hd => exact ⟨hgo hl' (by simp [hd]), Or.inl ⟨grip, hl', hgrip⟩⟩
  | grab hd hl =>
    simp only [Option.some.injEq, Latch.caller.injEq] at hl'
    exact absurd hl'.2.symm hgrip
  | miss hl ha =>
    -- an empty slot is quiet; so is one whose token has been cancelled, before or now
    refine ⟨rfl, Or.inr ?_⟩
    intro k hactive
    cases ha.symm.trans hactive
  | strikeAgain hl ha ht =>
    refine ⟨rfl, Or.inr ?_⟩
    intro k hactive
    rcases Option.some.inj (ha.symm.trans hactive) with rfl
    exact ht
  | strike hd hl ha ht =>
    refine ⟨rfl, Or.inr ?_⟩
    intro k hactive
    rcases Option.some.inj (ha.symm.trans hactive) with rfl
    simp [onToken, onRelay]
  | rouse hl =>
    simp only [Option.some.injEq, Latch.caller.injEq] at hl'
    rcases hl' with ⟨rfl, -⟩
    exact ⟨rfl, Or.inl ⟨_, hl, by rintro ⟨⟩⟩⟩
  | release hd hl => cases hl'
  | turn hq ht => exact ⟨congrFun ht.frame.2.2.1 j, Or.inl ⟨grip, ht.latch hl', hgrip⟩⟩
  | leave hq =>
    -- whoever leaves had asked for the queue, so it was not striking
    rcases hk.queued _ _ hq with ⟨job, hjob⟩
    exact ⟨hgo hl' (by simp [hjob]), Or.inl ⟨grip, hl', hgrip⟩⟩
  | _ => exact ⟨rfl, Or.inl ⟨grip, hl', hgrip⟩⟩

/-- What a call brings about holds from the moment it has looked into the active slot. -/
def Struck (Q : Halt → UInt64 → Scene ι → Prop) (s : Scene ι) : Prop :=
  ∀ j grip halt e, s.latch = some (.caller j grip) → grip ≠ .aim →
    s.doing j = .striking halt e → Q halt e s

/-- What every step keeps, and what holds in a quiet scene, is what a call brings about. -/
theorem Struck.step {Q : Halt → UInt64 → Scene ι → Prop} (h : Struck Q s) (hk : Kept s)
    (hstep : Step s ev s') (hkeep : ∀ halt e, Q halt e s → Q halt e s')
    (hquiet : ∀ j halt e, s'.doing j = .striking halt e → Quiet s' → Q halt e s') :
    Struck Q s' := by
  intro j grip halt e hlatch hgrip hdoing
  rcases hstep.gripped hk hlatch hgrip with ⟨hsame, ⟨held, hheld, haim⟩ | hs'⟩
  · exact hkeep halt e (h j held halt e hheld haim (hsame ▸ hdoing))
  · exact hquiet j halt e hdoing hs'

/-- A call returns only after it has looked into the active slot. -/
theorem Struck.returned {Q : Halt → UInt64 → Scene ι → Prop} (h : Struck Q s) {j : ι} {halt : Halt}
    {e : UInt64} (hstep : Step s (.returned j halt e) s') : Q halt e s := by
  cases hstep with
  | release hd hl => exact h j .spent halt e hl (by rintro ⟨⟩) hd
  | turn hq ht => cases ht

end Scene

end Beacon
