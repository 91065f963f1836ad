import Beacon.Proofs.Scene.Upkeep

/-!
# What a player receives

While an effect is played, its relay supplies the frames after those that were shown, in order and
without a gap (`Run.supplied`). So each frame that is written is the next one of the effect; and
when a player stops although its flag is down, all frames have been shown.

A player also stops when it takes a wake-up out of the slot. That is a sign of cancellation, because
nobody leaves a wake-up without having raised the flag before (`Wary`).
-/

namespace Beacon

/-- What the relay of a started effect holds when its player is at this point. The frames shown have
been received, and one more when a frame is about to be written, which is then the next one. When
the player looks at the flag for the last time, the flag is up or all frames have been shown. -/
def Phase.Fits (w : Show) (r : Relay) : Phase → Prop
  | write frame =>
    r.Supplies w.source (w.shown + 1) ∧
      w.source.take (w.shown + 1) = w.source.take w.shown ++ [frame]
  | judge =>
    r.Supplies w.source w.shown ∧
      (r.token.cancelled = true ∨ w.source.size? = some w.shown)
  | clear _ | drop _ | dropRouse _ | deafen _ => True
  | _ => r.Supplies w.source w.shown

/-- What a relay holds for its player, it holds after a change that goes on with the supply and
leaves a raised flag up. -/
theorem Phase.Fits.mono {w : Show} {r r' : Relay} {ph : Phase} (h : ph.Fits w r)
    (hsupplies : ∀ m, r.Supplies w.source m → r'.Supplies w.source m)
    (hcancelled : r.token.cancelled = true → r'.token.cancelled = true) : ph.Fits w r' := by
  cases ph with
  | write frame => exact ⟨hsupplies _ h.1, h.2⟩
  | judge => exact ⟨hsupplies _ h.1, h.2.imp_left hcancelled⟩
  | clear | drop | dropRouse | deafen => trivial
  | _ => exact hsupplies _ h

/-- Whether a player at this point has raised the flag of its token and is to leave the wake-up. -/
def Phase.rousing : Phase → Bool
  | abortRouse | dropRouse _ => true
  | _ => false

/-- A wake-up is left only where the flag is up. -/
def Token.Wary (t : Token) : Prop := t.wake = true → t.cancelled = true

namespace Scene

variable {ι : Type} {s s' : Scene ι} {i : ι} {ev : Event ι}

/-! ## Wake-ups follow flags -/

/-- Where a wake-up has been left, or is about to be, the flag is up. -/
structure Wary (s : Scene ι) : Prop where
  wake : ∀ k, (s.relays k).token.Wary
  latch : ∀ j k, s.latch = some (.caller j (.rouse k)) →
    k < s.born ∧ (s.relays k).token.cancelled = true
  desk : ∀ i w ph, s.desk = some (i, .on w ph) → ph.rousing = true →
    (s.token w).cancelled = true

/-- What holds of all tokens, and of the one that is changed afterwards, holds of all afterwards. -/
theorem forall_token_update {P : Token → Prop} {relays : Nat → Relay} {k : Nat} {r : Relay}
    (h : ∀ j, P (relays j).token) (hr : P r.token) :
    ∀ j, P (Function.update relays k r j).token := by
  intro j
  exact token_update P (fun _ => hr) (h j)

/-- A turn leaves a wake-up only where the flag is up. -/
theorem Turn.wake_cancelled {p p' : Play} (h : Turn i s p ev s' p')
    (hwake : ∀ k, (s.relays k).token.Wary)
    (hrousing : ∀ w ph, p = .on w ph → ph.rousing = true → (s.token w).cancelled = true) :
    ∀ k, (s'.relays k).token.Wary := by
  cases h with
  | @start t e =>
    apply forall_token_update hwake
    intro hfresh
    cases e <;> cases hfresh
  | abort | drop =>
    apply forall_token_update hwake
    intro _
    rfl
  | abortRouse | dropRouse =>
    -- whoever rouses has raised the flag before
    apply forall_token_update hwake
    intro _
    exact hrousing _ _ rfl rfl
  | @receive w frame | @deafen w result => exact forall_token_update hwake (hwake w.relay)
  | wake =>
    -- the wake-up is taken out of its slot
    apply forall_token_update hwake
    intro hnone
    cases hnone
  | _ => exact hwake

/-- A player is to leave a wake-up only after it has raised the flag. -/
theorem Turn.rousing {p : Play} {w : Show} {ph : Phase} (h : Turn i s p ev s' (.on w ph))
    (hph : ph.rousing = true) : (s'.token w).cancelled = true := by
  cases h with
  | abort | drop => simp [token, onToken, onRelay]
  | _ => cases hph

variable [DecidableEq ι]

theorem Wary.step (h : Wary s) (hk : Kept s) (hstep : Step s ev s') : Wary s' := by
  have hwake := h.wake
  have hlatch : ∀ j k, s.latch = some (.caller j (.rouse k)) →
      k < s'.born ∧ (s'.relays k).token.cancelled = true := by
    intro j k hl
    rcases h.latch j k hl with ⟨hborn, hcancelled⟩
    exact ⟨Nat.lt_of_lt_of_le hborn hstep.born_le, hstep.cancelled hborn hcancelled⟩
  have hdesk : ∀ i w ph, s.desk = some (i, .on w ph) → ph.rousing = true →
      (s'.token w).cancelled = true := by
    intro i w ph hd hph
    exact hstep.cancelled (hk.born i w ph hd) (h.desk i w ph hd hph)
  cases hstep with
  | grab | miss | strikeAgain =>
    -- no wake-up is due from these calls
    refine ⟨hwake, ?_, hdesk⟩
    intro j k hnone
    cases hnone
  | @strike i halt e k hd hl ha ht =>
    -- the flag goes up before the wake-up is left, and no wake-up comes with it
    refine ⟨?_, ?_, hdesk⟩
    · apply forall_token_update hwake
      intro _
      rfl
    · intro j k' hl'
      simp only [Option.some.injEq, Latch.caller.injEq, Grip.rouse.injEq] at hl'
      rcases hl' with ⟨rfl, rfl⟩
      -- the relay in the slot is that of the effect being played
      have hactive := hk.active
      rw [ha] at hactive
      cases hd' : s.desk with
      | none => simp [hd'] at hactive
      | some d =>
        rcases d with ⟨j', p⟩
        cases p with
        | on w ph =>
          simp only [hd', Option.bind_some, Play.entered] at hactive
          split at hactive
          · rcases Option.some.inj hactive with rfl
            exact ⟨hk.born j' w ph hd', by simp [onToken, onRelay]⟩
          · cases hactive
        | _ => simp [hd', Play.entered] at hactive
  | @rouse i k hl =>
    -- the call has raised the flag before
    refine ⟨?_, ?_, hdesk⟩
    · apply forall_token_update hwake
      intro _
      exact (h.latch i k hl).2
    · intro j k' hnone
      cases hnone
  | release =>
    refine ⟨hwake, ?_, hdesk⟩
    intro j k hnone
    cases hnone
  | @take i job hd hq =>
    refine ⟨hwake, hlatch, ?_⟩
    intro j w ph hd' hph
    cases job <;> cases (desk_inj hd').2
  | @turn i p _ s₁ p' hq ht =>
    -- the player leaves wake-ups as calls do: flag first
    refine ⟨?_, ?_, ?_⟩
    · apply ht.wake_cancelled hwake
      rintro w ph rfl hph
      exact h.desk i w ph hq hph
    · intro j k hl'
      exact hlatch j k (ht.latch hl')
    · intro j w ph hd' hph
      rcases desk_inj hd' with ⟨rfl, rfl⟩
      exact ht.rousing hph
  | leave =>
    refine ⟨hwake, hlatch, ?_⟩
    intro j w ph hnone
    cases hnone
  | @compose k r hc =>
    -- a composer does not touch the token
    refine ⟨?_, hlatch, hdesk⟩
    apply forall_token_update hwake
    rw [hc.token_eq]
    exact hwake k
  | _ => exact ⟨hwake, hlatch, hdesk⟩

theorem Run.wary {b : Behaviour} {g : Random.Generator} {events : List (Event ι)}
    (hrun : Run (fresh b g) events s) : Wary s := by
  induction hrun with
  | refl =>
    refine ⟨?_, ?_, ?_⟩
    · intro k hnone
      cases hnone
    · intro j k hnone
      cases hnone
    · intro i w ph hnone
      cases hnone
  | step hrun hstep ih => exact ih.step hrun.kept hstep

/-! ## Supply -/

/-- The relay of the effect that is being played fits the point where its player is. -/
def Supplied (s : Scene ι) : Prop :=
  ∀ i w ph, s.desk = some (i, .on w ph) → ph.Fits w (s.relays w.relay)

omit [DecidableEq ι] in
/-- What holds of a relay and is kept by a change at one relay holds after that change. -/
theorem relay_update (P : Relay → Prop) {relays : Nat → Relay} {k j : Nat} {r : Relay}
    (hr : P (relays k) → P r) (h : P (relays j)) : P (Function.update relays k r j) := by
  by_cases hj : j = k
  · subst hj
    simpa using hr h
  · simpa [hj] using h

omit [DecidableEq ι] in
/-- A player goes from point to point with a relay that fits. -/
theorem Turn.fits {p : Play} {w' : Show} {ph' : Phase} (h : Turn i s p ev s' (.on w' ph'))
    (hw : Wary s) (hp : ∀ w ph, p = .on w ph → ph.Fits w (s.relays w.relay)) :
    ph'.Fits w' (s'.relays w'.relay) := by
  cases h with
  | @start t e =>
    -- the relay of an effect that starts supplies all of its frames
    have hrelay := Relay.Supplies.ofEffect e s.generator.wide.1
    simpa [Phase.Fits, opened, opening, Show.source] using hrelay
  | abort ht =>
    have hsupplies : (s.relays w'.relay).Supplies w'.source w'.shown := hp _ _ rfl
    simpa [Phase.Fits, onToken, onRelay] using hsupplies.onToken fun _ => rfl
  | abortRouse =>
    have hsupplies : (s.relays w'.relay).Supplies w'.source w'.shown := hp _ _ rfl
    simpa [Phase.Fits, onToken, onRelay] using hsupplies.onToken (f := Token.rouse) id
  | lookCancelled ht =>
    -- the player stops because it has seen the flag
    have hsupplies : (s.relays w'.relay).Supplies w'.source w'.shown := hp _ _ rfl
    exact ⟨hsupplies, Or.inl ht⟩
  | @receive _ frame hs =>
    -- the frame that is received is the next one of the source
    have hsupplies : (s.relays w'.relay).Supplies w'.source w'.shown := hp _ _ rfl
    refine ⟨?_, hsupplies.take_succ hs⟩
    simpa [onRelay] using hsupplies.emptied hs
  | receiveEnd hs hc =>
    -- with an empty slot and no composer, the source has nothing left
    have hsupplies : (s.relays w'.relay).Supplies w'.source w'.shown := hp _ _ rfl
    exact ⟨hsupplies, hsupplies.size?_eq_of_over hs hc⟩
  | write hw =>
    rcases hp _ _ rfl with ⟨hsupplies, -⟩
    exact hsupplies
  | holdCancelled ht | timedOutCancelled ht =>
    have hsupplies : (s.relays w'.relay).Supplies w'.source w'.shown := hp _ _ rfl
    exact ⟨hsupplies, Or.inl ht⟩
  | wake ht =>
    -- a wake-up is left only after the flag has been raised
    have hsupplies : (s.relays w'.relay).Supplies w'.source w'.shown := hp _ _ rfl
    have hcancelled : (s.relays w'.relay).token.cancelled = true := hw.wake w'.relay ht
    refine ⟨?_, Or.inl ?_⟩
    · simpa [onToken, onRelay] using hsupplies.onToken (f := Token.settle) id
    · simpa [onToken, onRelay] using hcancelled
  | writeFails | judgeCancelled | judgeOn | lockClear | clear | drop | dropAgain | dropRouse =>
    trivial
  | _ =>
    have hsupplies : (s.relays w'.relay).Supplies w'.source w'.shown := hp _ _ rfl
    exact hsupplies

theorem Supplied.step (h : Supplied s) (hw : Wary s) (hstep : Step s ev s') : Supplied s' := by
  intro j w ph hdesk
  cases hstep with
  | strike =>
    -- a flag that is raised takes nothing from what was supplied, and it stays up
    refine relay_update (ph.Fits w) ?_ (h j w ph hdesk)
    intro hfits
    exact hfits.mono (fun m hm => hm.onToken fun _ => rfl) fun _ => rfl
  | rouse =>
    refine relay_update (ph.Fits w) ?_ (h j w ph hdesk)
    intro hfits
    exact hfits.mono (fun m hm => hm.onToken (f := Token.rouse) id) id
  | @take i job hd hq =>
    -- whoever has just got the queue has no effect yet
    cases job <;> cases (desk_inj hdesk).2
  | @turn i p _ s₁ p' hq ht =>
    rcases desk_inj hdesk with ⟨rfl, rfl⟩
    apply ht.fits hw
    intro w ph heq
    subst heq
    exact h i w ph hq
  | leave hq => cases hdesk
  | compose hc =>
    -- what a composer does keeps the frames in order
    refine relay_update (ph.Fits w) ?_ (h j w ph hdesk)
    intro hfits
    apply hfits.mono (fun m hm => hm.compose hc)
    rw [hc.token_eq]
    exact id
  | _ => exact h j w ph hdesk

/-- In every run the relay of the effect that is being played fits. -/
theorem Run.supplied {b : Behaviour} {g : Random.Generator} {events : List (Event ι)}
    (hrun : Run (fresh b g) events s) : Supplied s := by
  induction hrun with
  | refl =>
    intro i w ph hnone
    cases hnone
  | step hrun hstep ih => exact ih.step hrun.wary hstep

end Scene

end Beacon
