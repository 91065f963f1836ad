import Beacon.Proofs.Scene.Blocks
import Beacon.Proofs.Scene.Timing

/-!
# Keeping pace, whatever happens

A frame that was written stays for its delay: unless its effect is cut short, no line is begun, by
anyone, before that has passed, and its effect is not over before. Where the time has passed already
when the frame comes to be held, it is not held at all (`Timed.Run.paced`).

1. **Effects that are cut short**: what a player that has found its flag up comes to report
   (`CutShort`).
2. **Held frames**: `Holds` says what a player knows of the time of its frame from one reading of
   the clock to the next.
3. **Kept delays**: what has become of a frame that was written is one of four things (`Owed`), and
   every step keeps this.
-/

namespace Beacon

/-- Once it is settled what will be reported, no line is written any more. -/
theorem Play.writes_of_report? {p : Play} {report : Report} (h : p.report? = some report) :
    p.writes = false := by
  cases p with
  | on w ph =>
    cases ph with
    | write => cases h
    | _ => rfl
  | black => cases h
  | _ => rfl

namespace Scene

variable {ι : Type} {s s' : Scene ι} {i : ι} {ev : Event ι} {k : Nat}

/-! ## Effects that are cut short -/

/-- The thread `i` has the queue, and the effect with the relay `k`, which it plays, is cut short:
its flag is up when it is looked at for the last time, or has been found up. -/
def CutShort (i : ι) (k : Nat) (s : Scene ι) : Prop :=
  ∃ p v, s.desk = some (i, p) ∧ v.relay = k ∧
    (p = .on v .judge ∧ (s.token v).cancelled = true ∨
      ∃ n, p.report? = some (.played v (.ok (.interrupted n))))

/-- What will be reported stays the same once it is settled. -/
theorem Turn.report?_eq {p p' : Play} (h : Turn i s p ev s' p') {report : Report}
    (hreport : p.report? = some report) : p'.report? = some report := by
  cases h with
  | lockClear | clear | drop | dropAgain | dropRouse | deafen => exact hreport
  | _ => cases hreport

/-- A player whose flag is up at the last look reports that it was interrupted. -/
theorem Turn.report?_of_judge {v : Show} {p' : Play} (h : Turn i s (.on v .judge) ev s' p')
    (hc : (s.token v).cancelled = true) :
    p'.report? = some (.played v (.ok (.interrupted v.shown))) := by
  cases h with
  | judgeCancelled => rfl
  | judgeOn ht => cases ht.symm.trans hc

/-- A player that goes from holding a frame to its last look has its flag up. -/
theorem Turn.cancelled_of_judge {w v : Show} {ph : Phase}
    (h : Turn i s (.on w ph) ev s' (.on v .judge)) (hw : Wary s)
    (hph : (Play.on w ph).holds = true) :
    v = w ∧ (s.token w).cancelled = true ∧ (s'.token w).cancelled = true := by
  cases h with
  | holdCancelled ht => exact ⟨rfl, ht, ht⟩
  | wake ht =>
    have hc : (s.token w).cancelled = true := hw.wake w.relay ht
    exact ⟨rfl, hc, by simpa [token, onToken, onRelay] using hc⟩
  | lookCancelled | receiveEnd | timedOutCancelled => cases hph

variable [DecidableEq ι]

/-- An effect that is cut short stays so until this is reported. -/
theorem CutShort.step (h : CutShort i k s) (hk : Kept s) (hstep : Step s ev s') :
    CutShort i k s' ∨ ∃ v n, v.relay = k ∧ ev = .left i (.played v (.ok (.interrupted n))) := by
  rcases h with ⟨p, v, hdesk, rfl, hcut⟩
  -- others cannot take the flag down
  have hstays : s'.desk = s.desk → CutShort i v.relay s' := by
    intro hsame
    refine ⟨p, v, hsame.trans hdesk, rfl, hcut.imp_left ?_⟩
    rintro ⟨rfl, hc⟩
    exact ⟨rfl, hstep.cancelled (hk.born i v _ hdesk) hc⟩
  cases hstep with
  | take hd hq => cases hq.symm.trans hdesk
  | @turn j q _ s₁ p' hq ht =>
    rcases desk_inj (hq.symm.trans hdesk) with ⟨rfl, rfl⟩
    refine .inl ⟨p', v, rfl, rfl, .inr ?_⟩
    rcases hcut with ⟨rfl, hc⟩ | ⟨n, hreport⟩
    · exact ⟨_, ht.report?_of_judge hc⟩
    · exact ⟨n, ht.report?_eq hreport⟩
  | leave hq =>
    rcases desk_inj (hq.symm.trans hdesk) with ⟨rfl, rfl⟩
    rcases hcut with ⟨hnone, -⟩ | ⟨n, hreport⟩
    · cases hnone
    · rcases Option.some.inj hreport with rfl
      exact .inr ⟨v, n, rfl, rfl⟩
  | _ => exact .inl (hstays rfl)

/-- A player that goes from holding a frame to its last look has its flag up. -/
theorem Step.cancelled_of_judge {w : Show} {ph : Phase} (hstep : Step s ev s') (hw : Wary s)
    (hd : s.desk = some (i, .on w ph)) (hph : (Play.on w ph).holds = true)
    (hd' : s'.desk = some (i, .on w .judge)) :
    (s.token w).cancelled = true ∧ (s'.token w).cancelled = true := by
  cases hstep with
  | take _ hq => cases hq.symm.trans hd
  | turn hq ht =>
    rcases desk_inj (hq.symm.trans hd) with ⟨rfl, rfl⟩
    rcases desk_inj hd' with ⟨-, rfl⟩
    exact (ht.cancelled_of_judge hw hph).2
  | leave => cases hd'
  | _ =>
    cases (desk_inj (hd.symm.trans hd')).2
    cases hph

end Scene

namespace Timed

variable {ι : Type} {t t' : Timed ι} {i : ι} {ev : Event ι} {events before after : List (Event ι)}
variable {v w : Show} {ph : Phase} {delay : Duration} {watch watch' : Watch}
variable {written now now' : Nat}

/-! ## Held frames -/

/-- What a player that holds a frame knows about the time when the clock shows `now`, the frame
having this delay and having been written when the clock showed `written`. No reading of the clock
makes the frame older than it is, and no sleep ends before its delay does. -/
def Holds (delay : Duration) (written now : Nat) : Phase → Watch → Prop
  | .hold d, .written => d = delay ∧ written ≤ now
  | .hold d, .stamped time => d = delay ∧ written ≤ time ∧ time ≤ now
  | .hold d, .aged age => d = delay ∧ written + age.nanos ≤ now
  | .sleep, .asleep due => written + delay.nanos ≤ due
  | _, _ => False

theorem not_holds_idle : ¬ Holds delay written now ph .idle := by
  cases ph <;> exact id

theorem not_holds_begun : ¬ Holds delay written now ph .begun := by
  cases ph <;> exact id

/-- A frame does not get younger. -/
theorem Holds.mono (h : Holds delay written now ph watch) (hnow : now ≤ now') :
    Holds delay written now' ph watch := by
  cases ph with
  | hold d =>
    cases watch with
    | written | aged => exact ⟨h.1, Nat.le_trans h.2 hnow⟩
    | stamped => exact ⟨h.1, h.2.1, Nat.le_trans h.2.2 hnow⟩
    | _ => exact h
  | _ => cases watch <;> exact h

/-- The time of a frame is read after it was written. -/
theorem Holds.stamp (h : Holds delay written now ph .written) :
    Holds delay written now ph (.stamped now) := by
  cases ph with
  | hold d => exact ⟨h.1, h.2, Nat.le_refl now⟩
  | _ => exact h

/-- A frame is at least as old as its two readings say. -/
theorem Holds.measure {time : Nat} (h : Holds delay written now ph (.stamped time)) :
    Holds delay written now ph (.aged ⟨now - time⟩) := by
  cases ph with
  | hold d =>
    rcases h with ⟨hd, hwritten, htime⟩
    refine ⟨hd, ?_⟩
    show written + (now - time) ≤ now
    omega
  | _ => exact h

/-- What is left of a delay is slept out. -/
theorem Holds.sleep {d age : Duration} (h : Holds delay written now (.hold d) (.aged age)) :
    Holds delay written now .sleep (.asleep (now + (Pace.remaining d age).nanos)) := by
  rcases h with ⟨rfl, hage⟩
  show written + d.nanos ≤ now + (d.nanos - age.nanos)
  omega

/-- Whatever happens, a player goes on with its frame, or its delay is over, or the player goes to
its last look. -/
theorem Holds.paces {d d' : Option (ι × Play)} (h : Holds delay written now ph watch)
    (hp : Paces now d watch d' watch') (hd : d = some (i, .on v ph)) :
    d' = d ∧ watch' = watch ∨ written + delay.nanos ≤ now ∨
      d' = some (i, .on v .judge) ∧ (Play.on v ph).holds = true := by
  cases hp with
  | other => exact .inl ⟨rfl, rfl⟩
  | untimed => exact absurd h not_holds_idle
  | fails | darkens => exact absurd h not_holds_begun
  | cancelled | woken =>
    cases hd
    exact .inr (.inr ⟨rfl, rfl⟩)
  | lapsed hr =>
    cases hd
    rcases h with ⟨rfl, hage⟩
    have hover := Nat.le_of_sub_eq_zero hr
    exact .inr (.inl (Nat.le_trans (Nat.add_le_add_left hover written) hage))
  | timesOut hdue =>
    cases hd
    exact .inr (.inl (Nat.le_trans h hdue))

/-! ## Kept delays -/

open Scene (CutShort Halted Kept Wary Caused)

/-- What has become of a frame that the thread `i` wrote for the effect `w`, with this delay and
when the clock showed `written`, `after` being what has happened since: its delay is over, or it is
still held, or a call has cut the effect short, and this is still to be reported or has been. -/
inductive Owed (i : ι) (w : Show) (delay : Duration) (written : Nat)
    (events after : List (Event ι)) (t : Timed ι) : Prop
  | due (h : written + delay.nanos ≤ t.now)
  | held {v : Show} {ph : Phase} (hd : t.scene.desk = some (i, .on v ph))
      (hrelay : v.relay = w.relay) (hticket : v.ticket = w.ticket)
      (hh : Holds delay written t.now ph t.watch)
  | cut (hhalted : Halted i w.ticket w.relay (untimed events)) (hcut : CutShort i w.relay t.scene)
  | reported {v : Show} {n time : Nat} (hhalted : Halted i w.ticket w.relay (untimed events))
      (hrelay : v.relay = w.relay)
      (hleft : .did (.left i (.played v (.ok (.interrupted n)))) time ∈ after)

variable [DecidableEq ι]

theorem Owed.step (h : Owed i w delay written events after t) (hk : Kept t.scene)
    (hw : Wary t.scene) (hc : Caused (untimed events) t.scene) (hstep : Step t ev t') :
    Owed i w delay written (events ++ [ev]) (after ++ [ev]) t' := by
  have hhalts : Halted i w.ticket w.relay (untimed events) →
      Halted i w.ticket w.relay (untimed (events ++ [ev])) := by
    intro hhalted
    rw [untimed_append]
    exact hhalted.append _
  cases h with
  -- a delay that is over stays so
  | due h => exact .due (Nat.le_trans h hstep.now_le)
  | cut hhalted hcut =>
    -- the player has seen the flag: it ends its effect, and then it reports that
    rcases hstep.scene with ⟨-, hsame⟩ | ⟨e, he, hs⟩
    · exact .cut (hhalts hhalted) (hsame ▸ hcut)
    · rcases hcut.step hk hs with hcut' | ⟨v, n, hrelay, rfl⟩
      · exact .cut (hhalts hhalted) hcut'
      · cases hstep with
        | act =>
          rcases Option.some.inj he with rfl
          exact .reported (hhalts hhalted) hrelay
            (List.mem_append_right after (List.mem_singleton_self _))
        | _ => cases he
  | reported hhalted hrelay hleft =>
    exact .reported (hhalts hhalted) hrelay (List.mem_append_left _ hleft)
  | @held v ph hd hrelay hticket hh =>
    cases hstep with
    -- while the frame is held, each reading of the clock brings the player closer to sleep
    | pass hnow => exact .held hd hrelay hticket (hh.mono hnow)
    | start hidle => exact absurd (hidle ▸ hh) not_holds_idle
    | write hbegun => exact absurd (hbegun ▸ hh) not_holds_begun
    | stamp hwritten => exact .held hd hrelay hticket (Holds.stamp (hwritten ▸ hh))
    | measure hstamped => exact .held hd hrelay hticket (Holds.measure (hstamped ▸ hh))
    | sleep haged hq hs hd' hr =>
      cases (Scene.desk_inj (hq.symm.trans hd)).1
      cases (Scene.desk_inj (hq.symm.trans hd)).2
      exact .held hd' hrelay hticket (Holds.sleep (haged ▸ hh))
    | @act _ s' watch' hs hp =>
      -- the player holds on, or the frame is due, or the flag was seen up
      rcases hh.paces hp hd with ⟨hdesk, hwatch⟩ | hdue | ⟨hjudge, hholds⟩
      · exact .held (hdesk.trans hd) hrelay hticket (hwatch ▸ hh)
      · exact .due hdue
      · rcases hs.cancelled_of_judge hw hd hholds hjudge with ⟨hup, hup'⟩
        have hover : ph.over = false := by
          cases ph with
          | hold | sleep => rfl
          | _ => cases hholds
        have hhalted := hc i v ph hd hover hup
        rw [hticket, hrelay] at hhalted
        exact .cut (hhalts hhalted) ⟨_, v, hjudge, hrelay, .inl ⟨rfl, hup'⟩⟩

variable {b : Behaviour} {g : Random.Generator} {start time : Nat} {frame : Frame}

/-- In every run, one of the four has become of each frame that was written. -/
theorem Run.owed (hrun : Run (fresh b g start) (before ++ .wrote i w frame time :: after) t) :
    Owed i w frame.delay time (before ++ .wrote i w frame time :: after) after t := by
  rcases hrun.split_at with ⟨t₁, t₂, hbefore, hwrote, hafter⟩
  clear hrun
  induction hafter with
  | refl =>
    cases hwrote with
    | write hw hd hs hd' => exact .held hd' rfl rfl ⟨rfl, Nat.le_refl _⟩
  | @step after t₃ ev t₄ hafter hstep ih =>
    have hscene : Scene.Run (Scene.fresh b g) _ _ := Run.scene (hbefore.join_at hwrote hafter)
    have howed := ih.step hscene.kept hscene.wary hscene.caused hstep
    rwa [List.append_assoc, List.cons_append] at howed

/-- The frame that the thread `i` wrote for the effect `w` stays for its delay, unless the effect is
reported as interrupted, which then a call has brought about: before, no line is begun, it is not
settled how the effect ends, and its push does not return. Here `before` and `after` are what
happened before the frame was written and since, and `t` is how things stand. -/
structure Stays (i : ι) (w : Show) (frame : Frame) (time : Nat) (before after : List (Event ι))
    (t : Timed ι) : Prop where
  line : ∀ during j time' later, after = during ++ .began j time' :: later →
    time + frame.delay.nanos ≤ time' ∨
      Halted i w.ticket w.relay (untimed (before ++ .wrote i w frame time :: during)) ∧
        ∃ v n time'', v.relay = w.relay ∧
          .did (.left i (.played v (.ok (.interrupted n)))) time'' ∈ during
  settled : ∀ p report, t.scene.desk = some (i, p) → p.report? = some report →
    (∀ other time', .did (.left i other) time' ∉ after) →
    time + frame.delay.nanos ≤ t.now ∨
      Halted i w.ticket w.relay (untimed (before ++ .wrote i w frame time :: after)) ∧
        ∃ v n, v.relay = w.relay ∧ report = .played v (.ok (.interrupted n))
  returned : ∀ during report time' later, after = during ++ .did (.left i report) time' :: later →
    (∀ other time'', .did (.left i other) time'' ∉ during) →
    time + frame.delay.nanos ≤ time' ∨
      Halted i w.ticket w.relay (untimed (before ++ .wrote i w frame time :: during)) ∧
        ∃ v n, v.relay = w.relay ∧ report = .played v (.ok (.interrupted n))

/-- No line is begun while a frame is held, nor by a thread whose effect is cut short. -/
theorem Owed.began {j : ι} {time' : Nat} (h : Owed i w delay written events after t)
    (hstep : Step t (.began j time') t') : written + delay.nanos ≤ time' ∨
      Halted i w.ticket w.relay (untimed events) ∧ ∃ v n time'', v.relay = w.relay ∧
        .did (.left i (.played v (.ok (.interrupted n)))) time'' ∈ after := by
  cases hstep with
  | start hidle hq hwrites =>
    cases h with
    | due h => exact .inl h
    | held hd _ _ hh => exact absurd (hidle ▸ hh) not_holds_idle
    | cut hhalted hcut =>
      rcases hcut with ⟨p, v, hd, -, hcut⟩
      cases (Scene.desk_inj (hq.symm.trans hd)).2
      rcases hcut with ⟨rfl, -⟩ | ⟨n, hreport⟩
      · cases hwrites
      · cases hwrites.symm.trans (Play.writes_of_report? hreport)
    | reported hhalted hrelay hleft => exact .inr ⟨hhalted, _, _, _, hrelay, hleft⟩

omit [DecidableEq ι] in
/-- While a frame is held it is not settled how its effect ends. -/
theorem Owed.settled {p : Play} {report : Report} (h : Owed i w delay written events after t)
    (hd : t.scene.desk = some (i, p)) (hreport : p.report? = some report)
    (hstays : ∀ other time', .did (.left i other) time' ∉ after) : written + delay.nanos ≤ t.now ∨
      Halted i w.ticket w.relay (untimed events) ∧
        ∃ v n, v.relay = w.relay ∧ report = .played v (.ok (.interrupted n)) := by
  cases h with
  | due h => exact .inl h
  | @held v ph hq _ _ hh =>
    cases (Scene.desk_inj (hq.symm.trans hd)).2
    cases ph with
    | clear | drop | dropRouse | deafen => exact hh.elim
    | _ => cases hreport
  | cut hhalted hcut =>
    rcases hcut with ⟨q, v, hq, hrelay, hcut⟩
    cases (Scene.desk_inj (hq.symm.trans hd)).2
    rcases hcut with ⟨rfl, -⟩ | ⟨n, hinterrupted⟩
    · cases hreport
    · cases hreport.symm.trans hinterrupted
      exact .inr ⟨hhalted, v, n, hrelay, rfl⟩
  | reported _ _ hleft => exact absurd hleft (hstays _ _)

theorem Run.stays (hrun : Run (fresh b g start) (before ++ .wrote i w frame time :: after) t) :
    Stays i w frame time before after t where
  line := by
    rintro during j time' later rfl
    rw [← List.cons_append, ← List.append_assoc] at hrun
    rcases hrun.split_at with ⟨t₁, t₂, hduring, hbegan, -⟩
    exact (Run.owed hduring).began hbegan
  settled p report hd hreport hstays := (Run.owed hrun).settled hd hreport hstays
  returned := by
    rintro during report time' later rfl hstays
    rw [← List.cons_append, ← List.append_assoc] at hrun
    rcases hrun.split_at with ⟨t₁, t₂, hduring, hleft, -⟩
    cases hleft with
    | act hs hp =>
      cases hs with
      | turn _ ht => cases ht
      | leave hq => exact (Run.owed hduring).settled hq rfl hstays

/-- Frames are never closer than their delay. Whatever the clock shows, and however long anything
takes, each frame that was written stays for its delay, counted from when it had been written, for
lines of the same effect and for those of any other, unless a call cuts its effect short. A frame
that is as old as its delay already when it comes to be held is not waited for: no sleep is begun
for it, and its player looks for the next one without any time having to pass. -/
theorem Run.paced (hrun : Run (fresh b g start) events t) :
    (∀ before i w frame time after, events = before ++ .wrote i w frame time :: after →
      Stays i w frame time before after t) ∧
    (∀ i w delay age time, .slept i w delay age time ∈ events → age.nanos < delay.nanos) ∧
    ∀ i w delay age, t.scene.desk = some (i, .on w (.hold delay)) → t.watch = .aged age →
      delay.nanos ≤ age.nanos → (t.scene.token w).cancelled = false → Step t (.did .quiet t.now)
        ⟨{ t.scene with desk := some (i, .on w .look) }, t.now, .idle⟩ := by
  refine ⟨?_, ?_, ?_⟩
  · rintro before i w frame time after rfl
    exact Run.stays hrun
  · intro i w delay age time hslept
    rcases List.append_of_mem hslept with ⟨before, after, rfl⟩
    rcases hrun.split_at with ⟨t₁, t₂, -, hsleep, -⟩
    cases hsleep with
    | sleep _ _ _ _ hr => exact Nat.lt_of_sub_ne_zero hr
  · intro i w delay age hd haged hold hgoes
    have hr : (Pace.remaining delay age).nanos = 0 := Nat.sub_eq_zero_of_le hold
    refine .act (.turn hd (.holdOver age hgoes hr)) ?_
    rw [hd, haged]
    exact .lapsed hr

/-- No frame has to stay longer than for its delay: however old it is when it comes to be held, its
player may go on as soon as the delay is over. -/
theorem run_of_hold {s : Scene ι} {read : Nat} (hd : s.desk = some (i, .on w (.hold delay)))
    (hgoes : (s.token w).cancelled = false) (hread : now ≤ read)
    (hyoung : read < now + delay.nanos) :
    Run ⟨s, now, .written⟩
      [.passed, .passed, .passed, .slept i w delay ⟨read - now⟩ read, .passed,
        .did .quiet (now + delay.nanos)]
      ⟨{ s with desk := some (i, .on w .timedOut) }, now + delay.nanos, .idle⟩ := by
  let asleep : Scene ι := { s with desk := some (i, .on w .sleep) }
  have hr : (Pace.remaining delay ⟨read - now⟩).nanos ≠ 0 := by
    simp only [Pace.remaining]
    omega
  have hdue : read + (Pace.remaining delay ⟨read - now⟩).nanos ≤ now + delay.nanos := by
    simp only [Pace.remaining]
    omega
  have hmeasured : Run ⟨s, now, .written⟩ [.passed, .passed, .passed]
      ⟨s, read, .aged ⟨read - now⟩⟩ :=
    ((Trace.refl.step (.stamp rfl)).step (.pass hread)).step (.measure rfl)
  have hslept : Step ⟨s, read, .aged ⟨read - now⟩⟩ (.slept i w delay ⟨read - now⟩ read)
      ⟨asleep, read, .asleep (read + (Pace.remaining delay ⟨read - now⟩).nanos)⟩ :=
    .sleep rfl hd (.turn hd (.holdOn _ hgoes hr)) rfl hr
  have hover : Scene.Step asleep .quiet { asleep with desk := some (i, .on w .timedOut) } :=
    .turn rfl .timeout
  exact ((hmeasured.step hslept).step (.pass (Nat.le_of_lt hyoung))).step
    (.act hover (.timesOut hdue))

/-- A flash of two frames that both stay for 1000 ns. The first has been written when the clock
shows 7 and is 3 ns old when it comes to be held, so that 997 ns are slept; and the second line is
begun as soon as it may be. -/
theorem Run.paced_flash :
    ∃ (before during : List (Event Nat)) (w : Show) (t : Timed Nat),
    Run (fresh (Behaviour.ofTables none [] []) (Random.Generator.ofSeed 0) 0)
      (before ++ .wrote 0 w ⟨Color.black, ⟨1000⟩⟩ 7 :: (during ++ [.began 0 1007])) t ∧
    .slept 0 { w with shown := 1 } ⟨1000⟩ ⟨3⟩ 10 ∈ during ∧
    Stays 0 w ⟨Color.black, ⟨1000⟩⟩ 7 before (during ++ [.began 0 1007]) t := by
  let b := Behaviour.ofTables none [] []
  let g := Random.Generator.ofSeed 0
  let flash := Effect.flash ⟨⟨1000⟩, Color.black, 1⟩
  have hb : b.Faultless := Behaviour.faultless_ofTables (by simp)
  have hreceived := Scene.Run.of_perform (s := Scene.fresh b g)
    (.request 0 (.push flash) :: Scene.Move.steps 0 10 ++ [.compose 0, .compose 0] ++
      Scene.Move.steps 0 1)
    [.quiet, .took 0 (.push flash), .quiet, .quiet, .quiet, .quiet, .quiet, .quiet, .quiet, .quiet,
      .quiet, .quiet, .quiet, .quiet] rfl
  have hok := Sink.writeFrame_faultless (hreceived.taken hb).1 Color.black
  -- up to the first line no time passes; writing it takes from 3 to 7
  have hquiet : Run (fresh b g 0) _ _ :=
    (of_calm ⟨hreceived, by simp [Scene.Event.line?]⟩ fun _ _ hnone => by cases hnone).1
  have hbegun := ((hquiet.step (.pass (Nat.zero_le 3))).step (.start rfl rfl rfl)).step
    (.pass (show 3 ≤ 7 by decide))
  -- the frame is held until 1007, and then the second one is received and its line begun
  have hrun := hbegun.join_at (.write rfl rfl (.turn rfl (.write hok)) rfl)
    (Trace.step (Trace.append (run_of_hold rfl rfl (show 7 ≤ 10 by decide) (by decide))
      (of_calm ⟨Scene.Run.of_perform
        (Scene.Move.steps 0 2 ++ [.compose 0, .compose 0] ++ Scene.Move.steps 0 1)
        [.quiet, .quiet, .quiet, .quiet, .quiet] rfl, by simp [Scene.Event.line?]⟩
        fun _ _ hdesk => by cases hdesk; rfl).1) (.start rfl rfl rfl))
  exact ⟨_, _, _, _, hrun, List.mem_append_left _ (.tail _ (.tail _ (.tail _ (.head _)))),
    (paced hrun).1 _ _ _ _ _ _ rfl⟩

end Timed

end Beacon
