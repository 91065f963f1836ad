import Beacon.Proofs.Scene.Upkeep

/-!
# Scenes that run

The steps of a scene as functions. A `Move` says who goes on; what that one then does follows from
where it is, but for three choices: what a thread that is idle begins, how much of a delay has
passed when the player comes to hold a frame, and whether a sleep ends by its time-out.

The functions do exactly what the relations say: `Step.exists_move`, `Step.of_advance`. So a run can
be found by carrying out a list of moves (`Run.of_perform`), and every run is found that way
(`Run.exists_perform`).
-/

namespace Beacon

/-! ## Composers -/

/-- What the composer does next, if it can do anything. -/
def Relay.composeNext (r : Relay) : Option Relay :=
  match r.composer with
  | .asking source =>
    match source.next with
    | none => some { r with composer := .gone }
    | some (frame, rest) =>
      some { r with composer := if r.token.cancelled then .gone else .sending frame rest }
  | .sending frame rest =>
    match r.heard, r.slot with
    | false, _ => some { r with composer := .gone }
    | true, none => some { r with slot := some frame, composer := .asking rest }
    | true, some _ => none
  | .gone => none

theorem Relay.compose_iff {r r' : Relay} : Relay.Compose r r' ↔ r.composeNext = some r' := by
  constructor
  · intro h
    cases h with
    | ended hc hn => simp [composeNext, hc, hn]
    | stopped hc hn ht => simp [composeNext, hc, hn, ht]
    | offer hc hn ht => simp [composeNext, hc, hn, ht]
    | send hc hs hh => simp [composeNext, hc, hs, hh]
    | unheard hc hh => simp [composeNext, hc, hh]
  · intro h
    cases hc : r.composer with
    | asking source =>
      -- a composer that asks is done, finds the flag up, or has a frame to offer
      cases hn : source.next with
      | none =>
        simp only [composeNext, hc, hn, Option.some.injEq] at h
        exact h ▸ .ended hc hn
      | some next =>
        rcases next with ⟨frame, rest⟩
        simp only [composeNext, hc, hn, Option.some.injEq] at h
        cases ht : r.token.cancelled with
        | true =>
          rw [ht, if_pos rfl] at h
          exact h ▸ .stopped hc hn ht
        | false =>
          rw [ht, if_neg Bool.false_ne_true] at h
          exact h ▸ .offer hc hn ht
    | sending frame rest =>
      -- a frame is dropped if nobody listens, and else it waits for room
      cases hh : r.heard with
      | false =>
        simp only [composeNext, hc, hh, Option.some.injEq] at h
        have hstep := Compose.unheard hc hh
        rw [hh] at hstep
        exact h ▸ hstep
      | true =>
        cases hs : r.slot with
        | none =>
          simp only [composeNext, hc, hh, hs, Option.some.injEq] at h
          have hstep := Compose.send hc hs hh
          rw [hh] at hstep
          exact h ▸ hstep
        | some _ => simp [composeNext, hc, hh, hs] at h
    | gone => simp [composeNext, hc] at h

namespace Scene

variable {ι : Type} {s s' : Scene ι} {i : ι} {ev : Event ι} {w : Show} {ph : Phase} {p p' : Play}

/-! ## The one who has the queue -/

/-- What the player of a started effect does next. -/
def playOn (i : ι) (age : Duration) (late : Bool) (s : Scene ι) (w : Show) :
    Phase → Option (Event ι × Scene ι × Play)
  | .enroll =>
    match s.latch with
    | none => some (.quiet, { s with latch := some .player }, .on w .enroll)
    | some .player =>
      some (.quiet, { s with active := some w.relay, latch := none }, .on w .recheckClosed)
    | some (.caller _ _) => none
  | .recheckClosed => some (.quiet, s, .on w (if s.closed then .abort else .recheckEpoch))
  | .recheckEpoch =>
    some (.quiet, s, .on w (if s.epoch = w.ticket.epoch then .look else .abort))
  | .abort =>
    if (s.token w).cancelled then some (.quiet, s, .on w .look)
    else some (.aborted i w.ticket w.relay, s.onToken w.relay Token.raise, .on w .abortRouse)
  | .abortRouse => some (.quiet, s.onToken w.relay Token.rouse, .on w .look)
  | .look => some (.quiet, s, .on w (if (s.token w).cancelled then .judge else .receive))
  | .receive =>
    match (s.relays w.relay).slot, (s.relays w.relay).composer with
    | some frame, _ => some (.quiet, s.onRelay w.relay Relay.emptied, .on w (.write frame))
    | none, .gone => some (.quiet, s, .on w .judge)
    | none, _ => none
  | .write frame =>
    let (result, sink) := s.sink.writeFrame frame.color
    some (.wrote i w.ticket frame.color, { s with sink },
      match result with
      | .ok () => .on { w with shown := w.shown + 1 } (.hold frame.delay)
      | .error e => .on w (.clear (.error e)))
  | .hold delay =>
    some (.quiet, s, .on w (if (s.token w).cancelled then .judge
      else if (Pace.remaining delay age).nanos = 0 then .look else .sleep))
  | .sleep =>
    if late then some (.quiet, s, .on w .timedOut)
    else if (s.token w).wake then some (.quiet, s.onToken w.relay Token.settle, .on w .judge)
    else none
  | .timedOut => some (.quiet, s, .on w (if (s.token w).cancelled then .judge else .look))
  | .judge =>
    some (.judged i w.relay (s.token w).cancelled, s,
      .on w (.clear (.ok (if (s.token w).cancelled then .interrupted w.shown
        else .completed w.shown))))
  | .clear result =>
    match s.latch with
    | none => some (.quiet, { s with latch := some .player }, .on w (.clear result))
    | some .player => some (.quiet, { s with active := none, latch := none }, .on w (.drop result))
    | some (.caller _ _) => none
  | .drop result =>
    if (s.token w).cancelled then some (.quiet, s, .on w (.deafen result))
    else some (.quiet, s.onToken w.relay Token.raise, .on w (.dropRouse result))
  | .dropRouse result => some (.quiet, s.onToken w.relay Token.rouse, .on w (.deafen result))
  | .deafen result =>
    some (.quiet, s.onRelay w.relay Relay.deafened, .done (.played w result))

/-- What the one who has the queue does next, short of leaving. -/
def playNext (i : ι) (age : Duration) (late : Bool) (s : Scene ι) :
    Play → Option (Event ι × Scene ι × Play)
  | .ask e => some (.quiet, s, .checkClosed ⟨s.epoch⟩ e)
  | .checkClosed t e =>
    some (.quiet, s, if s.closed then .done (.skipped t e) else .checkEpoch t e)
  | .checkEpoch t e =>
    some (.quiet, s, if s.epoch = t.epoch then .start t e else .done (.skipped t e))
  | .start t e => some (.quiet, s.opened e, .on (s.opening t e) .enroll)
  | .on w ph => s.playOn i age late w ph
  | .black =>
    let (result, sink) := s.sink.writeFrame Color.black
    some (.blackened i, { s with sink }, .done (.turnedOff result))
  | .done _ => none

/-- Every turn is what the function says, for some choice of its times. -/
theorem Turn.exists_playNext (h : Turn i s p ev s' p') :
    ∃ age late, s.playNext i age late p = some (ev, s', p') := by
  cases h with
  | holdOver age ht hr => exact ⟨age, false, by simp [playNext, playOn, ht, hr]⟩
  | holdOn age ht hr => exact ⟨age, false, by simp [playNext, playOn, ht, hr]⟩
  | timeout => exact ⟨Duration.zero, true, rfl⟩
  | write hw | writeFails hw | black hw | blackFails hw =>
    refine ⟨Duration.zero, false, ?_⟩
    simp [playNext, playOn, hw]
  | _ => exact ⟨Duration.zero, false, by simp [playNext, playOn, *]⟩

/-- What the function says is a turn. -/
theorem Turn.of_playOn {age : Duration} {late : Bool}
    (h : s.playOn i age late w ph = some (ev, s', p')) : Turn i s (.on w ph) ev s' p' := by
  cases ph with
  | enroll =>
    -- entering the token takes two turns: getting the lock, and then writing into the slot
    cases hl : s.latch with
    | none =>
      simp only [playOn, hl, Option.some.injEq, Prod.mk.injEq] at h
      rcases h with ⟨rfl, rfl, rfl⟩
      exact .lockEnroll hl
    | some latch =>
      cases latch with
      | player =>
        simp only [playOn, hl, Option.some.injEq, Prod.mk.injEq] at h
        rcases h with ⟨rfl, rfl, rfl⟩
        exact .enroll hl
      | caller => simp [playOn, hl] at h
  | recheckClosed =>
    simp only [playOn, Option.some.injEq, Prod.mk.injEq] at h
    rcases h with ⟨rfl, rfl, rfl⟩
    cases hc : s.closed with
    | true => exact .staleClosed hc
    | false => exact .freshClosed hc
  | recheckEpoch =>
    simp only [playOn, Option.some.injEq, Prod.mk.injEq] at h
    rcases h with ⟨rfl, rfl, rfl⟩
    by_cases he : s.epoch = w.ticket.epoch
    · rw [if_pos he]
      exact .freshEpoch he
    · rw [if_neg he]
      exact .staleEpoch he
  | abort =>
    cases ht : (s.token w).cancelled with
    | true =>
      simp only [playOn, ht, if_true, Option.some.injEq, Prod.mk.injEq] at h
      rcases h with ⟨rfl, rfl, rfl⟩
      exact .abortAgain ht
    | false =>
      simp only [playOn, ht, Bool.false_eq_true, if_false, Option.some.injEq, Prod.mk.injEq] at h
      rcases h with ⟨rfl, rfl, rfl⟩
      exact .abort ht
  | abortRouse =>
    simp only [playOn, Option.some.injEq, Prod.mk.injEq] at h
    rcases h with ⟨rfl, rfl, rfl⟩
    exact .abortRouse
  | look =>
    simp only [playOn, Option.some.injEq, Prod.mk.injEq] at h
    rcases h with ⟨rfl, rfl, rfl⟩
    cases ht : (s.token w).cancelled with
    | true => exact .lookCancelled ht
    | false => exact .lookOn ht
  | receive =>
    -- with an empty slot and a composer that is still there, the player can only wait
    cases hs : (s.relays w.relay).slot with
    | some frame =>
      simp only [playOn, hs, Option.some.injEq, Prod.mk.injEq] at h
      rcases h with ⟨rfl, rfl, rfl⟩
      exact .receive hs
    | none =>
      cases hc : (s.relays w.relay).composer with
      | gone =>
        simp only [playOn, hs, hc, Option.some.injEq, Prod.mk.injEq] at h
        rcases h with ⟨rfl, rfl, rfl⟩
        exact .receiveEnd hs hc
      | _ => simp [playOn, hs, hc] at h
  | write frame =>
    simp only [playOn, Option.some.injEq, Prod.mk.injEq] at h
    rcases h with ⟨rfl, rfl, rfl⟩
    cases hw : (s.sink.writeFrame frame.color).1 with
    | ok => exact .write hw
    | error e => exact .writeFails hw
  | hold delay =>
    -- the age of the frame is given with the move, so it settles which turn this is
    simp only [playOn, Option.some.injEq, Prod.mk.injEq] at h
    rcases h with ⟨rfl, rfl, rfl⟩
    cases ht : (s.token w).cancelled with
    | true => exact .holdCancelled ht
    | false =>
      rw [if_neg Bool.false_ne_true]
      by_cases hr : (Pace.remaining delay age).nanos = 0
      · rw [if_pos hr]
        exact .holdOver age ht hr
      · rw [if_neg hr]
        exact .holdOn age ht hr
  | sleep =>
    -- a sleep ends late, or by a wake-up; otherwise it goes on
    cases late with
    | true =>
      simp only [playOn, if_true, Option.some.injEq, Prod.mk.injEq] at h
      rcases h with ⟨rfl, rfl, rfl⟩
      exact .timeout
    | false =>
      cases ht : (s.token w).wake with
      | true =>
        simp only [playOn, ht, Bool.false_eq_true, if_false, if_true, Option.some.injEq,
          Prod.mk.injEq] at h
        rcases h with ⟨rfl, rfl, rfl⟩
        exact .wake ht
      | false => simp [playOn, ht] at h
  | timedOut =>
    simp only [playOn, Option.some.injEq, Prod.mk.injEq] at h
    rcases h with ⟨rfl, rfl, rfl⟩
    cases ht : (s.token w).cancelled with
    | true => exact .timedOutCancelled ht
    | false => exact .timedOutOn ht
  | judge =>
    simp only [playOn, Option.some.injEq, Prod.mk.injEq] at h
    rcases h with ⟨rfl, rfl, rfl⟩
    cases ht : (s.token w).cancelled with
    | true => exact .judgeCancelled ht
    | false => exact .judgeOn ht
  | clear result =>
    cases hl : s.latch with
    | none =>
      simp only [playOn, hl, Option.some.injEq, Prod.mk.injEq] at h
      rcases h with ⟨rfl, rfl, rfl⟩
      exact .lockClear hl
    | some latch =>
      cases latch with
      | player =>
        simp only [playOn, hl, Option.some.injEq, Prod.mk.injEq] at h
        rcases h with ⟨rfl, rfl, rfl⟩
        exact .clear hl
      | caller => simp [playOn, hl] at h
  | drop result =>
    cases ht : (s.token w).cancelled with
    | true =>
      simp only [playOn, ht, if_true, Option.some.injEq, Prod.mk.injEq] at h
      rcases h with ⟨rfl, rfl, rfl⟩
      exact .dropAgain ht
    | false =>
      simp only [playOn, ht, Bool.false_eq_true, if_false, Option.some.injEq, Prod.mk.injEq] at h
      rcases h with ⟨rfl, rfl, rfl⟩
      exact .drop ht
  | dropRouse result =>
    simp only [playOn, Option.some.injEq, Prod.mk.injEq] at h
    rcases h with ⟨rfl, rfl, rfl⟩
    exact .dropRouse
  | deafen result =>
    simp only [playOn, Option.some.injEq, Prod.mk.injEq] at h
    rcases h with ⟨rfl, rfl, rfl⟩
    exact .deafen

theorem Turn.of_playNext {age : Duration} {late : Bool}
    (h : s.playNext i age late p = some (ev, s', p')) : Turn i s p ev s' p' := by
  cases p with
  | on w ph => exact Turn.of_playOn h
  | ask e =>
    simp only [playNext, Option.some.injEq, Prod.mk.injEq] at h
    rcases h with ⟨rfl, rfl, rfl⟩
    exact .ask
  | checkClosed t e =>
    simp only [playNext, Option.some.injEq, Prod.mk.injEq] at h
    rcases h with ⟨rfl, rfl, rfl⟩
    cases hc : s.closed with
    | true => exact .refuseClosed hc
    | false => exact .passClosed hc
  | checkEpoch t e =>
    simp only [playNext, Option.some.injEq, Prod.mk.injEq] at h
    rcases h with ⟨rfl, rfl, rfl⟩
    by_cases he : s.epoch = t.epoch
    · rw [if_pos he]
      exact .passEpoch he
    · rw [if_neg he]
      exact .refuseEpoch he
  | start t e =>
    simp only [playNext, Option.some.injEq, Prod.mk.injEq] at h
    rcases h with ⟨rfl, rfl, rfl⟩
    exact .start
  | black =>
    simp only [playNext, Option.some.injEq, Prod.mk.injEq] at h
    rcases h with ⟨rfl, rfl, rfl⟩
    cases hw : (s.sink.writeFrame Color.black).1 with
    | ok => exact .black hw
    | error e => exact .blackFails hw
  | done => cases h

/-! ## All threads -/

/-- Who goes on, and the choices that are open: a thread that is idle gets a ticket, asks for the
queue or calls; one that is not goes on where it is, `age` and `late` being for a player; a composer
goes on. -/
inductive Move (ι : Type)
  | ticket (thread : ι)
  | request (thread : ι) (job : Job)
  | call (thread : ι) (halt : Halt)
  | next (thread : ι) (age : Duration) (late : Bool)
  | compose (relay : Nat)

/-- What a call does next that holds the lock of the active slot. -/
def gripNext (s : Scene ι) (i : ι) (e : UInt64) (released : Scene ι) (halt : Halt) :
    Grip → Event ι × Scene ι
  | .aim =>
    match s.active with
    | none => (.quiet, { s with latch := some (.caller i .spent) })
    | some k =>
      if (s.relays k).token.cancelled then (.quiet, { s with latch := some (.caller i .spent) })
      else (.struck i e k, { s.onToken k Token.raise with latch := some (.caller i (.rouse k)) })
  | .rouse k => (.quiet, { s.onToken k Token.rouse with latch := some (.caller i .spent) })
  | .spent => (.returned i halt e, released)

/-- A thread goes on for some steps, without waiting for anything. -/
def Move.steps (i : ι) (n : Nat) : List (Move ι) := List.replicate n (.next i Duration.zero false)

variable [DecidableEq ι]

/-- What a thread does next that is not idle. -/
def threadNext (s : Scene ι) (i : ι) (age : Duration) (late : Bool) : Option (Event ι × Scene ι) :=
  match s.doing i with
  | .idle => none
  | .queued job =>
    match s.desk with
    | none => some (.took i job, { s with desk := some (i, job.first) })
    | some (j, p) =>
      if j = i then
        match p with
        | .done report => some (.left i report, { s.go i .idle with desk := none })
        | p => (s.playNext i age late p).map fun x => (x.1, { x.2.1 with desk := some (i, x.2.2) })
      else none
  | .closing => some (.shut i, { s.go i (.drawing .close) with closed := true })
  | .drawing halt =>
    some (.drew i (s.epoch + 1),
      { s.go i (.striking halt (s.epoch + 1)) with epoch := s.epoch + 1 })
  | .striking halt e =>
    match s.latch with
    | none => some (.quiet, { s with latch := some (.caller i .aim) })
    | some (.caller j grip) =>
      if j = i then
        some (s.gripNext i e { s.go i .idle with latch := none, issued := halt.issue e s.issued }
          halt grip)
      else none
    | some .player => none

/-- One step of a scene, if the move can be made. -/
def advance (s : Scene ι) : Move ι → Option (Event ι × Scene ι)
  | .ticket i =>
    match s.doing i with
    | .idle => some (.issued i ⟨s.epoch⟩, { s with issued := ⟨s.epoch⟩ :: s.issued })
    | _ => none
  | .request i job =>
    match s.doing i with
    | .idle => if job.Allowed s.issued then some (.quiet, s.go i (.queued job)) else none
    | _ => none
  | .call i halt =>
    match s.doing i with
    | .idle => some (.quiet, s.go i halt.first)
    | _ => none
  | .next i age late => s.threadNext i age late
  | .compose k => ((s.relays k).composeNext).map fun r => (.quiet, s.onRelay k fun _ => r)

/-- In every scene that can be reached, each step is what some move does. -/
theorem Step.exists_move (hk : Kept s) (hstep : Step s ev s') :
    ∃ m, s.advance m = some (ev, s') := by
  cases hstep with
  | @request i job hd hj => exact ⟨.request i job, by simp [advance, hd, hj]⟩
  | @ticket i hd => exact ⟨.ticket i, by simp [advance, hd]⟩
  | @call i halt hd => exact ⟨.call i halt, by simp [advance, hd]⟩
  | @shut i hd => exact ⟨.next i Duration.zero false, by simp [advance, threadNext, hd]⟩
  | @draw i halt hd => exact ⟨.next i Duration.zero false, by simp [advance, threadNext, hd]⟩
  | @grab i halt e hd hl =>
    exact ⟨.next i Duration.zero false, by simp [advance, threadNext, hd, hl]⟩
  | @miss i hl ha =>
    -- that a call holds the lock does not say where its thread is; the invariant does
    rcases hk.held _ _ hl with ⟨halt, e, hd⟩
    exact ⟨.next i Duration.zero false, by simp [advance, threadNext, gripNext, hd, hl, ha]⟩
  | @strikeAgain i k hl ha ht =>
    rcases hk.held _ _ hl with ⟨halt, e, hd⟩
    exact ⟨.next i Duration.zero false, by simp [advance, threadNext, gripNext, hd, hl, ha, ht]⟩
  | @strike i halt e k hd hl ha ht =>
    exact ⟨.next i Duration.zero false, by simp [advance, threadNext, gripNext, hd, hl, ha, ht]⟩
  | @rouse i k hl =>
    rcases hk.held _ _ hl with ⟨halt, e, hd⟩
    exact ⟨.next i Duration.zero false, by simp [advance, threadNext, gripNext, hd, hl]⟩
  | @release i halt e hd hl =>
    exact ⟨.next i Duration.zero false, by simp [advance, threadNext, gripNext, hd, hl]⟩
  | @take i job hd hq => exact ⟨.next i Duration.zero false, by simp [advance, threadNext, hd, hq]⟩
  | @turn i p _ s₁ p' hq ht =>
    -- the age and the lateness of the move are those that the turn asks for
    rcases hk.queued i p hq with ⟨job, hd⟩
    rcases ht.exists_playNext with ⟨age, late, hplay⟩
    refine ⟨.next i age late, ?_⟩
    cases p with
    | done => cases ht
    | _ => simp [advance, threadNext, hd, hq, hplay]
  | @leave i report hq =>
    rcases hk.queued i _ hq with ⟨job, hd⟩
    exact ⟨.next i Duration.zero false, by simp [advance, threadNext, hd, hq]⟩
  | @compose k r hc =>
    refine ⟨.compose k, ?_⟩
    simp [advance, Relay.compose_iff.1 hc]

/-- What a thread does next is a step. -/
theorem Step.of_threadNext {age : Duration} {late : Bool}
    (h : s.threadNext i age late = some (ev, s')) : Step s ev s' := by
  cases hd : s.doing i with
  | idle => simp [threadNext, hd] at h
  | queued job =>
    -- the thread gets the queue, goes on with it or leaves it, or somebody else has it
    cases hq : s.desk with
    | none =>
      simp only [threadNext, hd, hq, Option.some.injEq, Prod.mk.injEq] at h
      rcases h with ⟨rfl, rfl⟩
      exact .take hd hq
    | some d =>
      rcases d with ⟨j, p⟩
      by_cases hj : j = i
      · subst hj
        cases p with
        | done report =>
          simp only [threadNext, hd, hq, if_true, Option.some.injEq, Prod.mk.injEq] at h
          rcases h with ⟨rfl, rfl⟩
          exact .leave hq
        | _ =>
          simp only [threadNext, hd, hq, if_true, Option.map_eq_some_iff, Prod.mk.injEq] at h
          rcases h with ⟨⟨ev', s₁, p'⟩, hplay, rfl, rfl⟩
          exact .turn hq (Turn.of_playNext hplay)
      · simp [threadNext, hd, hq, hj] at h
  | closing =>
    simp only [threadNext, hd, Option.some.injEq, Prod.mk.injEq] at h
    rcases h with ⟨rfl, rfl⟩
    exact .shut hd
  | drawing halt =>
    simp only [threadNext, hd, Option.some.injEq, Prod.mk.injEq] at h
    rcases h with ⟨rfl, rfl⟩
    exact .draw hd
  | striking halt e =>
    -- a call that strikes gets the lock first, and nothing happens while others hold it
    cases hl : s.latch with
    | none =>
      simp only [threadNext, hd, hl, Option.some.injEq, Prod.mk.injEq] at h
      rcases h with ⟨rfl, rfl⟩
      exact .grab hd hl
    | some latch =>
      cases latch with
      | player => simp [threadNext, hd, hl] at h
      | caller j grip =>
        by_cases hj : j = i
        · subst hj
          simp only [threadNext, hd, hl, if_true, Option.some.injEq] at h
          cases grip with
          | aim =>
            cases ha : s.active with
            | none =>
              simp only [gripNext, ha, Prod.mk.injEq] at h
              rcases h with ⟨rfl, rfl⟩
              have hstep := Step.miss hl ha
              rw [ha] at hstep
              exact hstep
            | some k =>
              cases ht : (s.relays k).token.cancelled with
              | true =>
                simp only [gripNext, ha, ht, if_true, Prod.mk.injEq] at h
                rcases h with ⟨rfl, rfl⟩
                have hstep := Step.strikeAgain hl ha ht
                rw [ha] at hstep
                exact hstep
              | false =>
                simp only [gripNext, ha, ht, Bool.false_eq_true, if_false, Prod.mk.injEq] at h
                rcases h with ⟨rfl, rfl⟩
                exact .strike hd hl ha ht
          | rouse k =>
            simp only [gripNext, Prod.mk.injEq] at h
            rcases h with ⟨rfl, rfl⟩
            exact .rouse hl
          | spent =>
            simp only [gripNext, Prod.mk.injEq] at h
            rcases h with ⟨rfl, rfl⟩
            exact .release hd hl
        · simp [threadNext, hd, hl, hj] at h

/-- Whatever move can be made, it is a step. -/
theorem Step.of_advance {m : Move ι} (h : s.advance m = some (ev, s')) : Step s ev s' := by
  cases m with
  | ticket i =>
    cases hd : s.doing i with
    | idle =>
      simp only [advance, hd, Option.some.injEq, Prod.mk.injEq] at h
      rcases h with ⟨rfl, rfl⟩
      exact .ticket hd
    | _ => simp [advance, hd] at h
  | request i job =>
    cases hd : s.doing i with
    | idle =>
      by_cases hj : job.Allowed s.issued
      · simp only [advance, hd, hj, if_true, Option.some.injEq, Prod.mk.injEq] at h
        rcases h with ⟨rfl, rfl⟩
        exact .request job hd hj
      · simp [advance, hd, hj] at h
    | _ => simp [advance, hd] at h
  | call i halt =>
    cases hd : s.doing i with
    | idle =>
      simp only [advance, hd, Option.some.injEq, Prod.mk.injEq] at h
      rcases h with ⟨rfl, rfl⟩
      exact .call halt hd
    | _ => simp [advance, hd] at h
  | next i age late => exact Step.of_threadNext h
  | compose k =>
    simp only [advance, Option.map_eq_some_iff, Prod.mk.injEq] at h
    rcases h with ⟨r, hr, rfl, rfl⟩
    exact .compose (Relay.compose_iff.2 hr)

/-! ## Lists of moves -/

/-- Carries out moves one after the other, if they can all be made. -/
def perform (s : Scene ι) : List (Move ι) → Option (List (Event ι) × Scene ι)
  | [] => some ([], s)
  | m :: moves =>
    match s.advance m with
    | none => none
    | some (ev, s) => (s.perform moves).map fun x => (ev :: x.1, x.2)

/-- Carrying out moves is a run. -/
theorem Run.of_perform (moves : List (Move ι)) (events : List (Event ι))
    (h : s.perform moves = some (events, s')) : Run s events s' := by
  induction moves generalizing s events with
  | nil =>
    simp only [perform, Option.some.injEq, Prod.mk.injEq] at h
    rcases h with ⟨rfl, rfl⟩
    exact .refl
  | cons m moves ih =>
    cases hm : s.advance m with
    | none => simp [perform, hm] at h
    | some x =>
      rcases x with ⟨ev, s₁⟩
      simp only [perform, hm, Option.map_eq_some_iff, Prod.mk.injEq] at h
      rcases h with ⟨⟨rest, s₂⟩, hrest, rfl, rfl⟩
      have hone : Run s [ev] s₁ := Run.refl.step (Step.of_advance hm)
      exact hone.append (ih _ hrest)

/-- The events that moves show are those of a run. -/
theorem exists_run (moves : List (Move ι)) (events : List (Event ι))
    (h : (s.perform moves).map Prod.fst = some events) : ∃ s', Run s events s' := by
  rw [Option.map_eq_some_iff] at h
  rcases h with ⟨⟨_, s'⟩, hperform, rfl⟩
  exact ⟨s', Run.of_perform _ _ hperform⟩

/-- Moves can be carried out in two parts. -/
theorem perform_append {moves more : List (Move ι)} {before after : List (Event ι)}
    {s₁ s₂ : Scene ι} (h₁ : s.perform moves = some (before, s₁))
    (h₂ : s₁.perform more = some (after, s₂)) :
    s.perform (moves ++ more) = some (before ++ after, s₂) := by
  induction moves generalizing s before with
  | nil =>
    simp only [perform, Option.some.injEq, Prod.mk.injEq] at h₁
    rcases h₁ with ⟨rfl, rfl⟩
    exact h₂
  | cons m moves ih =>
    cases hm : s.advance m with
    | none => simp [perform, hm] at h₁
    | some x =>
      rcases x with ⟨ev, s₃⟩
      simp only [perform, hm, Option.map_eq_some_iff, Prod.mk.injEq] at h₁
      rcases h₁ with ⟨⟨rest, s₄⟩, hrest, rfl, rfl⟩
      simp [perform, hm, ih hrest]

/-- Every run from a fresh scene is found by carrying out moves. -/
theorem Run.exists_perform {b : Behaviour} {g : Random.Generator} {events : List (Event ι)}
    (hrun : Run (fresh b g) events s) : ∃ moves, (fresh b g).perform moves = some (events, s) := by
  induction hrun with
  | refl => exact ⟨[], rfl⟩
  | @step events s ev s' hrun hstep ih =>
    rcases ih with ⟨moves, hmoves⟩
    rcases hstep.exists_move hrun.kept with ⟨m, hm⟩
    exact ⟨moves ++ [m], perform_append hmoves (by simp [perform, hm])⟩

end Scene

end Beacon
