import Beacon.Proofs.Relay
import Beacon.Proofs.Trace
import Mathlib.Logic.Function.Basic

/-!
# Sleepers

Any number of threads that share one token: some sleep on it, some cancel it. A sleeper looks at the
flag before it waits and, if its time runs out, once more after it; one who cancels raises the flag
and leaves a wake-up. Each of these is a step of its own, in any order.

The wake-up is left only once, and the slot has room for one, so it ends one sleep and no other.

1. **Steps**: `Sleepers`, `Sleepers.Step`, and runs with what their steps show. A `Token.sleep` is
   such a run with one sleeper (`Sleepers.exists_run_sleep`).
2. **Before the flag is up**, there is no wake-up (`Sleepers.Calm`).
3. **After it is up**, nobody goes to sleep any more, no sleep lasts its whole time by what it
   answers, and the one wake-up is due, in the slot, or taken by one thread (`Sleepers.Delivery`).
4. **Left behind**: a sleeper can be left waiting, with no wake-up to come, if and only if two
   threads were waiting when the flag went up (`Sleepers.Run.strands_iff`).
-/

namespace Beacon

/-- What a thread is doing with the token: nothing; it has begun a sleep and is to look at the flag,
or waits for a wake-up, or its time is up and it is to look again; or it has begun to cancel and is
to raise the flag, or has raised it and is to leave the wake-up. -/
inductive Errand
  | idle
  | checking (d : Duration)
  | waiting (d : Duration)
  | late
  | raising
  | rousing
  deriving DecidableEq, Repr

/-- The token that the threads share, and what each of them is doing with it. -/
structure Sleepers (ι : Type) where
  token : Token
  doing : ι → Errand

namespace Sleepers

variable {ι : Type}

/-- What a step shows: a thread raises the flag, or its cancellation returns; its sleep is ended by
the wake-up, or its time runs out; or its sleep returns in another way, and answers whether it
lasted its whole time. -/
inductive Event (ι : Type)
  | quiet
  | raised (thread : ι)
  | cancelled (thread : ι)
  | woke (thread : ι)
  | expired (thread : ι)
  | slept (thread : ι) (whole : Bool)
  deriving DecidableEq

/-- A token in the hands of threads that have not begun anything. -/
def start (t : Token) : Sleepers ι := ⟨t, fun _ => .idle⟩

/-- A token that is new. -/
def fresh : Sleepers ι := start Token.fresh

/-- The state with another token. -/
def onToken (f : Token → Token) (s : Sleepers ι) : Sleepers ι := { s with token := f s.token }

/-- Whether a thread waits for a wake-up. -/
def Waits (s : Sleepers ι) (i : ι) : Prop := ∃ d, s.doing i = .waiting d

/-- The threads whose sleep was ended by a wake-up, in order. -/
def woken (events : List (Event ι)) : List ι :=
  events.filterMap fun
    | .woke i => some i
    | _ => none

@[simp] theorem woken_append (before after : List (Event ι)) :
    woken (before ++ after) = woken before ++ woken after :=
  List.filterMap_append

theorem woken_woke (i : ι) : woken [.woke i] = [i] := rfl

/-- Only a wake-up that is taken shows a thread that is woken. -/
theorem woken_of_ne {ev : Event ι} (h : ∀ i, ev ≠ .woke i) : woken [ev] = [] := by
  cases ev with
  | woke i => exact absurd rfl (h i)
  | _ => rfl

theorem eq_woke_of_mem {ev : Event ι} {i : ι} (h : i ∈ woken [ev]) : ev = .woke i := by
  cases ev with
  | woke j => rw [List.mem_singleton.1 h]
  | _ => cases h

variable [DecidableEq ι]

/-- The state after a thread has gone on to something else. -/
def go (s : Sleepers ι) (i : ι) (e : Errand) : Sleepers ι :=
  { s with doing := Function.update s.doing i e }

/-- One atomic step of a thread: of a sleep (`lie` to `judge`), or of a cancellation (`cancel` to
`rouse`). -/
inductive Step (s : Sleepers ι) : Event ι → Sleepers ι → Prop
  | lie {i} (d : Duration) (hd : s.doing i = .idle) : Step s .quiet (s.go i (.checking d))
  | refuse {i d} (hd : s.doing i = .checking d) (ht : s.token.cancelled = true) :
      Step s (.slept i false) (s.go i .idle)
  | skip {i d} (hd : s.doing i = .checking d) (ht : s.token.cancelled = false)
      (hz : d.nanos = 0) : Step s (.slept i true) (s.go i .idle)
  | wait {i d} (hd : s.doing i = .checking d) (ht : s.token.cancelled = false)
      (hz : d.nanos ≠ 0) : Step s .quiet (s.go i (.waiting d))
  | wake {i d} (hd : s.doing i = .waiting d) (hw : s.token.wake = true) :
      Step s (.woke i) ((s.go i .idle).onToken .settle)
  | expire {i d} (hd : s.doing i = .waiting d) : Step s (.expired i) (s.go i .late)
  | judge {i} (hd : s.doing i = .late) : Step s (.slept i (!s.token.cancelled)) (s.go i .idle)
  | cancel {i} (hd : s.doing i = .idle) : Step s .quiet (s.go i .raising)
  | raise {i} (hd : s.doing i = .raising) (ht : s.token.cancelled = false) :
      Step s (.raised i) ((s.go i .rousing).onToken .raise)
  | raiseAgain {i} (hd : s.doing i = .raising) (ht : s.token.cancelled = true) :
      Step s (.cancelled i) (s.go i .idle)
  | rouse {i} (hd : s.doing i = .rousing) :
      Step s (.cancelled i) ((s.go i .idle).onToken .rouse)

/-- Runs of threads on a token. -/
abbrev Run (s₀ : Sleepers ι) (events : List (Event ι)) (s : Sleepers ι) : Prop :=
  Trace Step s₀ events s

variable {s s' s₀ s₁ s₂ : Sleepers ι} {ev : Event ι} {before after events : List (Event ι)}
variable {i j : ι} {e : Errand} {f : Token → Token}

@[simp] theorem token_go : (s.go i e).token = s.token := rfl
@[simp] theorem doing_go_self : (s.go i e).doing i = e := Function.update_self ..
@[simp] theorem doing_go_of_ne (h : j ≠ i) : (s.go i e).doing j = s.doing j :=
  Function.update_of_ne h ..

@[simp] theorem go_go {e' : Errand} : (s.go i e).go i e' = s.go i e' := by
  simp [go, Function.update_idem]

omit [DecidableEq ι] in
@[simp] theorem token_onToken : (s.onToken f).token = f s.token := rfl

omit [DecidableEq ι] in
@[simp] theorem doing_onToken : (s.onToken f).doing = s.doing := rfl

/-- After a thread has gone on to something, whoever does something else has been doing it before,
and is another thread. -/
theorem doing_of_go {e' : Errand} (h : (s.go i e).doing j = e') (hne : e ≠ e') :
    j ≠ i ∧ s.doing j = e' := by
  have hji : j ≠ i := by
    rintro rfl
    exact hne (by simpa using h)
  exact ⟨hji, by simpa [hji] using h⟩

/-- Whoever waits after a thread has gone on to something else than waiting has waited before, and
is another thread. -/
theorem Waits.of_go (h : (s.go i e).Waits j) (he : ∀ d, e ≠ .waiting d) : j ≠ i ∧ s.Waits j := by
  rcases h with ⟨d, hd⟩
  rcases doing_of_go hd (he d) with ⟨hji, hd'⟩
  exact ⟨hji, d, hd'⟩

/-! ## A sleep with one sleeper -/

/-- A thread goes to sleep. -/
theorem run_lie_down (d : Duration) (hi : s.doing i = .idle) (ht : s.token.cancelled = false)
    (hz : d.nanos ≠ 0) : Run s [.quiet, .quiet] (s.go i (.waiting d)) := by
  have hlie : Run s [.quiet] (s.go i (.checking d)) := Trace.refl.step (.lie d hi)
  have hwait := hlie.step (.wait doing_go_self ht hz)
  rw [go_go] at hwait
  exact hwait

/-- A cancellation by a thread that has nothing else to do. -/
theorem exists_run_cancel (hi : s.doing i = .idle) :
    ∃ events s', Run s (events ++ [.cancelled i]) s' ∧ s'.token = s.token.cancel ∧
      s'.doing i = .idle ∧ ∀ j, j ≠ i → s'.doing j = s.doing j := by
  have hbegin : Run s [.quiet] (s.go i .raising) := Trace.refl.step (.cancel hi)
  have hcancel := s.token.cancel_eq
  cases ht : s.token.cancelled with
  | true =>
    refine ⟨_, _, hbegin.step (.raiseAgain doing_go_self ht), ?_, doing_go_self, ?_⟩
    · simp [hcancel, ht]
    · intro j hj
      simp [hj]
  | false =>
    have hraise := hbegin.step (.raise doing_go_self ht)
    refine ⟨_, _, hraise.step (.rouse doing_go_self), ?_, doing_go_self, ?_⟩
    · simp [hcancel, ht]
    · intro j hj
      simp [hj]

/-- A sleep that nobody disturbs, at once or after its time has run out. -/
theorem exists_run_whole (d : Duration) (hi : s.doing i = .idle)
    (ht : s.token.cancelled = false) :
    ∃ events s', Run s (events ++ [.slept i true]) s' ∧ s'.token = s.token ∧
      s'.doing i = .idle ∧ ∀ j, j ≠ i → s'.doing j = s.doing j := by
  by_cases hz : d.nanos = 0
  · have hlie : Run s [.quiet] (s.go i (.checking d)) := Trace.refl.step (.lie d hi)
    refine ⟨_, _, hlie.step (.skip doing_go_self ht hz), rfl, doing_go_self, ?_⟩
    intro j hj
    simp [hj]
  · have hexpire := (run_lie_down d hi ht hz).step (.expire doing_go_self)
    have hjudge := hexpire.step (.judge doing_go_self)
    rw [show (!((s.go i (.waiting d)).go i .late).token.cancelled) = true by simp [ht]] at hjudge
    refine ⟨_, _, hjudge, rfl, doing_go_self, ?_⟩
    intro j hj
    simp [hj]

/-- How a sleep ends that is disturbed by at most one cancellation, and what it answers, is how it
ends in some run of a sleeper and another thread. -/
theorem exists_run_sleep (t : Token) (d : Duration) (cancelAfter : Option Duration) (hij : i ≠ j) :
    ∃ events s', Run (start t) events s' ∧ s'.token = (t.sleep d cancelAfter).2 ∧
      s'.doing i = .idle ∧
      (if (t.sleep d cancelAfter).1 then .slept i true ∈ events
        else .slept i false ∈ events ∨ .woke i ∈ events) := by
  have hlie : Run (start t) [.quiet] ((start t).go i (.checking d)) :=
    Trace.refl.step (.lie d rfl)
  unfold Token.sleep
  cases ht : t.cancelled with
  | true =>
    have hrun := hlie.step (.refuse doing_go_self ht)
    exact ⟨_, _, hrun, rfl, doing_go_self, by simp⟩
  | false =>
    rcases exists_run_whole d (s := start t) (i := i) rfl ht with
      ⟨events, s', hrun, htoken, hi, hothers⟩
    have htoken' : s'.token = t := htoken
    cases cancelAfter with
    | none => exact ⟨_, s', hrun, htoken, hi, by simp⟩
    | some c =>
      by_cases hc : c.nanos < d.nanos
      · -- the other thread cancels while the sleeper waits
        have hwait := run_lie_down d (s := start t) (i := i) rfl ht (by omega)
        have hidle : ((start t).go i (.waiting d)).doing j = .idle := by simp [hij.symm, start]
        rcases exists_run_cancel hidle with ⟨more, s₁, hmore, htoken₁, -, hothers₁⟩
        have hwaits : s₁.doing i = .waiting d := by simp [hothers₁ i hij]
        have hcancel : s₁.token = t.cancel := htoken₁
        have hwake : s₁.token.wake = true := by simp [hcancel, t.cancel_eq, ht]
        refine ⟨_, _, (hwait.append hmore).step (.wake hwaits hwake), ?_, doing_go_self, ?_⟩
        · simp [hc, hcancel, Token.settle]
        · simp [hc]
      · -- the other thread cancels when the sleep has returned
        have hidle : s'.doing j = .idle := hothers j hij.symm
        rcases exists_run_cancel hidle with ⟨more, s₁, hmore, htoken₁, -, hothers₁⟩
        refine ⟨_, _, hrun.append hmore, ?_, ?_, ?_⟩
        · simp [hc, htoken₁, htoken']
        · rw [hothers₁ i hij, hi]
        · simp [hc]

/-! ## Before the flag is up -/

/-- As long as the flag is down there is no wake-up, and nobody is about to leave one. -/
structure Calm (s : Sleepers ι) : Prop where
  wake : s.token.cancelled = false → s.token.wake = false
  rousing : s.token.cancelled = false → ∀ i, s.doing i ≠ .rousing

omit [DecidableEq ι] in
theorem Calm.fresh : Calm (fresh : Sleepers ι) where
  wake _ := rfl
  rousing _ _ hrousing := by cases hrousing

/-- A thread that goes on to something, without touching the token, keeps the calm. -/
theorem Calm.go (hs : Calm s) (he : e ≠ .rousing) : Calm (s.go i e) where
  wake := hs.wake
  rousing ht _ hrousing := hs.rousing ht _ (doing_of_go hrousing he).2

theorem Calm.step (hs : Calm s) (hstep : Step s ev s') : Calm s' := by
  cases hstep with
  | wake hd hw =>
    -- a wake-up is there, so the flag is up
    have ht : s.token.cancelled ≠ false := by
      intro ht
      exact Bool.false_ne_true ((hs.wake ht).symm.trans hw)
    exact ⟨fun hdown => absurd hdown ht, fun hdown => absurd hdown ht⟩
  | rouse hd =>
    have ht : s.token.cancelled ≠ false := fun ht => hs.rousing ht _ hd
    exact ⟨fun hdown => absurd hdown ht, fun hdown => absurd hdown ht⟩
  | raise hd ht => exact ⟨by simp [Token.raise], by simp [Token.raise]⟩
  | _ => exact hs.go (by simp)

theorem Run.calm (hrun : Run fresh events s) : Calm s :=
  hrun.invariant (fun _ _ _ hstep hs => hs.step hstep) .fresh

/-! ## After the flag is up -/

/-- A step of the thread `i` that goes on to `e` and shows `ev`, when it has nothing to do with the
wake-up: the thread does not begin to wait, and the sleep from which it returns was cut short. -/
structure Aside (s : Sleepers ι) (i : ι) (e : Errand) (ev : Event ι) : Prop where
  rousing : e ≠ .rousing
  waiting : ∀ d, e ≠ .waiting d
  before : s.doing i ≠ .rousing
  woke : ∀ k, ev ≠ .woke k
  cancelled : ∀ k, ev = .cancelled k → k = i
  answer : ∀ k whole, ev = .slept k whole → whole = false
  expired : s.Waits i → ev = .expired i

/-- What can happen when the flag is up: the thread that has raised it leaves the wake-up, a waiting
thread takes it, or a thread goes on to something that leaves the token alone. -/
theorem Step.of_cancelled (hstep : Step s ev s') (ht : s.token.cancelled = true) :
    (∃ i, s.doing i = .rousing ∧ ev = .cancelled i ∧ s' = (s.go i .idle).onToken .rouse) ∨
    (∃ i, s.Waits i ∧ s.token.wake = true ∧ ev = .woke i ∧
      s' = (s.go i .idle).onToken .settle) ∨
    (∃ i e, s' = s.go i e ∧ Aside s i e ev) := by
  cases hstep with
  | rouse hd => exact .inl ⟨_, hd, rfl, rfl⟩
  | wake hd hw => exact .inr (.inl ⟨_, ⟨_, hd⟩, hw, rfl, rfl⟩)
  -- nobody begins to wait with the flag up, and nobody raises it again
  | skip hd hdown | wait hd hdown | raise hd hdown => cases ht.symm.trans hdown
  | judge hd =>
    refine .inr (.inr ⟨_, _, rfl, by simp, by simp, by simp [hd], by simp, by simp, ?_, ?_⟩)
    · intro k whole hev
      cases hev
      simp [ht]
    · simp [Waits, hd]
  | lie d hd | refuse hd | expire hd | cancel hd | raiseAgain hd =>
    exact .inr (.inr ⟨_, _, rfl, by simp, by simp, by simp [hd], by simp, by simp, by simp,
      by simp [Waits, hd]⟩)

theorem Step.cancelled (hstep : Step s ev s') (ht : s.token.cancelled = true) :
    s'.token.cancelled = true := by
  rcases hstep.of_cancelled ht with ⟨i, -, -, rfl⟩ | ⟨i, -, -, -, rfl⟩ | ⟨i, e, rfl, -⟩
  all_goals exact ht

/-- Nobody goes to sleep any more, and one whose sleep is ended does not wait. -/
theorem Step.waits (hstep : Step s ev s') (ht : s.token.cancelled = true) (hj : s'.Waits j) :
    s.Waits j ∧ ev ≠ .woke j := by
  rcases hstep.of_cancelled ht with
    ⟨i, -, rfl, rfl⟩ | ⟨i, -, -, rfl, rfl⟩ | ⟨i, e, rfl, haside⟩
  · exact ⟨(Waits.of_go hj (by simp)).2, by simp⟩
  · rcases Waits.of_go hj (by simp) with ⟨hji, hwaits⟩
    exact ⟨hwaits, by simpa using hji.symm⟩
  · exact ⟨(Waits.of_go hj haside.waiting).2, haside.woke j⟩

/-- What has become of the wake-up since a thread has raised the flag: it is still due, it lies in
the slot, or one thread has taken it. It is due only until the cancellation returns. -/
inductive Delivery (i : ι) (s : Sleepers ι) (events : List (Event ι)) : Prop
  | due (hi : s.doing i = .rousing) (honly : ∀ j, s.doing j = .rousing → j = i)
      (hw : s.token.wake = false) (hnone : woken events = []) (hreturn : .cancelled i ∉ events)
  | left (hnobody : ∀ j, s.doing j ≠ .rousing) (hw : s.token.wake = true)
      (hnone : woken events = [])
  | taken (k : ι) (hnobody : ∀ j, s.doing j ≠ .rousing) (hw : s.token.wake = false)
      (hone : woken events = [k])

theorem Delivery.step (hs : Delivery i s events) (hstep : Step s ev s')
    (ht : s.token.cancelled = true) : Delivery i s' (events ++ [ev]) := by
  rcases hstep.of_cancelled ht with
    ⟨j, hj, rfl, rfl⟩ | ⟨j, hj, hwake, rfl, rfl⟩ | ⟨j, e, rfl, haside⟩
  · -- the only one who can leave a wake-up is the one from whom it is due
    cases hs with
    | due hi honly hw hnone hreturn =>
      refine .left ?_ rfl (by simp [hnone, woken_of_ne])
      intro k hk
      rcases doing_of_go hk (by simp) with ⟨hkj, hk'⟩
      exact hkj ((honly k hk').trans (honly j hj).symm)
    | left hnobody | taken k hnobody => exact absurd hj (hnobody j)
  · -- a waiting thread takes the wake-up that lies in the slot
    cases hs with
    | left hnobody hw hnone =>
      refine .taken j ?_ rfl (by simp [hnone, woken_woke])
      intro k hk
      exact hnobody k (doing_of_go hk (by simp)).2
    | due hi honly hw | taken k hnobody hw => cases hw.symm.trans hwake
  · -- a thread that goes on to something else leaves the wake-up where it is
    have hsame : woken (events ++ [ev]) = woken events := by
      rw [woken_append, woken_of_ne haside.woke, List.append_nil]
    have hrousers : ∀ k, (s.go j e).doing k = .rousing → s.doing k = .rousing := by
      intro k hk
      exact (doing_of_go hk haside.rousing).2
    cases hs with
    | due hi honly hw hnone hreturn =>
      have hij : i ≠ j := by
        rintro rfl
        exact haside.before hi
      refine .due (by simpa [hij] using hi) (fun k hk => honly k (hrousers k hk)) hw
        (hsame.trans hnone) ?_
      intro hmem
      rcases List.mem_append.1 hmem with hold | hnew
      · exact hreturn hold
      · exact hij (haside.cancelled i (List.mem_singleton.1 hnew).symm)
    | left hnobody hw hnone =>
      exact .left (fun k hk => hnobody k (hrousers k hk)) hw (hsame.trans hnone)
    | taken k hnobody hw hone =>
      exact .taken k (fun l hl => hnobody l (hrousers l hl)) hw (hsame.trans hone)

/-- When a thread raises the flag, the wake-up is due from it. -/
theorem Delivery.of_raise (hs : Calm s) (hraise : Step s (.raised i) s') : Delivery i s' [] := by
  cases hraise with
  | raise hd ht =>
    refine .due doing_go_self ?_ (hs.wake ht) rfl (by simp)
    intro j hj
    by_contra hji
    exact hs.rousing ht j (by simpa [hji] using hj)

/-- What holds from the moment at which a thread raises the flag. -/
structure Hushed (i : ι) (s₁ s : Sleepers ι) (events : List (Event ι)) : Prop where
  cancelled : s.token.cancelled = true
  delivery : Delivery i s events
  waits : ∀ j, s.Waits j → s₁.Waits j ∧ j ∉ woken events
  answers : ∀ j whole, .slept j whole ∈ events → whole = false

theorem Hushed.step (hs : Hushed i s₁ s events) (hstep : Step s ev s') :
    Hushed i s₁ s' (events ++ [ev]) where
  cancelled := hstep.cancelled hs.cancelled
  delivery := hs.delivery.step hstep hs.cancelled
  waits := by
    intro j hj
    rcases hstep.waits hs.cancelled hj with ⟨hwaits, hev⟩
    rcases hs.waits j hwaits with ⟨hfirst, hnot⟩
    refine ⟨hfirst, ?_⟩
    rw [woken_append, List.mem_append]
    rintro (hold | hnew)
    · exact hnot hold
    · exact hev (eq_woke_of_mem hnew)
  answers := by
    intro j whole hmem
    rcases List.mem_append.1 hmem with hold | hnew
    · exact hs.answers j whole hold
    · have hev := List.mem_singleton.1 hnew
      rcases hstep.of_cancelled hs.cancelled with
        ⟨k, -, rfl, -⟩ | ⟨k, -, -, rfl, -⟩ | ⟨k, e, -, haside⟩
      · cases hev
      · cases hev
      · exact haside.answer j whole hev.symm

theorem Run.hushed (hbefore : Run fresh before s₁) (hraise : Step s₁ (.raised i) s₂)
    (hafter : Run s₂ after s) : Hushed i s₁ s after := by
  induction hafter with
  | refl =>
    have hcalm := Run.calm hbefore
    refine ⟨?_, .of_raise hcalm hraise, ?_, by simp⟩
    · cases hraise
      rfl
    · rintro j hj
      cases hraise with
      | raise hd ht => exact ⟨(Waits.of_go hj (by simp)).2, by simp [woken]⟩
  | step _ hstep ih => exact ih.step hstep

/-! ## Left behind -/

/-- A thread that waits although the flag is up, with no wake-up in the slot and none to come. -/
structure Stranded (s : Sleepers ι) (j : ι) : Prop where
  cancelled : s.token.cancelled = true
  empty : s.token.wake = false
  nobody : ∀ i, s.doing i ≠ .rousing
  waits : s.Waits j

theorem Stranded.step (hs : Stranded s j) (hstep : Step s ev s') :
    Stranded s' j ∨ ev = .expired j := by
  rcases hstep.of_cancelled hs.cancelled with
    ⟨k, hk, -, -⟩ | ⟨k, -, hwake, -, -⟩ | ⟨k, e, rfl, haside⟩
  · exact absurd hk (hs.nobody k)
  · cases hs.empty.symm.trans hwake
  · by_cases hjk : j = k
    · subst hjk
      exact .inr (haside.expired hs.waits)
    · rcases hs.waits with ⟨d, hd⟩
      refine .inl ⟨hs.cancelled, hs.empty, ?_, d, by simpa [hjk] using hd⟩
      intro l hl
      exact hs.nobody l (doing_of_go hl haside.rousing).2

/-- Nothing but the end of its time ends the sleep of a thread that is left behind. -/
theorem Stranded.run (hs : Stranded s j) (hrun : Run s events s') :
    Stranded s' j ∨ .expired j ∈ events := by
  induction hrun with
  | refl => exact .inl hs
  | @step events mid ev s' _ hstep ih =>
    rcases ih with hmid | hexpired
    · rcases hmid.step hstep with hs' | rfl
      · exact .inl hs'
      · exact .inr (by simp)
    · exact .inr (List.mem_append_left _ hexpired)

omit [DecidableEq ι] in
/-- After the cancellation has returned, the slot is empty only because a thread has taken the
wake-up. -/
theorem Delivery.woken_of_empty (hs : Delivery i s events) (hreturn : .cancelled i ∈ events)
    (hw : s.token.wake = false) :
    (∀ j, s.doing j ≠ .rousing) ∧ ∃ k, woken events = [k] := by
  cases hs with
  | due _ _ _ _ hnot => exact absurd hreturn hnot
  | left _ hfull => cases hw.symm.trans hfull
  | taken k hnobody _ hone => exact ⟨hnobody, k, hone⟩

/-- Only those who waited as the flag went up are woken. -/
theorem Run.waits_of_woken (hbefore : Run fresh before s₁) (hraise : Step s₁ (.raised i) s₂)
    (hafter : Run s₂ after s) : ∀ k ∈ woken after, s₁.Waits k := by
  induction hafter with
  | refl => simp [woken]
  | @step after s ev s' hafter hstep ih =>
    intro k hk
    rw [woken_append, List.mem_append] at hk
    rcases hk with hold | hnew
    · exact ih k hold
    · obtain rfl := eq_woke_of_mem hnew
      cases hstep with
      | wake hd hw => exact ((Run.hushed hbefore hraise hafter).waits k ⟨_, hd⟩).1

/-- Two threads wait as a third raises the flag. The wake-up ends the sleep of one of them, and the
other one is left behind. -/
theorem exists_stranded {k : ι} (hs : Calm s₁) (hraise : Step s₁ (.raised i) s₂) (hjk : j ≠ k)
    (hj : s₁.Waits j) (hk : s₁.Waits k) :
    ∃ after s, Run s₂ after s ∧ .cancelled i ∈ after ∧ s.Stranded j := by
  rcases hj with ⟨dj, hj⟩
  rcases hk with ⟨dk, hk⟩
  cases hraise with
  | raise hd ht =>
    have hji : j ≠ i := by
      rintro rfl
      cases hd.symm.trans hj
    have hki : k ≠ i := by
      rintro rfl
      cases hd.symm.trans hk
    have hrouse : Run ((s₁.go i .rousing).onToken .raise) [.cancelled i] _ :=
      Trace.refl.step (.rouse doing_go_self)
    have hrun := hrouse.step (.wake (i := k) (d := dk) (by simp [hki, hk]) rfl)
    refine ⟨_, _, hrun, by simp, rfl, rfl, ?_, dj, by simp [hji, hjk, hj]⟩
    intro l hl
    rcases doing_of_go hl (by simp) with ⟨-, hl'⟩
    rcases doing_of_go hl' (by simp) with ⟨hli, hl''⟩
    exact hs.rousing ht l (by simpa [hli] using hl'')

/-- Cancelling ends one sleep. In every run of any number of threads, from the moment at which the
flag goes up: nobody begins to wait any more, at most one sleep is ended by a wake-up, and no sleep
that returns answers that it lasted its whole time. Once the cancellation that has raised the flag
has returned, a thread that waits with an empty slot is left behind, and only the end of its time
ends its sleep. That can happen if and only if two threads were waiting when the flag went up. -/
theorem Run.strands_iff (hbefore : Run fresh before s₁) (hraise : Step s₁ (.raised i) s₂) :
    (∀ after s, Run s₂ after s →
      (∀ j, s.Waits j → s₁.Waits j) ∧ (woken after).length ≤ 1 ∧
      (∀ j whole, .slept j whole ∈ after → whole = false) ∧
      (.cancelled i ∈ after → s.token.wake = false → ∀ j, s.Waits j →
        ∀ events s', Run s events s' → s'.Waits j ∧ s'.token.wake = false ∨
          .expired j ∈ events)) ∧
    ((∃ after s j, Run s₂ after s ∧ .cancelled i ∈ after ∧ s.Waits j ∧ s.token.wake = false) ↔
      ∃ j k, j ≠ k ∧ s₁.Waits j ∧ s₁.Waits k) := by
  refine ⟨?_, ?_, ?_⟩
  · intro after s hafter
    have hs := Run.hushed hbefore hraise hafter
    refine ⟨fun j hj => (hs.waits j hj).1, ?_, hs.answers, ?_⟩
    · cases hs.delivery with
      | due _ _ _ hnone | left _ _ hnone => simp [hnone]
      | taken k _ _ hone => simp [hone]
    · intro hreturn hempty j hj events s' hrun
      have hnobody := (hs.delivery.woken_of_empty hreturn hempty).1
      have hstranded : s.Stranded j := ⟨hs.cancelled, hempty, hnobody, hj⟩
      exact (hstranded.run hrun).imp_left fun hs' => ⟨hs'.waits, hs'.empty⟩
  · rintro ⟨after, s, j, hafter, hreturn, hj, hempty⟩
    -- another thread has taken the wake-up, and it has waited as well
    have hs := Run.hushed hbefore hraise hafter
    rcases hs.delivery.woken_of_empty hreturn hempty with ⟨-, k, hone⟩
    have hk : s₁.Waits k := Run.waits_of_woken hbefore hraise hafter k (by simp [hone])
    rcases hs.waits j hj with ⟨hwaits, hnot⟩
    exact ⟨j, k, by simpa [hone] using hnot, hwaits, hk⟩
  · rintro ⟨j, k, hjk, hj, hk⟩
    rcases exists_stranded (Run.calm hbefore) hraise hjk hj hk with
      ⟨after, s, hafter, hreturn, hs⟩
    exact ⟨after, s, j, hafter, hreturn, hs.waits, hs.empty⟩

/-- Thread 0 sleeps for ten seconds, and thread 1 cancels. -/
theorem Run.strands_iff_one :
    ∃ s₁ s₂ : Sleepers Nat, Run fresh [.quiet, .quiet, .quiet] s₁ ∧ Step s₁ (.raised 1) s₂ ∧
      s₁.doing 0 = .waiting ⟨10000000000⟩ ∧
      ¬ ∃ after s j, Run s₂ after s ∧ .cancelled 1 ∈ after ∧ s.Waits j ∧
        s.token.wake = false := by
  have hasleep : Run (fresh : Sleepers Nat) _ _ :=
    run_lie_down (i := 0) ⟨10000000000⟩ rfl rfl (by decide)
  have hbefore := hasleep.step (.cancel (i := 1) rfl)
  have hraise := Step.raise (i := 1)
    (s := (fresh.go 0 (.waiting ⟨10000000000⟩)).go 1 .raising) rfl rfl
  refine ⟨_, _, hbefore, hraise, rfl, ?_⟩
  rw [(strands_iff hbefore hraise).2]
  rintro ⟨j, k, hjk, hj, hk⟩
  have hzero : ∀ l, ((fresh.go 0 (.waiting ⟨10000000000⟩)).go 1 .raising : Sleepers Nat).Waits l →
      l = 0 := by
    intro l hl
    by_contra hne
    rcases (Waits.of_go hl (by simp)).2 with ⟨d, hd⟩
    simp [hne, fresh, start] at hd
  exact hjk ((hzero j hj).trans (hzero k hk).symm)

/-- Threads 0 and 1 sleep for ten seconds each, and thread 2 cancels. Its cancellation has returned,
the wake-up has ended the sleep of thread 0, and thread 1 waits with an empty slot. -/
theorem Run.leaves_behind :
    ∃ s : Sleepers Nat,
      Run fresh ([.quiet, .quiet, .quiet, .quiet, .quiet] ++
        .raised 2 :: [.cancelled 2, .woke 0]) s ∧
      s.doing 1 = .waiting ⟨10000000000⟩ ∧ ¬ ∀ j, s.Waits j → s.token.wake = true := by
  have hfirst : Run (fresh : Sleepers Nat) _ _ :=
    run_lie_down (i := 0) ⟨10000000000⟩ rfl rfl (by decide)
  have hsecond := hfirst.append (run_lie_down (i := 1) ⟨10000000000⟩ rfl rfl (by decide))
  have hraised := (hsecond.step (.cancel (i := 2) rfl)).step (.raise (i := 2) rfl rfl)
  have hrun := (hraised.step (.rouse (i := 2) rfl)).step (.wake (i := 0) rfl rfl)
  refine ⟨_, hrun, rfl, ?_⟩
  intro hserved
  cases hserved 1 ⟨_, rfl⟩

end Sleepers

end Beacon
