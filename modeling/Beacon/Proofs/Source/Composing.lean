import Beacon.Composing
import Beacon.Proofs.Source.Size

/-!
# Where effects stop

An effect that puts its frames into an output stops exactly where the output refuses one
(`Effect.compose_stops`). What it has put out by then are the first frames of its source, so an
output that refuses frame `n` has been given `n` frames, or all of the effect if it has fewer.
The frames of a source are found by their number: a cycle repeats (`Source.getElem?_take_cycle`),
and a fade goes up its ramp and down again (`Ramp.getElem?_cycle`).
-/

namespace Beacon

/-- An output that takes its frames up to the `n`-th, which it refuses. -/
structure Output.RefusesAt (wants : Output) (n : Nat) : Prop where
  accepts : ∀ put : List Frame, 0 < put.length → put.length < n → wants put = true
  refuses : ∀ put : List Frame, put.length = n → wants put = false

/-- A round less of a count that is positive is one less; a negative count stays. -/
theorem Rounds.pred?_ofCount {count : Int} (h : count ≠ 0) :
    (ofCount count).pred? = some (ofCount (if 0 < count then count - 1 else count)) := by
  unfold ofCount
  split
  · next hneg => simp [pred?, hneg, Int.not_lt.2 (Int.le_of_lt hneg)]
  · next hneg =>
    obtain ⟨m, hm⟩ : ∃ m : Nat, count = m + 1 := ⟨(count - 1).toNat, by omega⟩
    have hpos : 0 < count := by omega
    have htoNat : count.toNat = m + 1 := by omega
    have hless : (count - 1).toNat = m := by omega
    have hnot : ¬ count - 1 < 0 := by omega
    simp [hpos, htoNat, hless, hnot, pred?]

/-- The next frame of a fire that is not over. -/
theorem Flames.next_of_lt {γ : Type} [Random.Dice γ] (f : Flames γ) (h : f.shown < f.length) :
    (Source.flames f).next = some (⟨(sample f.shown f.length f.dice).1, f.delay⟩,
      .flames { f with shown := f.shown + 1, dice := (sample f.shown f.length f.dice).2 }) := by
  simp only [Source.next, next, if_pos h, Option.map_some]
  rfl

/-- What is done next goes on from the frames that were put out before. -/
theorem Composing.bind_eq {α β : Type} {x : Composing α} {go : α → Composing β} {a : α}
    {put after : List Frame} (h : x put = some (a, after)) : (x >>= go) put = go a after := by
  have hrun : (x >>= go) put = (x put).bind fun r => go r.1 r.2 := rfl
  rw [hrun, h, Option.bind_some]

theorem Composing.pure_eq {α : Type} (a : α) (put : List Frame) :
    (pure a : Composing α) put = some (a, put) := rfl

theorem forEachCycle_zero (cycle : Composing Bool) : forEachCycle cycle 0 = pure () := by
  change repeatM _ 0 >>= _ = _
  rw [repeatM_eq_of_monadTail, repeatM.body]
  rfl

/-- One run of a cycle, and then the others that are left: the first turn of the loop, which is a
`repeatM`, and the rest of it. -/
theorem forEachCycle_of_ne_zero (cycle : Composing Bool) {count : Int} (h : count ≠ 0) :
    forEachCycle cycle count = cycle >>= fun more =>
      if more then forEachCycle cycle (if 0 < count then count - 1 else count) else pure () := by
  change repeatM _ count >>= _ = cycle >>= fun more =>
    if more then repeatM _ (if 0 < count then count - 1 else count) >>= _ else pure ()
  conv => lhs; rw [repeatM_eq_of_monadTail, repeatM.body]
  simp only [if_pos h, bind_assoc]
  congr 1
  funext more
  cases more with
  | false => rfl
  | true => by_cases hpos : 0 < count <;> simp [hpos]
namespace Source

variable {γ : Type} [Random.Dice γ] {frames rest : List Frame} {rounds left : Rounds}

theorem take_of_next_eq_none {s : Source γ} (h : s.next = none) (m : Nat) : s.take m = [] := by
  cases m <;> simp [take, h]

/-- Where a round of a cycle begins, it begins with the first frame. -/
theorem take_cycle_of_pred? (hne : frames ≠ []) (h : rounds.pred? = some left) (m : Nat) :
    (cycle [] frames rounds : Source γ).take m = (cycle frames frames left : Source γ).take m := by
  obtain ⟨frame, tail, rfl⟩ := List.exists_cons_of_ne_nil hne
  cases m <;> simp [take, next, h]

/-- A round of a cycle is followed by the next one. -/
theorem take_cycle (rest frames : List Frame) (rounds : Rounds) (m : Nat) :
    (cycle rest frames rounds : Source γ).take m =
      rest.take m ++ (cycle [] frames rounds : Source γ).take (m - rest.length) := by
  induction rest generalizing m with
  | nil => simp
  | cons frame rest ih =>
    cases m with
    | zero => simp [take]
    | succ m => simp [take, next, ih]

/-- The frames of a cycle come again with each round. -/
theorem getElem?_take_cycle {m i : Nat} {frame : Frame}
    (h : ((cycle [] frames rounds : Source γ).take m)[i]? = some frame) :
    frames[i % frames.length]? = some frame := by
  induction m using Nat.strongRecOn generalizing rounds i with
  | ind m ih =>
    cases hnext : (cycle [] frames rounds : Source γ).next with
    | none =>
      rw [take_of_next_eq_none hnext] at h
      cases h
    | some pair =>
      rcases next_cycle_nil hnext with ⟨rest, left, hframes, hpred, -⟩
      have hne : frames ≠ [] := by simp [hframes]
      rw [take_cycle_of_pred? hne hpred, take_cycle] at h
      have hpos := List.length_pos_iff.2 hne
      rw [List.getElem?_append, List.length_take] at h
      split at h
      · -- in the first round
        next hfirst =>
        rw [Nat.mod_eq_of_lt (by omega)]
        rwa [List.getElem?_take_of_lt (by omega)] at h
      · -- in a later round, where the number starts anew
        next hlater =>
        by_cases hshort : m ≤ frames.length
        · rw [Nat.sub_eq_zero_of_le hshort] at h
          cases h
        · rw [Nat.min_eq_right (by omega)] at h hlater
          rw [Nat.mod_eq_sub_mod (by omega)]
          exact ih _ (by omega) h

omit [Random.Dice γ] in
theorem size?_cycle (hne : frames ≠ []) (count : Int) :
    (cycle [] frames (.ofCount count) : Source γ).size? =
      if count < 0 then none else some (frames.length * count.toNat) := by
  obtain ⟨frame, rest, rfl⟩ := List.exists_cons_of_ne_nil hne
  unfold Rounds.ofCount
  split
  · rfl
  · simp [size?, Nat.mul_comm]

/-- The delay of all frames that a source gives. -/
def Steady (d : Duration) : Source γ → Prop
  | cycle rest frames _ => ∀ frame ∈ rest ++ frames, frame.delay = d
  | course c => c.delay = d
  | flames f => f.delay = d

theorem Steady.next {d : Duration} {s after : Source γ} {frame : Frame} (h : s.Steady d)
    (hnext : s.next = some (frame, after)) : frame.delay = d ∧ after.Steady d := by
  cases s with
  | cycle now frames rounds =>
    cases now with
    | cons first now =>
      simp only [Source.next, Option.some.injEq, Prod.mk.injEq] at hnext
      rcases hnext with ⟨rfl, rfl⟩
      exact List.forall_mem_cons.1 h
    | nil =>
      -- another round begins, with the frames of the first one
      rcases next_cycle_nil hnext with ⟨rest, left, rfl, -, rfl⟩
      have hall : ∀ f ∈ frame :: rest, f.delay = d := h
      rcases List.forall_mem_cons.1 hall with ⟨hframe, hrest⟩
      exact ⟨hframe, List.forall_mem_append.2 ⟨hrest, hall⟩⟩
  | course c =>
    rcases Option.map_eq_some_iff.1 hnext with ⟨⟨first, later⟩, hcourse, heq⟩
    cases heq
    unfold Course.next at hcourse
    split at hcourse
    · cases hcourse
    · cases hcourse
      exact ⟨h, h⟩
  | flames f =>
    by_cases hlt : f.shown < f.length
    · rw [f.next_of_lt hlt] at hnext
      cases hnext
      exact ⟨h, h⟩
    · simp [Source.next, Flames.next, hlt] at hnext

theorem Steady.take {d : Duration} {s : Source γ} (h : s.Steady d) (m : Nat) :
    ∀ frame ∈ s.take m, frame.delay = d := by
  induction m generalizing s with
  | zero => simp [Source.take]
  | succ m ih =>
    cases hnext : s.next with
    | none => simp [Source.take, hnext]
    | some pair =>
      rcases pair with ⟨frame, after⟩
      rcases h.next hnext with ⟨hframe, hafter⟩
      simpa [Source.take, hnext, hframe] using ih hafter

end Source

namespace Ramp

variable (c : Color) (d : Duration)

theorem steps_pos : 0 < steps c := by
  unfold steps
  split
  · decide
  · next h => exact Nat.pos_of_ne_zero fun hzero => h (UInt8.toNat_inj.1 hzero)

theorem length_cycle : (cycle c d).length = 2 * steps c := by
  simp [cycle]
  omega

theorem cycle_ne_nil : cycle c d ≠ [] := by
  have hpos := steps_pos c
  refine List.ne_nil_of_length_pos ?_
  rw [length_cycle]
  omega

/-- The steps of a ramp lead up to the colour and down again. -/
theorem getElem?_cycle {j : Nat} (hj : j < 2 * steps c) :
    (cycle c d)[j]? = some ⟨color c (if j < steps c then j + 1 else 2 * steps c - 1 - j), d⟩ := by
  rw [cycle, List.getElem?_map, List.getElem?_append, List.length_range']
  split
  · next hup => simp [hup, Nat.add_comm]
  · next hdown =>
    have hback : j - steps c < (List.range (steps c)).length := by
      rw [List.length_range]
      omega
    have hstep : steps c - 1 - (j - steps c) = 2 * steps c - 1 - j := by omega
    have hlt : 2 * steps c - 1 - j < steps c := by omega
    rw [List.getElem?_reverse hback, List.length_range, hstep, List.getElem?_range hlt]
    rfl

end Ramp

namespace Output.RefusesAt

variable {wants : Output} {n : Nat} {put : List Frame}

theorem emit (h : wants.RefusesAt n) (hput : put.length < n) (frame : Frame) :
    wants.emit frame put = some (decide (put.length + 1 < n), put ++ [frame]) := by
  have hrun : wants.emit frame put = some (wants (put ++ [frame]), put ++ [frame]) := rfl
  rw [hrun]
  by_cases hlt : put.length + 1 < n
  · rw [h.accepts _ (by simp) (by simpa using hlt), decide_eq_true hlt]
  · have hlast : (put ++ [frame]).length = n := by
      rw [List.length_append, List.length_singleton]
      omega
    rw [h.refuses _ hlast, decide_eq_false hlt]

/-- Of frames that are put out one after the other, the output gets as many as it still takes. -/
theorem emitAll (h : wants.RefusesAt n) (hput : put.length < n) (frames : List Frame) :
    wants.emitAll frames put = some (decide (put.length + frames.length < n),
      put ++ frames.take (n - put.length)) := by
  induction frames generalizing put with
  | nil => simp [Output.emitAll, Composing.pure_eq, hput]
  | cons frame rest ih =>
    rw [Output.emitAll, Composing.bind_eq (h.emit hput frame)]
    by_cases hlt : put.length + 1 < n
    · obtain ⟨m, hm⟩ : ∃ m, n - put.length = m + 1 := ⟨n - put.length - 1, by omega⟩
      have hleft : n - (put.length + 1) = m := by omega
      rw [decide_eq_true hlt, if_pos rfl, ih (by simpa using hlt)]
      simp [hm, hleft, Nat.add_assoc, Nat.add_comm 1]
    · have hone : n - put.length = 1 := by omega
      have hfull : ¬ put.length + (frame :: rest).length < n := by
        rw [List.length_cons]
        omega
      rw [decide_eq_false hlt, if_neg Bool.false_ne_true, decide_eq_false hfull, hone]
      simp [Composing.pure_eq]

variable {γ : Type} [Random.Dice γ] {s rest : Source γ} {frame : Frame}

/-- Putting out the next frame of a source and then, if more are wanted, the others. -/
theorem emit_next (h : wants.RefusesAt n) (hput : put.length < n)
    (hnext : s.next = some (frame, rest)) {more : Composing Unit}
    (hmore : put.length + 1 < n →
      more (put ++ [frame]) = some ((), put ++ [frame] ++ rest.take (n - (put.length + 1)))) :
    (do if ← wants.emit frame then more) put = some ((), put ++ s.take (n - put.length)) := by
  obtain ⟨m, hm⟩ : ∃ m, n - put.length = m + 1 := ⟨n - put.length - 1, by omega⟩
  have hleft : n - (put.length + 1) = m := by omega
  rw [Composing.bind_eq (h.emit hput frame), hm, Source.take, hnext]
  by_cases hlt : put.length + 1 < n
  · rw [decide_eq_true hlt, if_pos rfl, hmore hlt, hleft]
    simp
  · have hzero : m = 0 := by omega
    rw [decide_eq_false hlt, if_neg Bool.false_ne_true, hzero]
    simp [Composing.pure_eq, Source.take]

/-- A cycle is run until the output refuses a frame, in whatever round and wherever in it, or all
rounds have been run. What is left of the room in the output falls with each round. -/
theorem forEachCycle {frames : List Frame} (h : wants.RefusesAt n) (hput : put.length < n)
    (hne : frames ≠ []) (count : Int) :
    Beacon.forEachCycle (wants.emitAll frames) count put = some ((), put ++
      (Source.cycle [] frames (.ofCount count) : Source γ).take (n - put.length)) := by
  induction hroom : n - put.length using Nat.strongRecOn generalizing put count with
  | ind room ih =>
    by_cases hcount : count = 0
    · have hnext : (Source.cycle [] frames (.ofCount 0) : Source γ).next = none := by
        simp [Rounds.ofCount, Source.next, Rounds.pred?]
      rw [hcount, forEachCycle_zero, Source.take_of_next_eq_none hnext, List.append_nil,
        Composing.pure_eq]
    · have hpred : (Rounds.ofCount count).pred? =
          some (.ofCount (if 0 < count then count - 1 else count)) := Rounds.pred?_ofCount hcount
      rw [forEachCycle_of_ne_zero _ hcount, Composing.bind_eq (h.emitAll hput frames),
        Source.take_cycle_of_pred? hne hpred, Source.take_cycle, hroom]
      by_cases hlt : put.length + frames.length < n
      · -- the whole cycle is wanted, and there is less room for the next ones
        have hall : frames.take room = frames := List.take_of_length_le (by omega)
        have hless : n - (put ++ frames).length < room := by
          have hpos := List.length_pos_iff.2 hne
          rw [List.length_append]
          omega
        rw [decide_eq_true hlt, if_pos rfl, hall, ih _ hless (by simpa using hlt) _ rfl]
        rw [List.length_append, ← hroom, Nat.sub_sub, List.append_assoc]
      · -- the last frame that is wanted is within this cycle
        have hfull : room - frames.length = 0 := by omega
        rw [decide_eq_false hlt, if_neg Bool.false_ne_true, hfull, Source.take, List.append_nil,
          Composing.pure_eq]

theorem course (h : wants.RefusesAt n) (hput : put.length < n) (c : Course) :
    Course.compose wants c.left c put =
      some ((), put ++ (Source.course c : Source γ).take (n - put.length)) := by
  induction hleft : c.left generalizing c put with
  | zero =>
    have hnext : (Source.course c : Source γ).next = none := by
      simp [Source.next, Course.next, hleft]
    rw [Source.take_of_next_eq_none hnext, List.append_nil]
    rfl
  | succ left ih =>
    have hnext : (Source.course c : Source γ).next = some (⟨c.advance.color, c.delay⟩,
        .course { c with left, current := c.advance }) := by
      simp [Source.next, Course.next, hleft]
    refine h.emit_next hput hnext fun hlt => ?_
    have hput' : (put ++ [(⟨c.advance.color, c.delay⟩ : Frame)]).length < n := by simpa using hlt
    rw [ih hput' { c with left, current := c.advance } rfl]
    simp

theorem flames (h : wants.RefusesAt n) (hput : put.length < n) (f : Flames γ) :
    Flames.compose wants f.length f.delay (List.range' f.shown (f.length - f.shown)) f.dice put =
      some ((), put ++ (Source.flames f).take (n - put.length)) := by
  induction hleft : f.length - f.shown generalizing f put with
  | zero =>
    have hnext : (Source.flames f).next = none := by
      have hover : ¬ f.shown < f.length := by omega
      simp [Source.next, Flames.next, hover]
    rw [Source.take_of_next_eq_none hnext, List.append_nil]
    rfl
  | succ left ih =>
    have hlt : f.shown < f.length := by omega
    refine h.emit_next hput (f.next_of_lt hlt) fun hroom => ?_
    let drawn := Flames.sample f.shown f.length f.dice
    let later : Flames γ := { f with shown := f.shown + 1, dice := drawn.2 }
    have hput' : (put ++ [(⟨drawn.1, f.delay⟩ : Frame)]).length < n := by simpa using hroom
    have hlater : later.length - later.shown = left :=
      (Nat.sub_succ f.length f.shown).trans (by rw [hleft, Nat.pred_succ])
    have hmore := ih hput' later hlater
    rw [List.length_append, List.length_singleton] at hmore
    exact hmore

end Output.RefusesAt

theorem Output.emit_and_emit (wants : Output) (first second : Frame) :
    (wants.emit first <&&> wants.emit second) = wants.emitAll [first, second] := by
  have hsecond : wants.emitAll [second] = wants.emit second := by
    have hpure : ∀ more : Bool, (if more = true then pure true else pure false : Composing Bool) =
        pure more := by
      intro more
      cases more <;> rfl
    simp only [Output.emitAll, hpure, bind_pure]
  rw [Output.emitAll, hsecond, andM]
  congr 1
  funext more
  cases more <;> rfl

namespace Effect

variable {γ : Type} [Random.Dice γ]

/-- An effect stops where its output refuses a frame, and has put out the first frames of its source
by then. -/
theorem compose_eq {wants : Output} {n : Nat} (h : wants.RefusesAt n) (hn : 0 < n) (e : Effect)
    (dice : γ) : e.compose wants dice [] = some ((), (e.source dice).take n) := by
  have hempty : ([] : List Frame).length < n := hn
  cases e with
  | solid color =>
    have hover (m : Nat) : (Source.cycle [] [] (.times 0) : Source γ).take m = [] :=
      Source.take_of_next_eq_none rfl m
    have hone : [Frame.mk color Duration.zero].take n = [⟨color, Duration.zero⟩] :=
      List.take_of_length_le hn
    rw [compose, Composing.bind_eq (h.emit hempty _), source, Source.take_cycle, hover, hone]
    rfl
  | flash p =>
    rw [compose, Output.emit_and_emit]
    exact h.forEachCycle hempty (by simp) p.count
  | fade p =>
    exact h.forEachCycle hempty (Ramp.cycle_ne_nil p.color p.delay) p.count
  | blend start goal duration => exact h.course hempty (.ofBlend start goal duration)
  | fire p =>
    have hflames := h.flames hempty (⟨p.count.toNat, 0, p.delay, dice⟩ : Flames γ)
    rw [Nat.sub_zero, ← List.range_eq_range'] at hflames
    exact hflames

/-- How many frames an effect has, unless it never ends. -/
def total : Effect → Option Nat
  | solid _ => some 1
  | flash p => if p.count < 0 then none else some (2 * p.count.toNat)
  | fade p => if p.count < 0 then none else some (2 * Ramp.steps p.color * p.count.toNat)
  | blend _ _ duration => some (Course.samples duration)
  | fire p => some p.count.toNat

/-- How long each frame of an effect stays. -/
def delay : Effect → Duration
  | solid _ => Duration.zero
  | flash p | fade p | fire p => p.delay
  | blend _ _ duration => ⟨duration.nanos / Course.samples duration⟩

/-- The colour of a frame of an effect by its number, where it does not take those before it to say:
a flash changes between the colour and darkness, and a fade goes up its ramp and down again. -/
def colorAt? (i : Nat) : Effect → Option Color
  | solid color => some color
  | flash p => some (if i % 2 = 0 then p.color else Color.black)
  | fade p =>
    let steps := Ramp.steps p.color
    let j := i % (2 * steps)
    some (Ramp.color p.color (if j < steps then j + 1 else 2 * steps - 1 - j))
  | blend .. | fire _ => none

omit [Random.Dice γ] in
theorem size?_source_eq_total (e : Effect) (dice : γ) : (e.source dice).size? = e.total := by
  cases e with
  | solid color => rfl
  | flash p => exact Source.size?_cycle (by simp [flashCycle]) p.count
  | fade p =>
    rw [source, Source.size?_cycle (Ramp.cycle_ne_nil p.color p.delay), Ramp.length_cycle]
    rfl
  | blend start goal duration => rfl
  | fire p => rfl

omit [Random.Dice γ] in
theorem steady_source (e : Effect) (dice : γ) : (e.source dice).Steady e.delay := by
  cases e with
  | solid color => simp [source, Source.Steady, delay]
  | flash p => simp [source, Source.Steady, delay, flashCycle]
  | fade p =>
    intro frame hframe
    rcases List.mem_map.1 hframe with ⟨step, -, rfl⟩
    rfl
  | blend start goal duration => rfl
  | fire p => rfl

theorem length_take_source (e : Effect) (dice : γ) (n : Nat) :
    ((e.source dice).take n).length = e.total.elim n (min n) := by
  have hsize := e.size?_source_eq_total dice
  cases htotal : e.total with
  | none => exact Source.length_take_of_endless (hsize.trans htotal) n
  | some m => exact Source.length_take (hsize.trans htotal) n

theorem color_of_getElem? {e : Effect} {dice : γ} {n i : Nat} {frame : Frame} {color : Color}
    (h : ((e.source dice).take n)[i]? = some frame) (hcolor : e.colorAt? i = some color) :
    frame.color = color := by
  cases e with
  | solid c =>
    rw [source, Source.take_cycle, Source.take_of_next_eq_none rfl, List.append_nil] at h
    have hmem := List.mem_of_mem_take (List.mem_of_getElem? h)
    rw [List.mem_singleton.1 hmem, Option.some.inj hcolor]
  | flash p =>
    have hflash : (flashCycle p)[i % 2]? = some frame := Source.getElem?_take_cycle h
    rw [← Option.some.inj hcolor]
    rcases Nat.mod_two_eq_zero_or_one i with hi | hi
    · rw [hi] at hflash ⊢
      rw [← Option.some.inj hflash, if_pos rfl]
    · rw [hi] at hflash ⊢
      rw [← Option.some.inj hflash, if_neg Nat.one_ne_zero]
  | fade p =>
    have hpos := Ramp.steps_pos p.color
    have hfade := Source.getElem?_take_cycle h
    rw [Ramp.length_cycle, Ramp.getElem?_cycle _ _ (Nat.mod_lt _ (by omega))] at hfade
    rw [← Option.some.inj hfade, ← Option.some.inj hcolor]
  | blend | fire => cases hcolor

/-- An effect stops exactly where its output refuses a frame. -/
theorem compose_stops (e : Effect) (dice : γ) {wants : Output} {n : Nat} (hn : 0 < n)
    (h : wants.RefusesAt n) :
    ∃ put, e.compose wants dice [] = some ((), put) ∧ put = (e.source dice).take n ∧
      put.length = e.total.elim n (min n) ∧
      ∀ i frame, put[i]? = some frame →
        frame.delay = e.delay ∧ ∀ color, e.colorAt? i = some color → frame.color = color := by
  refine ⟨_, compose_eq h hn e dice, rfl, length_take_source e dice n, fun i frame hframe => ?_⟩
  refine ⟨(steady_source e dice).take n frame (List.mem_of_getElem? hframe), fun color hcolor => ?_⟩
  exact color_of_getElem? hframe hcolor

/-- A flash without end, into an output that takes two frames and refuses the third. -/
theorem compose_stops_flash :
    Output.RefusesAt (fun put => decide (put.length < 3)) 3 ∧
      (flash ⟨⟨1000⟩, ⟨255, 0, 0⟩, -1⟩).compose (fun put => decide (put.length < 3))
        (Random.Generator.ofSeed 7) [] =
        some ((), [⟨⟨255, 0, 0⟩, ⟨1000⟩⟩, ⟨Color.black, ⟨1000⟩⟩, ⟨⟨255, 0, 0⟩, ⟨1000⟩⟩]) := by
  have hrefuses : Output.RefusesAt (fun put => decide (put.length < 3)) 3 :=
    ⟨fun put _ hlt => decide_eq_true hlt, fun put hlength => by simp [hlength]⟩
  rcases compose_stops (flash ⟨⟨1000⟩, ⟨255, 0, 0⟩, -1⟩) (Random.Generator.ofSeed 7)
    (by decide : 0 < 3) hrefuses with ⟨put, hput, rfl, -⟩
  exact ⟨hrefuses, hput⟩

end Effect

end Beacon
