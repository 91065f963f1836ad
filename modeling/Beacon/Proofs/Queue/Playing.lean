import Beacon.Proofs.Sink.Faultless
import Beacon.Proofs.Source.Size
import Beacon.Queue

/-!
# Effects that are left alone

What a queue does while nobody acts on its panel and its light does not fail: a request that is not
stale is played from the first frame of its effect to the last one (`Queue.Idle.pushWith`), and then
the queue is idle again. What effects leave behind that are played one after the other is
`Effect.trail`.
-/

namespace Beacon

/-! ## Whole effects -/

namespace Effect

/-- How many frames an effect has, unless it never ends. -/
def size? (e : Effect) : Option Nat := (e.source (Random.Generator.ofSeed 0)).size?

/-- All frames of an effect that ends, for one seed of its jitter. -/
def frames (seed : UInt64) (e : Effect) : List Frame :=
  (e.source (Random.Generator.ofSeed seed)).take (e.size?.getD 0)

/-- The bytes of all lines of an effect that ends. -/
def bytes (seed : UInt64) (e : Effect) : List UInt8 :=
  (e.frames seed).flatMap fun frame => Text.encode frame.color.line

/-- The bytes of effects that are played whole one after the other, each with the next seed from a
generator. -/
def trail (g : Random.Generator) : List Effect → List UInt8
  | [] => []
  | e :: rest => e.bytes g.wide.1 ++ trail g.wide.2 rest

/-- A generator that has seeded some effects. -/
def seeded (g : Random.Generator) : List Effect → Random.Generator
  | [] => g
  | _ :: rest => seeded g.wide.2 rest

/-- The jitter changes the colours of a fire, not how many frames it has. -/
theorem size?_source (g : Random.Generator) (e : Effect) : (e.source g).size? = e.size? := by
  cases e <;> rfl

end Effect

/-! ## Quiet agendas -/

namespace Agenda

variable {σ : Type} {a : Agenda σ}

/-- Nothing happens during any line. -/
def Quiet (a : Agenda σ) : Prop := ∀ line x, a.during line x = x

theorem Quiet.throughout (h : a.Quiet) (line count : Nat) (x : Panel × σ) :
    a.throughout line count x = x := by
  induction count generalizing line with
  | zero => rfl
  | succ count ih => rw [Agenda.throughout, h, ih]

theorem quiet_ofTable_nil {α : Type} (act : α → Panel × σ → Panel × σ) :
    (ofTable [] act).Quiet := by
  intro line x
  simp [during, ofTable, entries]

end Agenda

/-! ## Idle queues -/

namespace Queue

variable {σ : Type} {a : Agenda σ} {q : Queue} {e : Effect} {n : Nat}

/-- A queue between two requests that has not been closed, on a light that does not fail. -/
structure Idle (q : Queue) : Prop where
  isOpen : q.panel.control.closed = false
  free : q.panel.control.active = none
  faultless : q.sink.behaviour.Faultless

/-- The light has taken some bytes more; nothing else has changed but the time. -/
structure Wrote (q : Queue) (data : List UInt8) (q' : Queue) : Prop where
  taken : q'.sink.taken.toList = q.sink.taken.toList ++ data
  behaviour : q'.sink.behaviour = q.sink.behaviour
  generator : q'.generator = q.generator
  panel : q'.panel = q.panel

theorem Wrote.trans {q₁ q₂ : Queue} {data more : List UInt8} (h₁ : q.Wrote data q₁)
    (h₂ : q₁.Wrote more q₂) : q.Wrote (data ++ more) q₂ where
  taken := by rw [h₂.taken, h₁.taken, List.append_assoc]
  behaviour := h₂.behaviour.trans h₁.behaviour
  generator := h₂.generator.trans h₁.generator
  panel := h₂.panel.trans h₁.panel

/-- Undisturbed, a frame is written whole. -/
theorem display_quiet (ha : a.Quiet) (hb : q.sink.behaviour.Faultless) (c : Color) (s : σ) :
    ∃ q', q.display a c s = (.ok (), q', s) ∧ q.Wrote (Text.encode c.line) q' := by
  have hok := Sink.writeFrame_faultless hb c
  have htaken := Sink.taken_writeFrame hb c
  have hbehaviour := Sink.writeFrame_behaviour q.sink c
  rw [← Color.encode_line] at htaken
  unfold display
  simp only [hok, ha.throughout]
  exact ⟨_, rfl, htaken, hbehaviour, rfl, rfl⟩

theorem wrote_hold (delay : Duration) (written : Nat) (q : Queue) :
    q.Wrote [] (q.hold delay written) := by
  unfold hold
  split <;> exact ⟨(List.append_nil _).symm, rfl, rfl, rfl⟩

/-- Undisturbed, what is left of an effect is shown to its end. The induction is on how much is
left. -/
theorem drain_quiet (ha : a.Quiet) (hb : q.sink.behaviour.Faultless) (hs : q.stopped = false)
    {source : Source Random.Generator} (hsize : source.size? = some n) {fuel : Nat}
    (hfuel : n < fuel) (shown : Nat) (s : σ) :
    ∃ q', drain a fuel shown source q s = some (.ok (.completed (shown + n)), q', s) ∧
      q.Wrote ((source.take n).flatMap fun frame => Text.encode frame.color.line) q' := by
  induction n generalizing q source fuel shown with
  | zero =>
    obtain ⟨fuel, rfl⟩ := Nat.exists_eq_succ_of_ne_zero (Nat.ne_of_gt hfuel)
    refine ⟨q, ?_, (List.append_nil _).symm, rfl, rfl, rfl⟩
    simp [drain, turn, hs, Source.size?_eq_zero_iff.1 hsize]
  | succ n ih =>
    obtain ⟨fuel, rfl⟩ := Nat.exists_eq_succ_of_ne_zero (Nat.ne_of_gt (Nat.zero_lt_of_lt hfuel))
    cases hnext : source.next with
    | none =>
      -- a source that is at its end has no frame left
      rw [Source.size?_eq_zero_iff.2 hnext] at hsize
      cases hsize
    | some pair =>
      rcases pair with ⟨frame, rest⟩
      have hrest : rest.size? = some n := by
        rw [Source.size?_of_next hnext] at hsize
        simpa using hsize
      -- the frame is shown and held, and nobody stops the effect meanwhile
      rcases display_quiet ha hb frame.color s with ⟨lit, hlit, hwrote⟩
      have hheld := hwrote.trans (wrote_hold frame.delay lit.clock.now lit)
      have hrunning : (lit.hold frame.delay lit.clock.now).stopped = false := by
        rw [stopped, hheld.panel]
        exact hs
      rcases ih (hheld.behaviour.symm ▸ hb) hrunning hrest (Nat.lt_of_succ_lt_succ hfuel)
        (shown + 1) with ⟨q', hdrain, hmore⟩
      refine ⟨q', ?_, ?_⟩
      · simp only [drain, turn, hs, hnext, hlit, Bool.false_eq_true, if_false]
        rw [hdrain, Nat.add_right_comm, Nat.add_assoc]
      · simpa [Source.take, hnext] using hheld.trans hmore

/-- What became of a queue that has played an effect of `n` frames whole. -/
structure Played (q : Queue) (e : Effect) (n : Nat) (q' : Queue) : Prop where
  taken : q'.sink.taken.toList = q.sink.taken.toList ++ e.bytes q.generator.wide.1
  behaviour : q'.sink.behaviour = q.sink.behaviour
  generator : q'.generator = q.generator.wide.2
  panel : q'.panel =
    q.panel.note .debug (e.name ++ " finished: " ++ (Outcome.completed n).text)

/-- An idle queue plays a request that is not stale whole, and is idle again. -/
theorem Idle.pushWith (h : q.Idle) (ha : a.Quiet) (hsize : e.size? = some n) (s : σ) :
    ∃ q', q.pushWith a q.panel.control.ticket e s = some (.ok (.completed n), q', s) ∧
      q.Played e n q' ∧ q'.Idle := by
  have hfresh : q.panel.control.isStale q.panel.control.ticket = false := by
    simp [Control.isStale, h.isOpen]
  let source := e.source (Random.Generator.ofSeed q.generator.wide.1)
  let started : Queue := { q with generator := q.generator.wide.2 }.setActive (some Token.fresh)
  have hstart : q.start q.panel.control.ticket e = some (source, started) := by
    simp [start, hfresh, source, started]
  have hsource : source.size? = some n := (Effect.size?_source _ e).trans hsize
  have henough : started.enough a source = n + 1 := by
    simp [enough, hsource]
  rcases drain_quiet (q := started) ha h.faultless rfl hsource (Nat.lt_succ_self n) 0 s with
    ⟨drained, hdrain, hwrote⟩
  have hfinish : drained.finish e.name (.ok (.completed n)) =
      { drained with
        panel := q.panel.note .debug (e.name ++ " finished: " ++ (Outcome.completed n).text) } := by
    -- the slot is as empty as it was before
    have hfree := h.free
    have hcontrol : { q.panel.control with active := none } = q.panel.control := by
      rw [← hfree]
    simp [finish, setActive, note, Panel.note, hwrote.panel, started, Control.setActive, hcontrol]
  refine ⟨drained.finish e.name (.ok (.completed n)), ?_, ?_, ?_⟩
  · simp only [Queue.pushWith, hstart, henough, hdrain, Nat.zero_add]
  · rw [hfinish]
    refine ⟨?_, hwrote.behaviour, hwrote.generator, rfl⟩
    unfold Effect.bytes Effect.frames
    rw [hsize]
    exact hwrote.taken
  · rw [hfinish]
    exact ⟨h.isOpen, h.free, hwrote.behaviour.symm ▸ h.faultless⟩

end Queue

end Beacon
