import Beacon.Proofs.Sink.Faultless

/-!
# Writing to any sink

What becomes of a sink that may take any number of bytes at a time and may fail at any call. It has
taken all that it was to take, or a proper first part of it before it refused to go on
(`Sink.writeAll_cases`); so a frame has been written whole and flushed, or its line was broken off,
or the whole line was taken and could not be flushed (`Sink.writeFrame_cases`). Frames that are
written one after the other end with the first that fails (`Sink.writeFrames`).

Nothing that a sink has done before matters for what it does: two sinks that will answer alike go on
alike (`Sink.Alike`).
-/

namespace Beacon

namespace Color

/-- The bytes of the line that shows a colour, with its end. -/
def wire (c : Color) : List UInt8 := Text.encode c.line

theorem wire_eq (c : Color) : c.wire = c.lineBytes ++ [Sink.newline] := encode_line c

theorem count_newline_wire (c : Color) : c.wire.count Sink.newline = 1 := by
  rw [wire_eq, List.count_append, List.count_eq_zero_of_not_mem c.newline_notMem_lineBytes]
  rfl

theorem wire_ne_nil (c : Color) : c.wire ≠ [] := by
  simp [wire_eq]

end Color

namespace Sink

/-! ## What a sink takes -/

/-- A sink has taken some bytes more, and behaves as before. -/
structure Took (s : Sink) (data : List UInt8) (s' : Sink) : Prop where
  taken : s'.taken.toList = s.taken.toList ++ data
  completed : s'.completed = s.completed + data.count newline
  behaviour : s'.behaviour = s.behaviour

theorem Took.nil {s s' : Sink} (htaken : s'.taken = s.taken)
    (hcompleted : s'.completed = s.completed) (hbehaviour : s'.behaviour = s.behaviour) :
    s.Took [] s' :=
  ⟨by simp [htaken], hcompleted, hbehaviour⟩

theorem Took.refl (s : Sink) : s.Took [] s := .nil rfl rfl rfl

theorem Took.trans {s s₁ s₂ : Sink} {data more : List UInt8} (h : s.Took data s₁)
    (h' : s₁.Took more s₂) : s.Took (data ++ more) s₂ where
  taken := by rw [h'.taken, h.taken, List.append_assoc]
  completed := by rw [h'.completed, h.completed, List.count_append, Nat.add_assoc]
  behaviour := h'.behaviour.trans h.behaviour

/-- The last call of `write` has ended the writing with this error: it failed with it, and was not
interrupted, or it took nothing of what it was offered. -/
def Refused (s : Sink) (e : IoError) : Prop :=
  s.behaviour.write s.writes = .fails e ∧ e.kind ≠ .interrupted ∨
    s.behaviour.write s.writes = .atMost 0 ∧ e = .writeZero

/-- One call of `write` takes a first part of the bytes, as many as it says. -/
theorem took_write {s : Sink} {data : List UInt8} {n : Nat} (h : (s.write data).1 = .ok n) :
    n ≤ data.length ∧ s.Took (data.take n) (s.write data).2 := by
  unfold write at h ⊢
  dsimp only at h ⊢
  split at h
  · rcases Except.ok.inj h with rfl
    simp only [List.take_length]
    exact ⟨Nat.le_refl _, by simp [take], rfl, rfl⟩
  · next limit hw =>
    rcases Except.ok.inj h with rfl
    refine ⟨Nat.min_le_right _ _, ?_⟩
    rw [← List.take_eq_take_min]
    exact ⟨by simp [take], rfl, rfl⟩
  · cases h

/-- A call that fails takes nothing. -/
theorem took_write_of_error {s : Sink} {data : List UInt8} {e : IoError}
    (h : (s.write data).1 = .error e) : s.Took [] (s.write data).2 := by
  have hw := write_eq_error h
  unfold write
  simp only [hw]
  exact .nil rfl rfl rfl

/-- A call that takes nothing of what it is offered refuses. -/
theorem refused_of_write_zero {s : Sink} {data : List UInt8} (hdata : data ≠ [])
    (h : (s.write data).1 = .ok 0) : (s.write data).2.Refused .writeZero := by
  have hpos : 0 < data.length := List.length_pos_iff.2 hdata
  right
  rw [write_behaviour, write_writes]
  unfold write at h
  dsimp only at h
  split at h
  · exact absurd (Except.ok.inj h) (by omega)
  · next limit hw =>
    have hlimit : min limit data.length = 0 := Except.ok.inj h
    have hzero : limit = 0 := by omega
    exact ⟨hzero ▸ hw, rfl⟩
  · cases h

/-- All bytes are taken, or a proper first part of them, and then the sink refuses. The induction is
on the calls of `write`. -/
theorem writeAll_cases (s : Sink) (data : List UInt8) :
    (s.writeAll data).1 = .ok () ∧ s.Took data (s.writeAll data).2 ∨
      ∃ e k, (s.writeAll data).1 = .error e ∧ k < data.length ∧
        s.Took (data.take k) (s.writeAll data).2 ∧ (s.writeAll data).2.Refused e := by
  fun_induction writeAll s data with
  | case1 s => exact Or.inl ⟨rfl, .refl s⟩
  | case2 s data hne hzero =>
    have hpos : 0 < data.length := List.length_pos_iff.2 hne
    exact Or.inr ⟨_, 0, rfl, hpos, (took_write hzero).2, refused_of_write_zero hne hzero⟩
  | case3 s data hne n hn ih =>
    -- some bytes were taken, and the rest is written next
    rcases took_write hn with ⟨hle, htook⟩
    rcases ih with ⟨hok, hrest⟩ | ⟨e, k, herror, hk, hrest, hrefused⟩
    · have hwhole := htook.trans hrest
      rw [List.take_append_drop] at hwhole
      exact Or.inl ⟨hok, hwhole⟩
    · refine Or.inr ⟨e, n + 1 + k, herror, ?_, ?_, hrefused⟩
      · rw [List.length_drop] at hk
        omega
      · rw [List.take_add]
        exact htook.trans hrest
  | case4 s data hne e he hint ih =>
    -- a write that was interrupted took nothing, and is made again
    have htook := took_write_of_error he
    rcases ih with ⟨hok, hrest⟩ | ⟨e', k, herror, hk, hrest, hrefused⟩
    · exact Or.inl ⟨hok, htook.trans hrest⟩
    · exact Or.inr ⟨e', k, herror, hk, htook.trans hrest, hrefused⟩
  | case5 s data hne e he hint =>
    have hpos : 0 < data.length := List.length_pos_iff.2 hne
    refine Or.inr ⟨e, 0, rfl, hpos, took_write_of_error he, Or.inl ⟨?_, hint⟩⟩
    rw [write_behaviour, write_writes]
    exact write_eq_error he

theorem took_flush (s : Sink) : s.Took [] s.flush.2 := by
  unfold flush
  dsimp only
  split <;> exact .nil rfl rfl rfl

/-- A flush answers as the behaviour has it. -/
theorem flush_eq_error {s : Sink} {e : IoError} (h : s.flush.1 = .error e) :
    s.flush.2.behaviour.flush s.flush.2.flushes = some e := by
  unfold flush at h ⊢
  dsimp only at h ⊢
  split at h
  · cases h
  · next hf =>
    rcases Except.error.inj h with rfl
    simp [hf]

/-! ## Frames -/

/-- How a frame fails: its line breaks off, because the sink refused, or it cannot be flushed. -/
inductive FrameFails (s : Sink) (c : Color) (e : IoError) (s' : Sink) : Prop
  | broken (k : Nat) (hk : k < c.wire.length) (htook : s.Took (c.wire.take k) s')
      (hrefused : s'.Refused e)
  | unflushed (htook : s.Took c.wire s') (hflush : s'.behaviour.flush s'.flushes = some e)

/-- A frame is written whole, or fails. -/
theorem writeFrame_cases (s : Sink) (c : Color) :
    (s.writeFrame c).1 = .ok () ∧ s.Took c.wire (s.writeFrame c).2 ∨
      ∃ e, (s.writeFrame c).1 = .error e ∧ FrameFails s c e (s.writeFrame c).2 := by
  unfold writeFrame
  rcases writeAll_cases s (Text.encode c.line) with
    ⟨hok, htook⟩ | ⟨e, k, herror, hk, htook, hrefused⟩
  · split
    · next s₁ hsplit =>
      rw [hsplit] at htook
      have hflushed := htook.trans (took_flush s₁)
      rw [List.append_nil] at hflushed
      cases hf : s₁.flush.1 with
      | ok => exact Or.inl ⟨rfl, hflushed⟩
      | error e => exact Or.inr ⟨e, rfl, .unflushed hflushed (flush_eq_error hf)⟩
    · next hsplit =>
      rw [hsplit] at hok
      cases hok
  · split
    · next hsplit =>
      rw [hsplit] at herror
      cases herror
    · next e' s₁ hsplit =>
      rw [hsplit] at herror htook hrefused
      rcases Except.error.inj herror with rfl
      exact Or.inr ⟨e', rfl, .broken k hk htook hrefused⟩

/-- A frame that is written has its line taken whole and then flushed. -/
theorem exists_of_writeFrame_eq_ok {s : Sink} {c : Color} (h : (s.writeFrame c).1 = .ok ()) :
    ∃ s₁, s.writeAll c.wire = (.ok (), s₁) ∧ s.writeFrame c = s₁.flush ∧ s₁.flush.1 = .ok () := by
  unfold writeFrame at h ⊢
  split at h
  · next s₁ hsplit => exact ⟨s₁, hsplit, rfl, h⟩
  · cases h

/-- Writes frames one after the other, up to the first that fails. -/
def writeFrames (s : Sink) : List Color → Except IoError Unit × Sink
  | [] => (.ok (), s)
  | c :: rest =>
    match s.writeFrame c with
    | (.ok (), s) => s.writeFrames rest
    | (.error e, s) => (.error e, s)

theorem writeFrames_cons_of_ok {s : Sink} {c : Color} (h : (s.writeFrame c).1 = .ok ())
    (rest : List Color) : s.writeFrames (c :: rest) = (s.writeFrame c).2.writeFrames rest := by
  rw [writeFrames]
  split
  · next hsplit => rw [hsplit]
  · next hsplit =>
    rw [hsplit] at h
    cases h

theorem writeFrames_cons_of_error {s : Sink} {c : Color} {e : IoError}
    (h : (s.writeFrame c).1 = .error e) (rest : List Color) :
    s.writeFrames (c :: rest) = (.error e, (s.writeFrame c).2) := by
  rw [writeFrames]
  split
  · next hsplit =>
    rw [hsplit] at h
    cases h
  · next hsplit =>
    rw [hsplit] at h ⊢
    exact Prod.ext h rfl

/-- More frames are written only if none of the first ones has failed. -/
theorem writeFrames_append (s : Sink) (cs ds : List Color) :
    s.writeFrames (cs ++ ds) = match s.writeFrames cs with
      | (.ok (), s) => s.writeFrames ds
      | (.error e, s) => (.error e, s) := by
  induction cs generalizing s with
  | nil => rfl
  | cons c cs ih =>
    rw [List.cons_append]
    cases hc : (s.writeFrame c).1 with
    | ok => rw [writeFrames_cons_of_ok hc, writeFrames_cons_of_ok hc, ih]
    | error e => rw [writeFrames_cons_of_error hc, writeFrames_cons_of_error hc]

/-- Frames that do not fail are taken whole, and each of them completes a line. -/
theorem took_writeFrames {s : Sink} {cs : List Color} (h : (s.writeFrames cs).1 = .ok ()) :
    s.Took (cs.flatMap Color.wire) (s.writeFrames cs).2 ∧
      (s.writeFrames cs).2.completed = s.completed + cs.length := by
  induction cs generalizing s with
  | nil => exact ⟨.refl s, rfl⟩
  | cons c cs ih =>
    rcases writeFrame_cases s c with ⟨hok, htook⟩ | ⟨e, herror, -⟩
    · rw [writeFrames_cons_of_ok hok] at h ⊢
      rcases ih h with ⟨hrest, hcompleted⟩
      refine ⟨htook.trans hrest, ?_⟩
      rw [hcompleted, htook.completed, c.count_newline_wire, List.length_cons]
      omega
    · rw [writeFrames_cons_of_error herror] at h
      cases h

/-- Of frames that do not all get written, one was the first to fail. -/
theorem exists_of_writeFrames_eq_error {s : Sink} {cs : List Color} {e : IoError}
    (h : (s.writeFrames cs).1 = .error e) :
    ∃ before c after, cs = before ++ c :: after ∧ (s.writeFrames before).1 = .ok () ∧
      (s.writeFrames before).2.writeFrame c = (.error e, (s.writeFrames cs).2) := by
  induction cs generalizing s with
  | nil => cases h
  | cons c cs ih =>
    cases hc : (s.writeFrame c).1 with
    | ok =>
      rw [writeFrames_cons_of_ok hc] at h ⊢
      rcases ih h with ⟨before, d, after, rfl, hbefore, hd⟩
      refine ⟨c :: before, d, after, rfl, ?_⟩
      rw [writeFrames_cons_of_ok hc]
      exact ⟨hbefore, hd⟩
    | error e' =>
      rw [writeFrames_cons_of_error hc] at h ⊢
      rcases Except.error.inj h with rfl
      exact ⟨[], c, cs, rfl, rfl, Prod.ext hc rfl⟩

/-- The first frame that fails is the last one of which anything is written. -/
theorem writeFrames_of_fails {s : Sink} {before : List Color} {c : Color} {e : IoError}
    (h : (s.writeFrames before).1 = .ok ())
    (hfails : ((s.writeFrames before).2.writeFrame c).1 = .error e) (after : List Color) :
    s.writeFrames (before ++ c :: after) =
      (.error e, ((s.writeFrames before).2.writeFrame c).2) := by
  rw [writeFrames_append]
  rcases hbefore : s.writeFrames before with ⟨result, s₁⟩
  rw [hbefore] at h hfails
  cases h
  exact writeFrames_cons_of_error hfails after

/-- On a faultless sink all frames are written. -/
theorem writeFrames_faultless {s : Sink} (hb : s.behaviour.Faultless) (cs : List Color) :
    (s.writeFrames cs).1 = .ok () := by
  induction cs generalizing s with
  | nil => rfl
  | cons c cs ih =>
    rw [writeFrames_cons_of_ok (writeFrame_faultless hb c)]
    exact ih ((writeFrame_behaviour s c).symm ▸ hb)

/-! ## Sinks that answer alike -/

/-- Two sinks answer alike from here on. -/
structure Alike (s t : Sink) : Prop where
  write : ∀ n, s.behaviour.write (s.writes + 1 + n) = t.behaviour.write (t.writes + 1 + n)
  flush : ∀ n, s.behaviour.flush (s.flushes + 1 + n) = t.behaviour.flush (t.flushes + 1 + n)

/-- Two sinks have taken the same bytes, and answer alike from here on. -/
structure Abreast (s t s' t' : Sink) : Prop where
  alike : s'.Alike t'
  took : ∃ more, s.Took more s' ∧ t.Took more t'

theorem Abreast.trans {s t s₁ t₁ s₂ t₂ : Sink} (h : Abreast s t s₁ t₁)
    (h' : Abreast s₁ t₁ s₂ t₂) : Abreast s t s₂ t₂ := by
  rcases h.took with ⟨data, hs, ht⟩
  rcases h'.took with ⟨more, hs', ht'⟩
  exact ⟨h'.alike, data ++ more, hs.trans hs', ht.trans ht'⟩

variable {s t : Sink}

theorem Alike.write_eq (h : s.Alike t) (data : List UInt8) :
    (s.write data).1 = (t.write data).1 ∧ Abreast s t (s.write data).2 (t.write data).2 := by
  have hanswer : s.behaviour.write (s.writes + 1) = t.behaviour.write (t.writes + 1) := h.write 0
  have hlater : ∀ n, s.behaviour.write (s.writes + 1 + 1 + n) =
      t.behaviour.write (t.writes + 1 + 1 + n) := by
    intro n
    have hn := h.write (n + 1)
    rwa [Nat.add_comm n 1, ← Nat.add_assoc, ← Nat.add_assoc] at hn
  cases ht : t.behaviour.write (t.writes + 1) with
  | whole =>
    simp only [Sink.write, hanswer, ht]
    exact ⟨trivial, ⟨hlater, h.flush⟩, data, ⟨by simp [take], rfl, rfl⟩, by simp [take], rfl, rfl⟩
  | atMost limit =>
    simp only [Sink.write, hanswer, ht]
    exact ⟨trivial, ⟨hlater, h.flush⟩, data.take limit, ⟨by simp [take], rfl, rfl⟩, by simp [take],
      rfl, rfl⟩
  | fails e =>
    simp only [Sink.write, hanswer, ht]
    exact ⟨trivial, ⟨hlater, h.flush⟩, [], .nil rfl rfl rfl, .nil rfl rfl rfl⟩

theorem Alike.flush_eq (h : s.Alike t) :
    s.flush.1 = t.flush.1 ∧ Abreast s t s.flush.2 t.flush.2 := by
  have hanswer : s.behaviour.flush (s.flushes + 1) = t.behaviour.flush (t.flushes + 1) := h.flush 0
  have hlater : ∀ n, s.behaviour.flush (s.flushes + 1 + 1 + n) =
      t.behaviour.flush (t.flushes + 1 + 1 + n) := by
    intro n
    have hn := h.flush (n + 1)
    rwa [Nat.add_comm n 1, ← Nat.add_assoc, ← Nat.add_assoc] at hn
  cases ht : t.behaviour.flush (t.flushes + 1) <;> simp only [Sink.flush, hanswer, ht] <;>
    exact ⟨trivial, ⟨h.write, hlater⟩, [], .nil rfl rfl rfl, .nil rfl rfl rfl⟩

/-- What writing bytes comes to, by the answer to its first call of `write`. -/
theorem writeAll_of_ne_nil (s : Sink) {data : List UInt8} (hdata : data ≠ []) :
    s.writeAll data = match (s.write data).1 with
      | .ok 0 => (.error .writeZero, (s.write data).2)
      | .ok (n + 1) => (s.write data).2.writeAll (data.drop (n + 1))
      | .error e =>
        if e.kind = .interrupted then (s.write data).2.writeAll data
        else (.error e, (s.write data).2) := by
  rw [writeAll, if_neg hdata]
  split <;> simp [*]

/-- The first answer of one sink says how the other one goes on. -/
theorem Alike.writeAll_of_ne_nil (h : s.Alike t) {data : List UInt8} (hdata : data ≠ []) :
    t.writeAll data = match (s.write data).1 with
      | .ok 0 => (.error .writeZero, (t.write data).2)
      | .ok (n + 1) => (t.write data).2.writeAll (data.drop (n + 1))
      | .error e =>
        if e.kind = .interrupted then (t.write data).2.writeAll data
        else (.error e, (t.write data).2) := by
  rw [(h.write_eq data).1]
  exact t.writeAll_of_ne_nil hdata

theorem Alike.writeAll_eq (h : s.Alike t) (data : List UInt8) :
    (s.writeAll data).1 = (t.writeAll data).1 ∧
      Abreast s t (s.writeAll data).2 (t.writeAll data).2 := by
  fun_induction writeAll s data generalizing t with
  | case1 s =>
    rw [writeAll, if_pos rfl]
    exact ⟨rfl, h, [], .refl s, .refl t⟩
  | case2 s data hne hzero =>
    rw [h.writeAll_of_ne_nil hne, hzero]
    exact ⟨rfl, (h.write_eq data).2⟩
  | case3 s data hne n hn ih =>
    rw [h.writeAll_of_ne_nil hne, hn]
    have habreast := (h.write_eq data).2
    rcases ih habreast.alike with ⟨hresult, hrest⟩
    exact ⟨hresult, habreast.trans hrest⟩
  | case4 s data hne e he hint ih =>
    rw [h.writeAll_of_ne_nil hne, he]
    simp only [if_pos hint]
    have habreast := (h.write_eq data).2
    rcases ih habreast.alike with ⟨hresult, hrest⟩
    exact ⟨hresult, habreast.trans hrest⟩
  | case5 s data hne e he hint =>
    rw [h.writeAll_of_ne_nil hne, he]
    simp only [if_neg hint, true_and]
    exact (h.write_eq data).2

/-- Sinks that answer alike write a frame alike. -/
theorem Alike.writeFrame_eq (h : s.Alike t) (c : Color) :
    (s.writeFrame c).1 = (t.writeFrame c).1 ∧
      Abreast s t (s.writeFrame c).2 (t.writeFrame c).2 := by
  rcases h.writeAll_eq (Text.encode c.line) with ⟨hresult, habreast⟩
  unfold writeFrame
  rcases hs : s.writeAll (Text.encode c.line) with ⟨result, s₁⟩
  rcases ht : t.writeAll (Text.encode c.line) with ⟨result', t₁⟩
  rw [hs, ht] at hresult habreast
  rcases (show result = result' from hresult) with rfl
  cases result with
  | ok =>
    rcases habreast.alike.flush_eq with ⟨hflush, hflushed⟩
    exact ⟨hflush, habreast.trans hflushed⟩
  | error e => exact ⟨rfl, habreast⟩

end Sink

/-! ## Sinks that have settled -/

/-- What a behaviour settles on. -/
def Behaviour.steady (b : Behaviour) : Behaviour where
  write _ := b.write b.settled
  flush _ := b.flush b.settled
  settled := 0
  write_settled _ _ := rfl
  flush_settled _ _ := rfl
  lively := b.lively

namespace Sink

variable {s : Sink} {c : Color}

/-- Whether a sink has been called often enough for its answers to stay the same. -/
structure Settled (s : Sink) : Prop where
  writes : s.behaviour.settled ≤ s.writes
  flushes : s.behaviour.settled ≤ s.flushes

theorem Settled.alike (h : s.Settled) : s.Alike (fresh s.behaviour.steady) where
  write n := by
    have hwrites := h.writes
    exact s.behaviour.write_settled _ (by omega)
  flush n := by
    have hflushes := h.flushes
    exact s.behaviour.flush_settled _ (by omega)

/-- A sink that always answers the same, and has taken a frame, never fails. -/
theorem faultless_steady {b : Behaviour} (h : ((fresh b.steady).writeFrame c).1 = .ok ()) :
    b.steady.Faultless := by
  rcases exists_of_writeFrame_eq_ok h with ⟨s₁, hall, -, hflushed⟩
  have hfirst := writeAll_of_ne_nil (fresh b.steady) c.wire_ne_nil
  -- a steady sink answers its first write as it answers every other one
  have hanswer : (fresh b.steady).behaviour.write ((fresh b.steady).writes + 1) =
      b.write b.settled := rfl
  rw [hall] at hfirst
  refine ⟨?_, ?_, ?_⟩
  · intro n hzero
    have hanswer := hanswer.trans hzero
    have hnone : ((fresh b.steady).write c.wire).1 = .ok 0 := by
      unfold write
      simp [hanswer]
    simp [hnone] at hfirst
  · intro n e hfails
    have hanswer := hanswer.trans hfails
    have hkind : e.kind ≠ .interrupted := by
      have hlively := b.lively
      simpa [show b.write b.settled = .fails e from hfails, Intake.interrupted] using hlively
    have herror : ((fresh b.steady).write c.wire).1 = .error e := by
      unfold write
      simp [hanswer]
    simp [herror, hkind] at hfirst
  · intro n
    have hbehaviour := writeAll_behaviour (fresh b.steady) c.wire
    rw [hall] at hbehaviour
    cases hflush : b.flush b.settled with
    | none => exact hflush
    | some e =>
      have hrefuses : s₁.behaviour.flush (s₁.flushes + 1) = some e := by
        rw [hbehaviour]
        exact hflush
      simp [flush, hrefuses] at hflushed

/-- A sink that has settled and has taken a frame goes on taking frames. -/
theorem Settled.writeFrame_eq_ok (h : s.Settled) (hok : (s.writeFrame c).1 = .ok ()) (d : Color) :
    ((s.writeFrame c).2.writeFrame d).1 = .ok () := by
  rcases h.alike.writeFrame_eq c with ⟨hfirst, habreast⟩
  have hsteady := faultless_steady (hfirst.symm.trans hok)
  rw [(habreast.alike.writeFrame_eq d).1]
  apply writeFrame_faultless
  rw [writeFrame_behaviour]
  exact hsteady

theorem writes_writeAll (s : Sink) (data : List UInt8) :
    s.writes ≤ (s.writeAll data).2.writes ∧ (data ≠ [] → s.writes < (s.writeAll data).2.writes) ∧
      (s.writeAll data).2.flushes = s.flushes := by
  have hone : ∀ (s : Sink) data, (s.write data).2.flushes = s.flushes := by
    intro s data
    unfold write
    dsimp only
    split <;> rfl
  fun_induction writeAll s data with
  | case1 => exact ⟨Nat.le_refl _, fun h => absurd rfl h, rfl⟩
  | case2 s data | case5 s data =>
    rw [write_writes, hone]
    exact ⟨Nat.le_succ _, fun _ => Nat.lt_succ_self _, rfl⟩
  | case3 s data hne n hn ih | case4 s data hne e he hint ih =>
    rcases ih with ⟨hle, -, hflushes⟩
    rw [write_writes] at hle
    rw [hone] at hflushes
    exact ⟨by omega, fun _ => by omega, hflushes⟩

theorem calls_writeFrame (h : (s.writeFrame c).1 = .ok ()) :
    s.writes < (s.writeFrame c).2.writes ∧ (s.writeFrame c).2.flushes = s.flushes + 1 := by
  rcases exists_of_writeFrame_eq_ok h with ⟨s₁, hall, hframe, -⟩
  have hflush : s₁.flush.2.writes = s₁.writes ∧ s₁.flush.2.flushes = s₁.flushes + 1 := by
    unfold flush
    dsimp only
    split <;> exact ⟨rfl, rfl⟩
  rcases writes_writeAll s c.wire with ⟨-, hwrites, hflushes⟩
  rw [hall] at hwrites hflushes
  rw [hframe, hflush.1, hflush.2]
  exact ⟨hwrites c.wire_ne_nil, congrArg (· + 1) hflushes⟩

/-- Each frame that is written takes at least one call of `write` and one of `flush`. -/
theorem calls_writeFrames {cs : List Color} (h : (s.writeFrames cs).1 = .ok ()) :
    s.writes + cs.length ≤ (s.writeFrames cs).2.writes ∧
      s.flushes + cs.length ≤ (s.writeFrames cs).2.flushes := by
  induction cs generalizing s with
  | nil => exact ⟨Nat.le_refl _, Nat.le_refl _⟩
  | cons c cs ih =>
    cases hc : (s.writeFrame c).1 with
    | error e =>
      rw [writeFrames_cons_of_error hc] at h
      cases h
    | ok =>
      rw [writeFrames_cons_of_ok hc] at h ⊢
      rcases ih h with ⟨hwrites, hflushes⟩
      rcases calls_writeFrame hc with ⟨hfirst, hflush⟩
      rw [List.length_cons]
      omega

/-- A sink that has taken more frames one after the other than it has calls to settle goes on taking
frames. -/
theorem writeFrame_of_settled_lt {cs : List Color} (h : (s.writeFrames cs).1 = .ok ())
    (hlong : s.behaviour.settled < cs.length) (d : Color) :
    ((s.writeFrames cs).2.writeFrame d).1 = .ok () := by
  rcases List.eq_nil_or_concat cs with rfl | ⟨before, last, rfl⟩
  · exact absurd hlong (Nat.not_lt_zero _)
  rw [List.concat_eq_append, writeFrames_append] at h ⊢
  rcases hbefore : s.writeFrames before with ⟨result, s₁⟩
  rw [hbefore] at h
  cases result with
  | error e => cases h
  | ok =>
    have hfirst : (s.writeFrames before).1 = .ok () := by rw [hbefore]
    have hbehaviour := (took_writeFrames hfirst).1.behaviour
    have hcalls := calls_writeFrames hfirst
    rw [hbefore] at hbehaviour hcalls
    dsimp only at hbehaviour hcalls
    rw [List.length_concat] at hlong
    -- each frame takes a write and a flush, so the tables are behind it
    have hsettled : s₁.Settled := by
      constructor <;> rw [hbehaviour] <;> omega
    cases hlast : (s₁.writeFrame last).1 with
    | error e =>
      simp only [writeFrames_cons_of_error hlast] at h
      cases h
    | ok =>
      simp only [writeFrames_cons_of_ok hlast]
      exact hsettled.writeFrame_eq_ok hlast d

end Sink

end Beacon
