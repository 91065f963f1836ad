import Beacon.Proofs.Color
import Beacon.Proofs.Sink.Writing
import Beacon.Proofs.Text.Utf8

/-!
# Reading frames back

What a sink has taken of frames that were written one after the other can be read back
(`Sink.writeFrames_decode`): cut at the ends of lines, it is the colours of all frames that were
written, and of the last one too if only its flush has failed. A frame whose line broke off leaves a
part behind that ends no line. For this, the line of a colour reads as that colour
(`Color.ofLine?_lineBytes`), and no byte of it ends a line.
-/

namespace Beacon

/-! ## Lines of colours -/

namespace Text

theorem digitsValue_eq_ofDigitChars (cs : List Char) :
    digitsValue cs = Nat.ofDigitChars 10 cs 0 := by
  rw [digitsValue, Nat.ofDigitChars]

/-- The digits of a number are a numeral of it. -/
theorem numeral_toDigits (n : Nat) : Numeral (Nat.toDigits 10 n) n := by
  have hne : Nat.toDigits 10 n ≠ [] := Nat.toDigits_ne_nil
  have hdigits := numeral_digitsValue hne fun c hc =>
    Nat.isDigit_of_mem_toDigits (by decide) (by decide) hc
  rwa [digitsValue_eq_ofDigitChars, Nat.ofDigitChars_toDigits (by decide) (by decide)] at hdigits

/-- Whole lines with something behind them are cut into the lines and the cuts of the rest. -/
theorem fields_flatMap_append {α : Type} [DecidableEq α] {sep : α} {ls : List (List α)}
    (hls : ∀ l ∈ ls, sep ∉ l) (rest : List α) :
    fields sep (ls.flatMap (· ++ [sep]) ++ rest) = ls ++ fields sep rest := by
  induction ls with
  | nil => rfl
  | cons l ls ih =>
    have hl := fields_of_notMem (hls l List.mem_cons_self)
    have hrest := ih fun l' hl' => hls l' (List.mem_cons_of_mem _ hl')
    rw [flatMap_cons_sep, List.append_assoc, List.cons_append, fields_append_sep, hl, hrest]
    rfl

end Text

namespace Color

theorem channel_toDigits (v : UInt8) : Channel (Nat.toDigits 10 v.toNat) v := by
  have hlt := v.toNat_lt
  refine ⟨?_, Text.numeral_toDigits v.toNat⟩
  rw [Nat.length_toDigits_le_iff (by decide) (by decide)]
  omega

/-- Only the whole line of a colour ends a line. -/
theorem newline_notMem_of_prefix {c : Color} {part : List UInt8} (h : part <+: c.wire)
    (hne : part ≠ c.wire) : Sink.newline ∉ part := by
  rw [c.wire_eq, List.prefix_concat_iff] at h
  rcases h with hall | hpart
  · exact absurd (hall.trans c.wire_eq.symm) hne
  · intro hmem
    exact c.newline_notMem_lineBytes (hpart.subset hmem)

/-- The colour of a line of three decimals with one blank between. -/
def ofLine? (line : List UInt8) : Option Color := do
  match Text.fields ' ' (← Text.decode? line) with
  | [r, g, b] => return ⟨← channel? r, ← channel? g, ← channel? b⟩
  | _ => none

theorem ofLine?_lineBytes (c : Color) : ofLine? c.lineBytes = some c := by
  have hblank (v : UInt8) : ' ' ∉ Nat.toDigits 10 v.toNat :=
    (channel_toDigits v).notMem (by decide)
  have hfields : Text.fields ' ' c.text =
      [Nat.toDigits 10 c.red.toNat, Nat.toDigits 10 c.green.toNat, Nat.toDigits 10 c.blue.toNat] :=
    Text.fields_eq_three_iff.2 ⟨rfl, hblank _, hblank _, hblank _⟩
  have hread (v : UInt8) := channel?_eq_some_iff.2 (channel_toDigits v)
  simp [ofLine?, lineBytes, hfields, hread]

end Color

/-- Whatever a sink is to answer to its first calls, some behaviour answers so. -/
theorem Behaviour.exists_answers (write : Nat → Intake) (flush : Nat → Option IoError) (n : Nat) :
    ∃ b : Behaviour, ∀ k, k ≤ n → b.write k = write k ∧ b.flush k = flush k := by
  let b : Behaviour :=
    { write := fun k => if k ≤ n then write k else .whole
      flush := fun k => if k ≤ n then flush k else none
      settled := n + 1
      write_settled := fun k hk => by rw [if_neg (by omega), if_neg (by omega)]
      flush_settled := fun k hk => by rw [if_neg (by omega), if_neg (by omega)]
      lively := by rw [if_neg (by omega)]; rfl }
  refine ⟨b, fun k hk => ?_⟩
  exact ⟨if_pos hk, if_pos hk⟩

namespace Sink

/-! ## One frame -/

/-- The line of a colour has been taken whole, and nothing has been flushed meanwhile. -/
structure Lined (s : Sink) (c : Color) (s' : Sink) : Prop where
  writeAll_eq : s.writeAll c.wire = (.ok (), s')
  took : s.Took c.wire s'
  flushes : s'.flushes = s.flushes

/-- The line of a colour has been broken off: a proper first part of it was taken, and then the sink
refused. -/
structure Broken (s : Sink) (c : Color) (e : IoError) (part : List UInt8) (s' : Sink) : Prop where
  writeAll_eq : s.writeAll c.wire = (.error e, s')
  took : s.Took part s'
  isPrefix : part <+: c.wire
  ne : part ≠ c.wire
  refused : s'.Refused e
  flushes : s'.flushes = s.flushes

/-- A sink has been flushed once, and nothing else has been done with it. -/
structure Flushed (s : Sink) (result : Except IoError Unit) (s' : Sink) : Prop where
  flush_eq : s.flush = (result, s')
  flushes : s'.flushes = s.flushes + 1
  writes : s'.writes = s.writes
  taken : s'.taken = s.taken

theorem flushed_flush (s : Sink) : s.Flushed s.flush.1 s.flush.2 := by
  refine ⟨rfl, ?_, ?_, flush_taken s⟩
  all_goals
    unfold flush
    dsimp only
    split <;> rfl

theorem Flushed.took {s s' : Sink} {result : Except IoError Unit} (h : s.Flushed result s') :
    s.Took [] s' := by
  have htook := took_flush s
  rwa [h.flush_eq] at htook

/-- The line of a colour is taken whole, or broken off. -/
theorem lined_or_broken (s : Sink) (c : Color) :
    s.Lined c (s.writeAll c.wire).2 ∨ ∃ e part, s.Broken c e part (s.writeAll c.wire).2 := by
  have hflushes := (writes_writeAll s c.wire).2.2
  rcases writeAll_cases s c.wire with ⟨hok, htook⟩ | ⟨e, k, herror, hk, htook, hrefused⟩
  · exact .inl ⟨Prod.ext hok rfl, htook, hflushes⟩
  · refine .inr ⟨e, c.wire.take k, Prod.ext herror rfl, htook, List.take_prefix k _, ?_, hrefused,
      hflushes⟩
    intro hall
    have hlength := congrArg List.length hall
    rw [List.length_take] at hlength
    omega

theorem Lined.writeFrame_eq {s s₁ : Sink} {c : Color} (h : s.Lined c s₁) :
    s.writeFrame c = s₁.flush := by
  have hwrite : s.writeAll (Text.encode c.line) = (.ok (), s₁) := h.writeAll_eq
  rw [writeFrame, hwrite]

theorem Broken.writeFrame_eq {s s' : Sink} {c : Color} {e : IoError} {part : List UInt8}
    (h : s.Broken c e part s') : s.writeFrame c = (.error e, s') := by
  have hwrite : s.writeAll (Text.encode c.line) = (.error e, s') := h.writeAll_eq
  rw [writeFrame, hwrite]

/-- What is left of a broken line ends no line. -/
theorem Broken.newline_notMem {s s' : Sink} {c : Color} {e : IoError} {part : List UInt8}
    (h : s.Broken c e part s') : newline ∉ part := Color.newline_notMem_of_prefix h.isPrefix h.ne

/-! ## Frames one after the other -/

/-- Frames have been written one after the other: the line of each was taken whole, and behind its
last byte the sink was flushed once. -/
inductive Sent : Sink → List Color → Sink → Prop
  | nil (s : Sink) : Sent s [] s
  | cons {s s₁ s₂ s' : Sink} {c : Color} {cs : List Color} (hline : s.Lined c s₁)
      (hflush : s₁.Flushed (.ok ()) s₂) (hrest : Sent s₂ cs s') : Sent s (c :: cs) s'

/-- How frames that are written one after the other end: all of them are sent; or the first that
fails has its line broken off; or it has its line taken whole and cannot be flushed. What the sink
has taken are the lines of the colours `shown` and a `part` behind them. -/
inductive Ended (s : Sink) (colors : List Color) (result : Except IoError Unit) (s' : Sink) :
    (shown : List Color) → (part : List UInt8) → Prop
  | sent (hresult : result = .ok ()) (hsent : Sent s colors s') : Ended s colors result s' colors []
  | broken {sent rest : List Color} {c : Color} {s₁ : Sink} {e : IoError} {part : List UInt8}
      (hcolors : colors = sent ++ c :: rest) (hsent : Sent s sent s₁)
      (hbroken : s₁.Broken c e part s') (hresult : result = .error e) :
      Ended s colors result s' sent part
  | unflushed {sent rest : List Color} {c : Color} {s₁ s₂ : Sink} {e : IoError}
      (hcolors : colors = sent ++ c :: rest) (hsent : Sent s sent s₁) (hline : s₁.Lined c s₂)
      (hflush : s₂.Flushed (.error e) s') (hresult : result = .error e) :
      Ended s colors result s' (sent ++ [c]) []

variable {s s₁ s₂ s' : Sink} {c : Color} {colors shown : List Color} {part : List UInt8}
  {result : Except IoError Unit}

/-- A frame that is sent comes before the others. -/
theorem Ended.cons (hline : s.Lined c s₁) (hflush : s₁.Flushed (.ok ()) s₂)
    (h : Ended s₂ colors result s' shown part) :
    Ended s (c :: colors) result s' (c :: shown) part := by
  cases h with
  | sent hresult hsent => exact .sent hresult (.cons hline hflush hsent)
  | broken hcolors hsent hbroken hresult =>
    exact .broken (by rw [hcolors, List.cons_append]) (.cons hline hflush hsent) hbroken hresult
  | unflushed hcolors hsent hline' hflush' hresult =>
    exact .unflushed (by rw [hcolors, List.cons_append]) (.cons hline hflush hsent) hline' hflush'
      hresult

theorem exists_ended (s : Sink) (colors : List Color) :
    ∃ shown part,
      Ended s colors (s.writeFrames colors).1 (s.writeFrames colors).2 shown part := by
  induction colors generalizing s with
  | nil => exact ⟨[], [], .sent rfl (.nil s)⟩
  | cons c colors ih =>
    rcases lined_or_broken s c with hline | ⟨e, part, hbroken⟩
    · -- the whole line was taken; the flush may still fail
      have hflush := flushed_flush (s.writeAll c.wire).2
      cases hresult : (s.writeAll c.wire).2.flush.1 with
      | ok =>
        rw [hresult] at hflush
        have hok : (s.writeFrame c).1 = .ok () := by rw [hline.writeFrame_eq, hresult]
        obtain ⟨shown, part, hended⟩ := ih (s.writeFrame c).2
        rw [writeFrames_cons_of_ok hok]
        rw [hline.writeFrame_eq] at hended ⊢
        exact ⟨c :: shown, part, hended.cons hline hflush⟩
      | error e =>
        rw [hresult] at hflush
        have herror : (s.writeFrame c).1 = .error e := by rw [hline.writeFrame_eq, hresult]
        rw [writeFrames_cons_of_error herror, hline.writeFrame_eq]
        exact ⟨[] ++ [c], [], .unflushed rfl (.nil s) hline hflush rfl⟩
    · -- a part of the line was taken, and nothing comes after it
      have herror : (s.writeFrame c).1 = .error e := by rw [hbroken.writeFrame_eq]
      rw [writeFrames_cons_of_error herror, hbroken.writeFrame_eq]
      exact ⟨[], part, .broken rfl (.nil s) hbroken rfl⟩

/-! ## What has been taken -/

theorem Sent.took (h : Sent s colors s') : s.Took (colors.flatMap Color.wire) s' := by
  induction h with
  | nil s => exact .refl s
  | cons hline hflush _ ih =>
    have hone := hline.took.trans hflush.took
    rw [List.append_nil] at hone
    exact hone.trans ih

theorem Ended.took (h : Ended s colors result s' shown part) :
    s.Took (shown.flatMap Color.wire ++ part) s' := by
  cases h with
  | sent _ hsent =>
    rw [List.append_nil]
    exact hsent.took
  | broken _ hsent hbroken _ => exact hsent.took.trans hbroken.took
  | unflushed _ hsent hline hflush _ =>
    rw [List.flatMap_append, List.flatMap_singleton]
    exact (hsent.took.trans hline.took).trans hflush.took

theorem Ended.newline_notMem (h : Ended s colors result s' shown part) : newline ∉ part := by
  cases h with
  | sent | unflushed => exact List.not_mem_nil
  | broken _ _ hbroken _ => exact hbroken.newline_notMem

/-- Whole lines of colours and a part that ends no line are cut into these lines and this part. -/
theorem parts_of_taken (hpart : newline ∉ part)
    (h : s.taken.toList = shown.flatMap Color.wire ++ part) :
    s.parts = shown.map Color.lineBytes ++ [part] := by
  have hlines : shown.flatMap Color.wire =
      (shown.map Color.lineBytes).flatMap (· ++ [newline]) := by
    rw [List.flatMap_map]
    congr 1
    funext c
    exact c.wire_eq
  have hls : ∀ l ∈ shown.map Color.lineBytes, newline ∉ l := by
    intro l hl
    obtain ⟨c, -, rfl⟩ := List.mem_map.1 hl
    exact c.newline_notMem_lineBytes
  rw [parts, h, hlines, Text.fields_flatMap_append hls, Text.fields_of_notMem hpart]

theorem mapM_ofLine?_lineBytes (colors : List Color) :
    (colors.map Color.lineBytes).mapM Color.ofLine? = some colors := by
  induction colors with
  | nil => rfl
  | cons c colors ih =>
    rw [List.map_cons, List.mapM_cons, Color.ofLine?_lineBytes, ih]
    rfl

/-- Frames that are written to a new sink one after the other, up to the first that fails, can be
read back: the complete lines are those of the frames that were sent, and of the one that could not
be flushed; a part of a line behind them ends no line. Any answers to the calls that are made come
from a behaviour (`Behaviour.exists_answers`). -/
theorem writeFrames_decode (b : Behaviour) (colors : List Color) :
    ∃ shown part,
      Ended (fresh b) colors ((fresh b).writeFrames colors).1 ((fresh b).writeFrames colors).2
        shown part ∧
      ((fresh b).writeFrames colors).2.taken.toList = shown.flatMap Color.wire ++ part ∧
      ((fresh b).writeFrames colors).2.lines.mapM Color.ofLine? = some shown ∧
      ((fresh b).writeFrames colors).2.pending = part := by
  obtain ⟨shown, part, hended⟩ := exists_ended (fresh b) colors
  have htaken := hended.took.taken
  have hempty : (fresh b).taken.toList = [] := rfl
  rw [hempty, List.nil_append] at htaken
  have hparts := parts_of_taken hended.newline_notMem htaken
  refine ⟨shown, part, hended, htaken, ?_, ?_⟩
  · rw [lines, hparts, List.dropLast_concat, mapM_ofLine?_lineBytes]
  · rw [pending, hparts, List.getLastD_concat]

end Sink

end Beacon
