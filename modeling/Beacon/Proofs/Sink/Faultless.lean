import Beacon.Proofs.Text.Field
import Beacon.Sink

/-!
# Sinks that never fail

A faultless sink takes at least one byte whenever it is offered some, is interrupted at most, and
flushes without complaint. On such a sink every frame is written (`writeFrame_faultless`), as one
whole line behind all earlier ones (`taken_writeFrame`), and its lines are the lines written to it
(`lines_eq_of_taken`).
-/

namespace Beacon

namespace Text

/-- Characters that are one byte each are that byte. -/
theorem exists_of_mem_encode {cs : List Char} {byte : UInt8} (hcs : ∀ c ∈ cs, c.toNat < 128)
    (h : byte ∈ encode cs) : ∃ c ∈ cs, byte.toNat = c.toNat := by
  rcases List.mem_flatMap.1 h with ⟨c, hc, hbyte⟩
  have hlt := hcs c hc
  have hnat : c.toNat = c.val.toNat := rfl
  have hsize : c.utf8Size = 1 := by
    have h127 : (127 : UInt32).toNat = 127 := rfl
    exact Char.utf8Size_eq_one_iff.2 (UInt32.le_iff_toNat_le.2 (by omega))
  rw [String.utf8EncodeChar_eq_singleton hsize, List.mem_singleton] at hbyte
  have hval := congrArg UInt8.toNat hbyte
  rw [UInt32.toNat_toUInt8, ← hnat, Nat.mod_eq_of_lt (by omega)] at hval
  exact ⟨c, hc, hval⟩

theorem toNat_of_isDigit {c : Char} (h : c.isDigit = true) : 48 ≤ c.toNat ∧ c.toNat ≤ 57 :=
  Char.isDigit_iff_toNat.1 h

/-- Digits and blanks are written in bytes of their own, and none of these ends a line. -/
theorem newline_notMem_encode {cs : List Char} (hcs : ∀ c ∈ cs, c.isDigit = true ∨ c = ' ') :
    Sink.newline ∉ encode cs := by
  have hrange : ∀ c ∈ cs, 32 ≤ c.toNat ∧ c.toNat ≤ 57 := by
    intro c hc
    rcases hcs c hc with hdigit | rfl
    · have hbounds := toNat_of_isDigit hdigit
      exact ⟨by omega, hbounds.2⟩
    · decide
  intro hmem
  obtain ⟨c, hc, hval⟩ := exists_of_mem_encode (fun c hc => by have := hrange c hc; omega) hmem
  have hten : (Sink.newline).toNat = 10 := rfl
  have hbounds := hrange c hc
  omega

end Text

namespace Color

/-- The line of a colour as bytes, without its end. -/
def lineBytes (c : Color) : List UInt8 := Text.encode c.text

theorem encode_line (c : Color) : Text.encode c.line = c.lineBytes ++ [Sink.newline] := by
  simp [line, lineBytes, Text.encode]
  rfl

theorem newline_notMem_lineBytes (c : Color) : Sink.newline ∉ c.lineBytes := by
  apply Text.newline_notMem_encode
  have hdigits : ∀ (n : Nat) (d : Char), d ∈ Nat.toDigits 10 n → d.isDigit = true := by
    intro n d hd
    exact Nat.isDigit_of_mem_toDigits (by decide) (by decide) hd
  intro d hd
  simp only [text, List.mem_append, List.mem_cons] at hd
  rcases hd with (hred | rfl | hgreen) | rfl | hblue
  · exact Or.inl (hdigits _ d hred)
  · exact Or.inr rfl
  · exact Or.inl (hdigits _ d hgreen)
  · exact Or.inr rfl
  · exact Or.inl (hdigits _ d hblue)

end Color

/-- A behaviour under which writing cannot fail: every call of `write` takes at least one byte or is
interrupted, and every flush succeeds. -/
structure Behaviour.Faultless (b : Behaviour) : Prop where
  takes : ∀ n, b.write n ≠ .atMost 0
  retried : ∀ n e, b.write n = .fails e → e.kind = .interrupted
  flushes : ∀ n, b.flush n = none

/-- Without any entry in its tables, a behaviour that takes at least one byte at a time is
faultless. -/
theorem Behaviour.faultless_ofTables {limit : Option Nat} (h : limit ≠ some 0) :
    (Behaviour.ofTables limit [] []).Faultless where
  takes n hn := by
    cases limit with
    | none => cases hn
    | some limit => exact h (congrArg some (Intake.atMost.inj hn))
  retried n e hn := by
    cases limit <;> cases hn
  flushes _ := rfl

namespace Sink

theorem flush_behaviour (s : Sink) : s.flush.2.behaviour = s.behaviour := by
  unfold flush
  dsimp only
  split <;> rfl

theorem flush_taken (s : Sink) : s.flush.2.taken = s.taken := by
  unfold flush
  dsimp only
  split <;> rfl

/-- Writing never changes how a sink behaves. -/
theorem writeAll_behaviour (s : Sink) (data : List UInt8) :
    (s.writeAll data).2.behaviour = s.behaviour := by
  fun_induction writeAll s data with
  | case1 => rfl
  | case2 s data hne hzero => exact write_behaviour s data
  | case3 s data hne n hn ih => rw [ih, write_behaviour]
  | case4 s data hne e he hint ih => rw [ih, write_behaviour]
  | case5 s data hne e he hint => exact write_behaviour s data

theorem writeFrame_behaviour (s : Sink) (c : Color) :
    (s.writeFrame c).2.behaviour = s.behaviour := by
  have hall := writeAll_behaviour s (Text.encode c.line)
  unfold writeFrame
  split
  · next hok => rw [flush_behaviour, ← hall, hok]
  · next herr => rw [← hall, herr]

/-- What one call of `write` takes of the bytes offered is what it says it takes. -/
theorem write_taken {s : Sink} {data : List UInt8} {n : Nat} (h : (s.write data).1 = .ok n) :
    (s.write data).2.taken.toList = s.taken.toList ++ data.take n := by
  unfold write at h ⊢
  dsimp only at h ⊢
  split at h
  · next hw =>
    have hn : data.length = n := by simpa using h
    simp [take, ← hn]
  · next limit hw =>
    have hn : min limit data.length = n := by simpa using h
    simp [take, ← hn]
  · next e hw => simp at h

/-- A call that fails takes nothing. -/
theorem write_taken_of_error {s : Sink} {data : List UInt8} {e : IoError}
    (h : (s.write data).1 = .error e) : (s.write data).2.taken = s.taken := by
  have hw := write_eq_error h
  unfold write
  simp [hw]

section Faultless

variable {s : Sink} (hb : s.behaviour.Faultless)
include hb

/-- A faultless sink takes something whenever it is offered something. -/
theorem write_ne_zero {data : List UInt8} (hdata : data ≠ []) : (s.write data).1 ≠ .ok 0 := by
  have hlength : data.length ≠ 0 := by simpa using hdata
  intro h
  unfold write at h
  dsimp only at h
  split at h
  · exact hlength (by simpa using h)
  · next limit hw =>
    have hlimit : limit ≠ 0 := by
      intro heq
      subst heq
      exact hb.takes _ hw
    have hmin : min limit data.length = 0 := by simpa using h
    omega
  · simp at h

/-- A faultless sink takes all that it is offered. -/
theorem writeAll_faultless (data : List UInt8) :
    (s.writeAll data).1 = .ok () ∧
      (s.writeAll data).2.taken.toList = s.taken.toList ++ data := by
  fun_induction writeAll s data with
  | case1 => simp
  | case2 s data hne hzero => exact absurd hzero (write_ne_zero hb hne)
  | case3 s data hne n hn ih =>
    rcases ih (by rw [write_behaviour]; exact hb) with ⟨hok, htaken⟩
    refine ⟨hok, ?_⟩
    rw [htaken, write_taken hn, List.append_assoc, List.take_append_drop]
  | case4 s data hne e he hint ih =>
    rcases ih (by rw [write_behaviour]; exact hb) with ⟨hok, htaken⟩
    exact ⟨hok, by rw [htaken, write_taken_of_error he]⟩
  | case5 s data hne e he hint =>
    exact absurd (hb.retried _ e (write_eq_error he)) hint

theorem flush_faultless : s.flush.1 = .ok () := by
  unfold flush
  simp [hb.flushes]

/-- On a faultless sink every frame is written. -/
theorem writeFrame_faultless (c : Color) : (s.writeFrame c).1 = .ok () := by
  rcases writeAll_faultless hb (Text.encode c.line) with ⟨hok, -⟩
  have hbehaviour := writeAll_behaviour s (Text.encode c.line)
  unfold writeFrame
  split
  · next written hsplit =>
    rw [hsplit] at hbehaviour
    exact flush_faultless (by rw [hbehaviour]; exact hb)
  · next hsplit =>
    rw [hsplit] at hok
    cases hok

/-- On a faultless sink a frame is one whole line behind all earlier ones. -/
theorem taken_writeFrame (c : Color) :
    (s.writeFrame c).2.taken.toList = s.taken.toList ++ (c.lineBytes ++ [newline]) := by
  rcases writeAll_faultless hb (Text.encode c.line) with ⟨hok, htaken⟩
  rw [Color.encode_line] at hok htaken
  unfold writeFrame
  rw [Color.encode_line]
  split
  · next hsplit => rw [flush_taken, ← htaken, hsplit]
  · next hsplit =>
    rw [hsplit] at hok
    cases hok

end Faultless

/-- A sink that has taken nothing but whole lines has these lines. -/
theorem lines_eq_of_taken {s : Sink} {ls : List (List UInt8)} (hls : ∀ l ∈ ls, newline ∉ l)
    (h : s.taken.toList = ls.flatMap (· ++ [newline])) : s.lines = ls := by
  simp [lines, parts, h, Text.fields_flatMap hls]

end Sink

end Beacon
