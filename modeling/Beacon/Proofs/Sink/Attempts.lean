import Beacon.Proofs.Sink.Decoding

/-!
# Going on after a frame has failed

Whoever owns a light may give it further frames after one of them has failed, and the light cannot
tell where the next one begins. So a frame that was given to a light is an `Attempt`: some first
part of its line has been taken, and there was an answer.

What frames leave behind that are given one after the other, whatever becomes of them, is cut at the
ends of lines into `Attempt.lines` (`Sink.parts_afterAll`): a frame that was taken whole ends a
line, and that line begins with what was taken of the frames that failed since the line before it.
So each line is that of one frame exactly if no frame was taken whole after one that was torn
(`Attempt.lines_eq_iff`). A line that begins with something else may even look like that of a
colour, but then its red is not that of the frame (`Color.red_ne_of_lineBytes_eq`).
-/

namespace Beacon

/-! ## Lines of colours -/

namespace Color

/-- The byte between two channels of a line. -/
def blank : UInt8 := 32

/-- The bytes of a channel in a line. -/
def channelBytes (v : UInt8) : List UInt8 := Text.encode (Nat.toDigits 10 v.toNat)

theorem lineBytes_eq (c : Color) : c.lineBytes =
    channelBytes c.red ++ blank :: channelBytes c.green ++ blank :: channelBytes c.blue := by
  simp [lineBytes, text, channelBytes, Text.encode]
  rfl

theorem blank_notMem_channelBytes (v : UInt8) : blank ∉ channelBytes v := by
  have hrange : ∀ d ∈ Nat.toDigits 10 v.toNat, 48 ≤ d.toNat ∧ d.toNat ≤ 57 := by
    intro d hd
    exact Text.toNat_of_isDigit (Nat.isDigit_of_mem_toDigits (by decide) (by decide) hd)
  intro hmem
  obtain ⟨d, hd, hval⟩ := Text.exists_of_mem_encode (fun d hd => by have := hrange d hd; omega) hmem
  have hblank : blank.toNat = 32 := rfl
  have hbounds := hrange d hd
  omega

theorem channelBytes_inj {v w : UInt8} (h : channelBytes v = channelBytes w) : v = w := by
  have hdecoded := congrArg Text.decode? h
  rw [channelBytes, channelBytes, Text.decode?_encode, Text.decode?_encode,
    Option.some.injEq] at hdecoded
  have hv := (Text.numeral_toDigits v.toNat).digitsValue_eq
  have hw := (Text.numeral_toDigits w.toNat).digitsValue_eq
  rw [hdecoded, hw] at hv
  exact UInt8.toNat_inj.1 hv.symm

theorem fields_append_lineBytes (left : List UInt8) (c : Color) :
    Text.fields blank (left ++ c.lineBytes) = Text.fields blank (left ++ channelBytes c.red) ++
      [channelBytes c.green, channelBytes c.blue] := by
  have hchannel (v : UInt8) : Text.fields blank (channelBytes v) = [channelBytes v] :=
    Text.fields_of_notMem (blank_notMem_channelBytes v)
  rw [lineBytes_eq, List.append_assoc, List.cons_append, ← List.append_assoc,
    Text.fields_append_sep, Text.fields_append_sep, hchannel, hchannel]
  rfl

/-- A line that begins with something else is the line of another colour, if it is one of a colour
at all: only its red is not what it was. -/
theorem red_ne_of_lineBytes_eq {c d : Color} {left : List UInt8} (hleft : left ≠ [])
    (h : d.lineBytes = left ++ c.lineBytes) :
    d.red ≠ c.red ∧ d.green = c.green ∧ d.blue = c.blue := by
  have hfields := congrArg (Text.fields blank) h
  have hone : Text.fields blank (channelBytes d.red) = [channelBytes d.red] :=
    Text.fields_of_notMem (blank_notMem_channelBytes d.red)
  have hd := fields_append_lineBytes [] d
  rw [List.nil_append, List.nil_append, hone] at hd
  -- cut at the blanks, both lines end in two whole channels, and only the first field has the rest
  rw [hd, fields_append_lineBytes] at hfields
  obtain ⟨hred, hrest⟩ := List.append_inj' hfields rfl
  simp only [List.cons.injEq, and_true] at hrest
  refine ⟨?_, channelBytes_inj hrest.1, channelBytes_inj hrest.2⟩
  intro hsame
  obtain ⟨hjoined, -⟩ := Text.fields_eq_singleton_iff.1 hred.symm
  rw [hsame] at hjoined
  exact hleft (List.append_left_eq_self.1 hjoined)

end Color

/-! ## Attempts -/

/-- The failure that an answer tells of. -/
def failure? {α : Type} : Except IoError α → Option IoError
  | .ok _ => none
  | .error e => some e

theorem failure?_eq_some_iff {α : Type} {answer : Except IoError α} {e : IoError} :
    failure? answer = some e ↔ answer = .error e := by
  cases answer <;> simp [failure?]

theorem failure?_eq_none_iff {α : Type} {answer : Except IoError α} :
    failure? answer = none ↔ ∃ value, answer = .ok value := by
  cases answer <;> simp [failure?]

/-- A frame that was given to a light: its colour, the first part of its line that was taken, and
the answer. Without a failure that part is the whole line. -/
structure Attempt where
  color : Color
  part : List UInt8
  answer : Except IoError Unit
  isPrefix : part <+: color.wire
  part_of_ok : answer = .ok () → part = color.wire

namespace Attempt

/-- The whole line was taken, with its end. It may still be that it could not be flushed. -/
def Whole (t : Attempt) : Prop := t.part = t.color.wire

/-- The line was broken off behind its first byte or a later one. -/
def Torn (t : Attempt) : Prop := t.part ≠ [] ∧ ¬ t.Whole

instance (t : Attempt) : Decidable t.Whole :=
  inferInstanceAs (Decidable (t.part = t.color.wire))

instance (t : Attempt) : Decidable t.Torn :=
  inferInstanceAs (Decidable (t.part ≠ [] ∧ ¬ t.Whole))

/-- The failure of the frame. -/
def error? (t : Attempt) : Option IoError := failure? t.answer

/-- The lines that frames come to, without their ends, if something was left before them. -/
def lines (left : List UInt8) : List Attempt → List (List UInt8)
  | [] => []
  | t :: rest =>
    if t.Whole then (left ++ t.color.lineBytes) :: lines [] rest else lines (left ++ t.part) rest

/-- What frames leave behind the last line, if something was left before them. -/
def remains (left : List UInt8) : List Attempt → List UInt8
  | [] => left
  | t :: rest => if t.Whole then remains [] rest else remains (left ++ t.part) rest

variable {t : Attempt} {tries : List Attempt} {left : List UInt8}

theorem whole_of_error?_eq_none (h : t.error? = none) : t.Whole := by
  obtain ⟨_, hok⟩ := failure?_eq_none_iff.1 h
  exact t.part_of_ok hok

/-- A line that was not taken whole has not been ended. -/
theorem newline_notMem_part (h : ¬ t.Whole) : Sink.newline ∉ t.part :=
  Color.newline_notMem_of_prefix t.isPrefix h

/-- Cut at the ends of lines, what was taken of frames is the lines that they come to, and what they
leave behind the last one. -/
theorem fields_append_parts (hleft : Sink.newline ∉ left) (tries : List Attempt) :
    Text.fields Sink.newline (left ++ tries.flatMap part) =
      lines left tries ++ [remains left tries] := by
  induction tries generalizing left with
  | nil => simp [lines, remains, Text.fields_of_notMem hleft]
  | cons t tries ih =>
    by_cases hwhole : t.Whole
    · -- the frame ends a line, which is all that was left before it and its own line
      have hline : Sink.newline ∉ left ++ t.color.lineBytes := by
        rw [List.mem_append]
        exact not_or.2 ⟨hleft, t.color.newline_notMem_lineBytes⟩
      have hcut : left ++ (t :: tries).flatMap part =
          (left ++ t.color.lineBytes) ++ Sink.newline :: tries.flatMap part := by
        rw [List.flatMap_cons, show t.part = t.color.wire from hwhole, t.color.wire_eq]
        simp only [List.append_assoc, List.singleton_append]
      have hnothing : Sink.newline ∉ ([] : List UInt8) := List.not_mem_nil
      have hrest := ih hnothing
      rw [List.nil_append] at hrest
      rw [hcut, Text.fields_append_sep, Text.fields_of_notMem hline, hrest, lines, remains,
        if_pos hwhole, if_pos hwhole]
      rfl
    · have hmore : Sink.newline ∉ left ++ t.part := by
        rw [List.mem_append]
        exact not_or.2 ⟨hleft, newline_notMem_part hwhole⟩
      rw [List.flatMap_cons, ← List.append_assoc, ih hmore, lines, remains, if_neg hwhole,
        if_neg hwhole]

/-- Each line is ended by a frame that was taken whole. -/
theorem exists_of_mem_lines {line : List UInt8} (h : line ∈ lines left tries) :
    ∃ t ∈ tries, t.Whole ∧ ∃ before, line = before ++ t.color.lineBytes := by
  induction tries generalizing left with
  | nil => exact absurd h List.not_mem_nil
  | cons t tries ih =>
    have hlater {left : List UInt8} (hline : line ∈ lines left tries) :
        ∃ u ∈ t :: tries, u.Whole ∧ ∃ before, line = before ++ u.color.lineBytes := by
      obtain ⟨u, hu, hline⟩ := ih hline
      exact ⟨u, List.mem_cons_of_mem t hu, hline⟩
    rw [lines] at h
    split at h
    · next hwhole =>
      rcases List.mem_cons.1 h with hline | hline
      · exact ⟨t, List.mem_cons_self, hwhole, left, hline⟩
      · exact hlater hline
    · exact hlater h

/-- The lines are those of the frames that were taken whole exactly if none of these has anything of
another frame before it: of those that were given before all of them, or among them. -/
theorem lines_eq_iff (left : List UInt8) (tries : List Attempt) :
    lines left tries = (tries.filter fun t => t.Whole).map (fun t => t.color.lineBytes) ↔
      (left ≠ [] → ∀ u ∈ tries, ¬ u.Whole) ∧ tries.Pairwise fun t u => t.Torn → ¬ u.Whole := by
  induction tries generalizing left with
  | nil => simp [lines]
  | cons t tries ih =>
    rw [List.pairwise_cons]
    by_cases hwhole : t.Whole
    · have hfilter : (t :: tries).filter (fun t => t.Whole) =
          t :: tries.filter fun t => t.Whole := List.filter_cons_of_pos (by simpa using hwhole)
      have hnothing : left ++ t.color.lineBytes = t.color.lineBytes ↔ left = [] :=
        List.append_left_eq_self
      rw [lines, if_pos hwhole, hfilter, List.map_cons, List.cons.injEq, hnothing, ih []]
      constructor
      · rintro ⟨hleft, -, hrest⟩
        refine ⟨fun hne => absurd hleft hne, fun u hu htorn => absurd hwhole htorn.2, hrest⟩
      · rintro ⟨hleft, -, hrest⟩
        refine ⟨?_, fun hne => absurd rfl hne, hrest⟩
        by_contra hne
        exact hleft hne t List.mem_cons_self hwhole
    · have hfilter : (t :: tries).filter (fun t => t.Whole) = tries.filter fun t => t.Whole :=
        List.filter_cons_of_neg (by simpa using hwhole)
      rw [lines, if_neg hwhole, hfilter, ih (left ++ t.part)]
      -- what the later frames find before them is there already, or is this frame torn
      constructor
      · rintro ⟨hmore, hrest⟩
        refine ⟨?_, ?_, hrest⟩
        · intro hne u hu
          rcases List.mem_cons.1 hu with rfl | hu
          · exact hwhole
          · exact hmore (List.append_ne_nil_of_left_ne_nil hne _) u hu
        · intro u hu htorn
          exact hmore (List.append_ne_nil_of_right_ne_nil _ htorn.1) u hu
      · rintro ⟨hleft, htorn, hrest⟩
        refine ⟨?_, hrest⟩
        intro hne u hu
        by_cases hnil : left = []
        · rw [hnil, List.nil_append] at hne
          exact htorn u hu ⟨hne, hwhole⟩
        · exact hleft hnil u (List.mem_cons_of_mem t hu)

/-- Nothing is torn before the last frame if nothing has failed before it. -/
theorem pairwise_of_dropLast (h : ∀ t ∈ tries.dropLast, t.error? = none) :
    tries.Pairwise fun t u => t.Torn → ¬ u.Whole := by
  rcases List.eq_nil_or_concat tries with rfl | ⟨before, last, rfl⟩
  · exact List.Pairwise.nil
  · rw [List.concat_eq_append] at h ⊢
    rw [List.dropLast_concat] at h
    have hwhole : ∀ t ∈ before, ¬ t.Torn := by
      intro t ht htorn
      exact htorn.2 (whole_of_error?_eq_none (h t ht))
    rw [List.pairwise_append]
    refine ⟨?_, List.pairwise_singleton _ _, ?_⟩
    · exact List.pairwise_of_forall_mem_list fun t ht u _ htorn => absurd htorn (hwhole t ht)
    · intro t ht u _ htorn
      exact absurd htorn (hwhole t ht)

end Attempt

namespace Sink

variable {s s' : Sink} {c : Color} {data : List UInt8}

/-! ## One frame -/

/-- What was taken last. -/
theorem Took.drop_eq (h : s.Took data s') : s'.taken.toList.drop s.taken.size = data := by
  rw [h.taken, ← Array.length_toList, List.drop_left]

/-- Of a frame some first part is taken, and all of it if nothing fails. -/
theorem exists_took_writeFrame (s : Sink) (c : Color) :
    ∃ part, s.Took part (s.writeFrame c).2 ∧ part <+: c.wire ∧
      ((s.writeFrame c).1 = .ok () → part = c.wire) := by
  rcases writeFrame_cases s c with ⟨-, htook⟩ | ⟨e, herror, hfails⟩
  · exact ⟨c.wire, htook, List.prefix_rfl, fun _ => rfl⟩
  · have hnever (part : List UInt8) : (s.writeFrame c).1 = .ok () → part = c.wire := by
      intro hok
      rw [herror] at hok
      cases hok
    cases hfails with
    | broken k _ htook _ => exact ⟨c.wire.take k, htook, List.take_prefix k _, hnever _⟩
    | unflushed htook _ => exact ⟨c.wire, htook, List.prefix_rfl, hnever _⟩

/-- A frame that is given to a sink. -/
def attempt (s : Sink) (c : Color) : Attempt where
  color := c
  part := (s.writeFrame c).2.taken.toList.drop s.taken.size
  answer := (s.writeFrame c).1
  isPrefix := by
    obtain ⟨part, htook, hprefix, -⟩ := exists_took_writeFrame s c
    rwa [htook.drop_eq]
  part_of_ok := by
    obtain ⟨part, htook, -, hwhole⟩ := exists_took_writeFrame s c
    rwa [htook.drop_eq]

theorem took_attempt (s : Sink) (c : Color) : s.Took (s.attempt c).part (s.writeFrame c).2 := by
  obtain ⟨part, htook, -⟩ := exists_took_writeFrame s c
  have hpart : (s.attempt c).part = part := htook.drop_eq
  rwa [hpart]

/-! ## Frames one after the other -/

/-- A sink that was given frames one after the other, whatever became of them. -/
def afterAll (s : Sink) (colors : List Color) : Sink :=
  colors.foldl (fun s c => (s.writeFrame c).2) s

/-- Frames that are given to a sink one after the other, whatever becomes of them. -/
def attempts (s : Sink) : List Color → List Attempt
  | [] => []
  | c :: rest => s.attempt c :: (s.writeFrame c).2.attempts rest

theorem afterAll_cons (s : Sink) (c : Color) (colors : List Color) :
    s.afterAll (c :: colors) = (s.writeFrame c).2.afterAll colors := rfl

theorem afterAll_append (s : Sink) (colors more : List Color) :
    s.afterAll (colors ++ more) = (s.afterAll colors).afterAll more := List.foldl_append

theorem attempts_append (s : Sink) (colors more : List Color) :
    s.attempts (colors ++ more) = s.attempts colors ++ (s.afterAll colors).attempts more := by
  induction colors generalizing s with
  | nil => rfl
  | cons c colors ih =>
    rw [List.cons_append, attempts, attempts, ih, afterAll_cons, List.cons_append]

theorem map_color_attempts (s : Sink) (colors : List Color) :
    (s.attempts colors).map Attempt.color = colors := by
  induction colors generalizing s with
  | nil => rfl
  | cons c colors ih =>
    rw [attempts, List.map_cons, ih]
    rfl

/-- What is taken of frames altogether are their parts, one behind the other. -/
theorem took_afterAll (s : Sink) (colors : List Color) :
    s.Took ((s.attempts colors).flatMap Attempt.part) (s.afterAll colors) := by
  induction colors generalizing s with
  | nil => exact .refl s
  | cons c colors ih =>
    rw [attempts, List.flatMap_cons, afterAll_cons]
    exact (s.took_attempt c).trans (ih _)

/-- A new sink has the lines that its frames come to, and behind them what these leave. -/
theorem parts_afterAll (b : Behaviour) (colors : List Color) :
    ((fresh b).afterAll colors).parts = Attempt.lines [] ((fresh b).attempts colors) ++
      [Attempt.remains [] ((fresh b).attempts colors)] := by
  rw [parts, ((fresh b).took_afterAll colors).taken]
  exact Attempt.fields_append_parts List.not_mem_nil _

/-- Frames that are all written do not fail. -/
theorem error?_of_writeFrames (h : (s.writeFrames colors).1 = .ok ()) :
    s.afterAll colors = (s.writeFrames colors).2 ∧ ∀ t ∈ s.attempts colors, t.error? = none := by
  induction colors generalizing s with
  | nil => exact ⟨rfl, fun t ht => absurd ht List.not_mem_nil⟩
  | cons c colors ih =>
    cases hc : (s.writeFrame c).1 with
    | error e =>
      rw [writeFrames_cons_of_error hc] at h
      cases h
    | ok =>
      rw [writeFrames_cons_of_ok hc] at h ⊢
      obtain ⟨hafter, hrest⟩ := ih h
      refine ⟨hafter, ?_⟩
      intro t ht
      rcases List.mem_cons.1 ht with rfl | ht
      · exact failure?_eq_none_iff.2 ⟨(), hc⟩
      · exact hrest t ht

end Sink

end Beacon
