import Beacon.Duration.Reading
import Beacon.Proofs.Duration.Grammar

/-!
# Reading durations comes to an end

Reading a duration from left to right ends on every text, since each group that is read takes a
number and a unit off the front. It accepts what parsing accepts, and so what the grammar derives
(`Duration.read_by_grammar`).
-/

namespace Beacon.Duration

open Reading (found)
open Text (Numeral)

variable (complaint : SpecError)

theorem found_bind {α β : Type} (value : Option α) (go : α → Option β) :
    (found complaint value >>= fun a => found complaint (go a)) =
      found complaint (value >>= go) := by
  cases value <;> rfl

/-- The first character that is not taken is where the rest begins. -/
theorem splitAt_findIdx {p : Char → Bool} {text : List Char} {length : Nat}
    (h : text.findIdx? (fun c => !p c) = some length) :
    text.splitAt length = (text.takeWhile p, text.dropWhile p) := by
  obtain ⟨-, rfl⟩ := List.findIdx?_eq_some_iff_findIdx_eq.1 h
  rw [List.splitAt_eq, List.takeWhile_eq_take_findIdx_not, List.dropWhile_eq_drop_findIdx_not]

theorem readNumber_eq (text : List Char) :
    readNumber complaint text =
      if text.dropWhile isNumberChar = [] then throw complaint
      else do
        let value ← found complaint (number? (text.takeWhile isNumberChar))
        return (value, text.dropWhile isNumberChar) := by
  unfold readNumber
  split
  · next hnone =>
    have hall : ∀ c ∈ text, isNumberChar c = true := by simpa using hnone
    rw [if_pos (List.dropWhile_eq_nil_iff.2 hall)]
  · next length hlength =>
    have hrest : text.dropWhile isNumberChar ≠ [] := by
      obtain ⟨hlt, hc, -⟩ := List.findIdx?_eq_some_iff_getElem.1 hlength
      intro hnil
      have hall := List.dropWhile_eq_nil_iff.1 hnil _ (List.getElem_mem hlt)
      simp [hall] at hc
    rw [if_neg hrest, splitAt_findIdx hlength]
    simp only
    split_ifs with hpoint
    · -- a lone point is no number, and nothing is none either
      rcases hpoint with hnil | hpoint
      · rw [hnil]
        rfl
      · rw [hpoint]
        rfl
    · rfl

theorem readSpan_eq (text : List Char) :
    readSpan complaint text = do
      let span ← found complaint (Span.ofChars? (text.takeWhile fun c => !isNumberChar c))
      return (span, text.dropWhile fun c => !isNumberChar c) := by
  unfold readSpan
  have hsplit : text.splitAt ((text.findIdx? isNumberChar).getD text.length) =
      (text.takeWhile fun c => !isNumberChar c, text.dropWhile fun c => !isNumberChar c) := by
    cases hfind : text.findIdx? isNumberChar with
    | none =>
      have hall : ∀ c ∈ text, (!isNumberChar c) = true := by simpa using hfind
      rw [Option.getD_none, List.splitAt_eq, List.take_length, List.drop_length,
        List.takeWhile_eq_self_iff.2 hall, List.dropWhile_eq_nil_iff.2 hall]
    | some length =>
      have hfind' : text.findIdx? (fun c => !!isNumberChar c) = some length := by simpa using hfind
      exact splitAt_findIdx hfind'
  rw [hsplit]

/-- The first run of a text, and what is behind it. -/
theorem runs_eq_cons {p : Char → Bool} {b : Bool} (hp : ∀ c, p c = (isNumberChar c == b))
    {text : List Char} (hne : text.takeWhile p ≠ []) :
    runs text = text.takeWhile p :: runs (text.dropWhile p) := by
  have htext : text.takeWhile p ++ text.dropWhile p = text := List.takeWhile_append_dropWhile
  conv => lhs; rw [← htext]
  refine runs_append (b := b) hne ?_ ?_
  · intro c hc
    have htaken := List.mem_takeWhile_imp hc
    rw [hp] at htaken
    exact eq_of_beq htaken
  · intro c hc
    have hleft := List.head?_dropWhile_not p text
    rw [Option.mem_def.1 hc] at hleft
    simp only [hp, beq_eq_false_iff_ne] at hleft
    exact Bool.eq_not_of_ne hleft

/-- A text that starts with a unit is no sum of groups. -/
theorem sum?_runs_of_unit (total : Rat) {c : Char} {text : List Char}
    (hc : isNumberChar c = false) : sum? total (runs (c :: text)) = none := by
  have htake : (c :: text).takeWhile (fun d => !isNumberChar d) =
      c :: text.takeWhile fun d => !isNumberChar d := by simp [hc]
  have hnumber : number? (c :: text.takeWhile fun d => !isNumberChar d) = none := by
    refine Option.eq_none_iff_forall_ne_some.2 fun r hr => ?_
    have hpart := (number?_eq_some_iff.1 hr).isNumberChar c List.mem_cons_self
    rw [hc] at hpart
    cases hpart
  rw [runs_eq_cons (fun d => (beq_false (isNumberChar d)).symm) (by simp [htake]), htake]
  cases runs ((c :: text).dropWhile fun d => !isNumberChar d) with
  | nil => rfl
  | cons unit rest => simp [sum?, hnumber]

/-- What one turn of the loop takes off the front is what parsing cuts off: a number and a unit, or
the text is no sum of groups at all. -/
theorem sum?_runs_of_ne_nil (total : Rat) {text : List Char} (hne : text ≠ []) :
    sum? total (runs text) =
      if text.dropWhile isNumberChar = [] then none
      else (do
        let behind := text.dropWhile isNumberChar
        let value ← number? (text.takeWhile isNumberChar)
        let span ← Span.ofChars? (behind.takeWhile fun c => !isNumberChar c)
        let rest := behind.dropWhile fun c => !isNumberChar c
        sum? (addRounded total (value, span)) (runs rest)) := by
  by_cases hnone : text.takeWhile isNumberChar = []
  · obtain ⟨c, rest, rfl⟩ := List.exists_cons_of_ne_nil hne
    have hc : isNumberChar c = false := by simpa using hnone
    rw [sum?_runs_of_unit total hc, hnone, if_neg (by simp [hc])]
    rfl
  rw [runs_eq_cons (fun c => (beq_true (isNumberChar c)).symm) hnone]
  split_ifs with hbehind
  · rw [hbehind]
    rfl
  · -- the rest starts with a unit
    obtain ⟨c, rest, hrest⟩ := List.exists_cons_of_ne_nil hbehind
    have hc := List.head?_dropWhile_not isNumberChar text
    rw [hrest, List.head?_cons] at hc
    have hunit : (text.dropWhile isNumberChar).takeWhile (fun c => !isNumberChar c) ≠ [] := by
      simp [hrest, hc]
    rw [runs_eq_cons (fun d => (beq_false (isNumberChar d)).symm) hunit]
    rfl

theorem readGroups_nil (total : Rat) : readGroups complaint total [] = pure total := by
  change repeatM _ _ >>= _ = _
  rw [repeatM_eq_of_monadTail, repeatM.body]
  rfl

/-- One turn of the loop, which is a `repeatM`, and the rest of it. -/
theorem readGroups_of_ne_nil (total : Rat) {text : List Char} (hne : text ≠ []) :
    readGroups complaint total text = (do
      let (value, behind) ← readNumber complaint text
      let (span, behind) ← readSpan complaint behind
      readGroups complaint (addRounded total (value, span)) behind) := by
  change repeatM _ _ >>= _ = readNumber complaint text >>= fun number =>
    readSpan complaint number.2 >>= fun span => repeatM _ _ >>= _
  conv => lhs; rw [repeatM_eq_of_monadTail, repeatM.body]
  simp only [if_pos hne, bind_assoc, pure_bind]
  rfl

/-- The loop ends with the sum that parsing adds up, or with the complaint. Each turn leaves a
shorter text. -/
theorem readGroups_eq (total : Rat) (text : List Char) :
    readGroups complaint total text = found complaint (sum? total (runs text)) := by
  induction hlength : text.length using Nat.strongRecOn generalizing total text with
  | ind length ih =>
    by_cases hne : text = []
    · rw [hne, readGroups_nil]
      rfl
    rw [readGroups_of_ne_nil complaint total hne, readNumber_eq, sum?_runs_of_ne_nil total hne]
    split_ifs with hbehind
    · rfl
    cases hnumber : number? (text.takeWhile isNumberChar) with
    | none => rfl
    | some value =>
      let behind := text.dropWhile isNumberChar
      change (readSpan complaint behind >>= fun cut =>
          readGroups complaint (addRounded total (value, cut.1)) cut.2) =
        found complaint (Span.ofChars? (behind.takeWhile fun c => !isNumberChar c) >>= fun span =>
          sum? (addRounded total (value, span)) (runs (behind.dropWhile fun c => !isNumberChar c)))
      rw [readSpan_eq]
      cases hspan : Span.ofChars? (behind.takeWhile fun c => !isNumberChar c) with
      | none => rfl
      | some span =>
        -- the number that was cut off has at least one character
        have htaken := List.length_pos_iff.2 (number?_eq_some_iff.1 hnumber).ne_nil
        have hsplit : (text.takeWhile isNumberChar).length + behind.length = text.length := by
          rw [← List.length_append, List.takeWhile_append_dropWhile]
        have hdrop : (behind.dropWhile fun c => !isNumberChar c).length ≤ behind.length :=
          (List.dropWhile_suffix _).length_le
        exact ih (behind.dropWhile fun c => !isNumberChar c).length (by omega) _ _ rfl

theorem readUnsigned_eq (text : List Char) :
    (if text = ['0'] then pure zero
      else if text = [] then throw complaint
      else readGroups complaint 0 text >>= fun total => found complaint (ofTotal? total)) =
      found complaint (ofUnsigned? text) := by
  unfold ofUnsigned?
  split_ifs
  · rfl
  · rfl
  · rw [readGroups_eq, found_bind]
    rfl

theorem ofChars?_minus (text : List Char) : ofChars? ('-' :: text) = none := by
  have hminus : isNumberChar '-' = false := by decide
  rw [ofChars?, ofUnsigned?, if_neg (by simp), if_neg (by simp), sum?_runs_of_unit 0 hminus]
  · rfl
  · simp

/-- Reading ends on every text, with the duration that parsing finds or with its complaint. -/
theorem read_eq (text : List Char) : (read text).run = some (parse text) := by
  have hparse : some (parse text) =
      (found (.badDuration (String.ofList text)) (ofChars? text)).run := by
    unfold parse
    cases ofChars? text <;> rfl
  rw [hparse]
  congr 1
  unfold read
  split
  · rw [ofChars?_minus]
    rfl
  · next rest => exact readUnsigned_eq _ rest
  · next hminus hplus =>
    have hbare : ofChars? text = ofUnsigned? text := by
      unfold ofChars?
      split
      · exact absurd rfl (hplus _)
      · rfl
    rw [hbare]
    exact readUnsigned_eq _ text

/-- Reading ends on every text. It refuses a text that the grammar does not derive, as a whole. One
that is derived is refused only if its sum is above `2 ^ 64`, and a sum of plain numerals is found
exactly as long as it is at most `2 ^ 53`. -/
theorem read_by_grammar (text : List Char) :
    (read text).run = some (parse text) ∧
      ((∀ groups, ¬ Written Decimal text groups) →
        parse text = .error (.badDuration (String.ofList text))) ∧
      (∀ groups, Written Decimal text groups → parse text =
        if roundedSum groups ≤ 2 ^ 64 then
          .ok ⟨min (Precision.nearestUp (roundedSum groups)).toNat (2 ^ 64 - 1)⟩
        else .error (.badDuration (String.ofList text))) ∧
      ∀ groups, Written Numeral text groups → exactSum groups ≤ 2 ^ 53 →
        parse text = .ok ⟨exactSum groups⟩ := by
  refine ⟨read_eq text, parse_of_not_written, ?_, ?_⟩
  · intro groups hgroups
    exact parse_of_written hgroups
  · intro groups hgroups hsum
    exact parse_of_written_numeral hgroups hsum

/-- A sign, leading zeros, the micro sign, and a unit that comes twice. -/
theorem read_by_grammar_micro :
    Written Numeral ['+', '0', '0', '7', 'µ', 's', '1', 'm', '0', '0', '7', 'µ', 's']
        [(7, .microsecond), (1, .minute), (7, .microsecond)] ∧
      (read ['+', '0', '0', '7', 'µ', 's', '1', 'm', '0', '0', '7', 'µ', 's']).run =
        some (.ok ⟨60000014000⟩) := by
  have hseven : Numeral ['0', '0', '7'] 7 := Text.natural?_eq_some_iff.1 rfl
  have hone : Numeral ['1'] 1 := Text.natural?_eq_some_iff.1 rfl
  have hmicro : ['µ', 's'] ∈ Span.microsecond.spellings := by decide
  have hminute : ['m'] ∈ Span.minute.spellings := by decide
  have hgroups : Groups Numeral ['0', '0', '7', 'µ', 's', '1', 'm', '0', '0', '7', 'µ', 's']
      [(7, .microsecond), (1, .minute), (7, .microsecond)] :=
    .cons hseven hmicro (.cons hone hminute (.cons hseven hmicro .nil))
  have hwritten := Written.plus (.groups hgroups (by simp))
  rcases read_by_grammar ('+' :: _) with ⟨hread, -, -, hexact⟩
  exact ⟨hwritten, hread.trans (congrArg some (hexact _ hwritten (by decide)))⟩

end Beacon.Duration
