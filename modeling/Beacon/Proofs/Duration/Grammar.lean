import Beacon.Effect.Spec
import Beacon.Proofs.Duration
import Beacon.Proofs.Precision

/-!
# The grammar of durations

What a written duration is, said without reading it: groups of a decimal number and a unit, or a
lone zero, after an optional plus sign (`Duration.Written`). How the numbers of the groups are
written is a parameter, so that the same grammar serves for decimal numbers and for plain numerals.
Parsing accepts exactly the durations whose numbers are decimal and whose sum, rounded as it is
added up, is not too large (`Duration.parse_of_written`, `Duration.parse_of_not_written`). A sum of
plain numerals that fits in 53 bits is not rounded at all (`Duration.roundedSum_eq_exactSum`).
-/

namespace Beacon.Duration

open Text (Numeral digits)
open Precision (double)

/-! ## Numbers, units and groups -/

/-- The spellings of a unit. -/
def Span.spellings : Span → List (List Char)
  | nanosecond => [['n', 's']]
  | microsecond => [['u', 's'], ['µ', 's'], ['μ', 's']]
  | millisecond => [['m', 's']]
  | second => [['s']]
  | minute => [['m']]
  | hour => [['h']]

/-- A decimal number with its value: digits, with a point anywhere among them or around them. -/
inductive Decimal : List Char → Rat → Prop
  | whole {cs : List Char} {n : Nat} (h : Numeral cs n) : Decimal cs n
  | pointed {before behind : List Char} {n : Nat} (h : Numeral (before ++ behind) n) :
      Decimal (before ++ '.' :: behind) (n / (10 ^ behind.length : Nat))

section Grammar

variable {α : Type} (Number : List Char → α → Prop)

/-- A number, immediately followed by a unit, again and again. -/
inductive Groups : List Char → List (α × Span) → Prop
  | nil : Groups [] []
  | cons {number unit rest : List Char} {value : α} {span : Span} {groups : List (α × Span)}
      (hnumber : Number number value) (hunit : unit ∈ span.spellings) (hrest : Groups rest groups) :
      Groups (number ++ unit ++ rest) ((value, span) :: groups)

/-- A duration without a sign: a lone zero, which has no groups, or one or more groups. -/
inductive Unsigned : List Char → List (α × Span) → Prop
  | zero : Unsigned ['0'] []
  | groups {text : List Char} {groups : List (α × Span)} (h : Groups Number text groups)
      (hne : groups ≠ []) : Unsigned text groups

/-- A duration: a plus sign may stand in front. -/
inductive Written : List Char → List (α × Span) → Prop
  | bare {text : List Char} {groups : List (α × Span)} (h : Unsigned Number text groups) :
      Written text groups
  | plus {text : List Char} {groups : List (α × Span)} (h : Unsigned Number text groups) :
      Written ('+' :: text) groups

end Grammar

/-- Adds a group to a sum in double precision: the number, its product with the unit and the new sum
are rounded, each by itself. -/
def addRounded (sum : Rat) (group : Rat × Span) : Rat :=
  double (sum + double (double group.1 * group.2.nanos))

/-- The sum of groups in nanoseconds, as it is added up in double precision. -/
def roundedSum (groups : List (Rat × Span)) : Rat := groups.foldl addRounded 0

/-- The sum of groups in nanoseconds. -/
def exactSum (groups : List (Nat × Span)) : Nat := (groups.map fun g => g.1 * g.2.nanos).sum

theorem Span.ofChars?_eq_some_iff {cs : List Char} {span : Span} :
    ofChars? cs = some span ↔ cs ∈ span.spellings := by
  constructor
  · intro h
    unfold ofChars? at h
    split at h
    all_goals cases h
    all_goals decide
  · intro h
    cases span <;> simp only [spellings, List.mem_cons, List.not_mem_nil, or_false] at h
    all_goals rcases h with rfl | rfl | rfl
    all_goals rfl

theorem Decimal.isNumberChar {cs : List Char} {r : Rat} (h : Decimal cs r) :
    ∀ c ∈ cs, Duration.isNumberChar c = true := by
  have hdigit {c : Char} (hc : c.isDigit = true) : Duration.isNumberChar c = true := by
    simp [Duration.isNumberChar, hc]
  cases h with
  | whole h => exact fun c hc => hdigit (h.isDigit c hc)
  | pointed h =>
    intro c hc
    rcases List.mem_append.1 hc with hc | hc
    · exact hdigit (h.isDigit c (List.mem_append_left _ hc))
    · rcases List.mem_cons.1 hc with rfl | hc
      · rfl
      · exact hdigit (h.isDigit c (List.mem_append_right _ hc))

theorem Decimal.ne_nil {cs : List Char} {r : Rat} (h : Decimal cs r) : cs ≠ [] := by
  cases h with
  | whole h => exact h.ne_nil
  | pointed h => simp

theorem Span.not_isNumberChar {cs : List Char} {span : Span} (h : cs ∈ span.spellings) :
    ∀ c ∈ cs, isNumberChar c = false := by
  have hall : (span.spellings.all fun cs => cs.all fun c => !isNumberChar c) = true := by
    cases span <;> rfl
  intro c hc
  have hword := List.all_eq_true.1 hall cs h
  simpa using List.all_eq_true.1 hword c hc

theorem Span.ne_nil {cs : List Char} {span : Span} (h : cs ∈ span.spellings) : cs ≠ [] := by
  rintro rfl
  cases span <;> exact absurd h (by decide)

theorem number?_eq_some_iff {cs : List Char} {r : Rat} : number? cs = some r ↔ Decimal cs r := by
  constructor
  · intro h
    have hcs : cs.takeWhile Char.isDigit ++ cs.dropWhile Char.isDigit = cs :=
      List.takeWhile_append_dropWhile
    unfold number? at h
    simp only at h
    split at h
    · next hnil =>
      simp only [Option.map_eq_some_iff, Option.bind_eq_bind, Option.bind_eq_some_iff,
        Option.pure_def, Option.some.injEq] at h
      obtain ⟨_, ⟨n, hn, rfl⟩, rfl⟩ := h
      -- all characters are digits
      rw [hnil, List.append_nil] at hcs
      rw [← hcs]
      exact .whole (Text.natural?_eq_some_iff.1 hn)
    · next part hpoint =>
      split at h
      · simp only [Option.map_eq_some_iff, Option.bind_eq_bind, Option.bind_eq_some_iff,
          Option.pure_def, Option.some.injEq] at h
        obtain ⟨_, ⟨n, hn, rfl⟩, rfl⟩ := h
        -- digits, a point, and digits
        rw [← hcs, hpoint]
        exact .pointed (Text.natural?_eq_some_iff.1 hn)
      · cases h
    · cases h
  · intro h
    unfold number?
    cases h with
    | whole h =>
      have htake : cs.takeWhile Char.isDigit = cs := List.takeWhile_eq_self_iff.2 h.isDigit
      have hdrop : cs.dropWhile Char.isDigit = [] := List.dropWhile_eq_nil_iff.2 h.isDigit
      simp only [htake, hdrop, Text.natural?_eq_some_iff.2 h]
      rfl
    | @pointed before behind n h =>
      -- the digits before the point end at it, for a point is no digit
      have hbefore : ∀ c ∈ before, c.isDigit = true :=
        fun c hc => h.isDigit c (List.mem_append_left _ hc)
      have hbehind : behind.all Char.isDigit = true :=
        List.all_eq_true.2 fun c hc => h.isDigit c (List.mem_append_right _ hc)
      have hpoint : ¬ '.'.isDigit = true := by decide
      simp only [List.takeWhile_append_of_pos hbefore, List.dropWhile_append_of_pos hbefore,
        List.takeWhile_cons_of_neg hpoint, List.dropWhile_cons_of_neg hpoint, List.append_nil,
        if_pos hbehind, Text.natural?_eq_some_iff.2 h]
      rfl

/-! ## Cutting a text into numbers and units -/

/-- A run ends where a character of the other sort follows. -/
theorem runs_append {b : Bool} {run rest : List Char} (hne : run ≠ [])
    (hrun : ∀ c ∈ run, isNumberChar c = b) (hrest : ∀ c ∈ rest.head?, isNumberChar c = !b) :
    runs (run ++ rest) = run :: runs rest := by
  have hchain : run.IsChain fun c d => (isNumberChar c == isNumberChar d) = true := by
    refine List.Pairwise.isChain (List.pairwise_of_forall_mem_list ?_)
    intro c hc d hd
    rw [hrun c hc, hrun d hd, beq_self_eq_true]
  unfold runs
  rw [List.splitBy_append, List.splitBy_of_isChain hne hchain, List.singleton_append]
  intro c hc d hd
  rw [hrun c (List.mem_of_getLast? hc), hrest d hd]
  cases b <;> rfl

theorem Groups.head_isNumberChar {text : List Char} {groups : List (Rat × Span)}
    (h : Groups Decimal text groups) : ∀ c ∈ text.head?, isNumberChar c = true := by
  intro c hc
  cases h with
  | nil => cases hc
  | cons hnumber hunit hrest =>
    obtain ⟨d, number, rfl⟩ := List.exists_cons_of_ne_nil hnumber.ne_nil
    obtain rfl : d = c := by simpa using hc
    exact hnumber.isNumberChar d List.mem_cons_self

theorem runs_group {number unit rest : List Char} {value : Rat} {span : Span}
    (hnumber : Decimal number value) (hunit : unit ∈ span.spellings)
    (hrest : ∀ c ∈ rest.head?, isNumberChar c = true) :
    runs (number ++ unit ++ rest) = number :: unit :: runs rest := by
  have hhead : ∀ c ∈ (unit ++ rest).head?, isNumberChar c = !true := by
    intro c hc
    obtain ⟨d, tail, rfl⟩ := List.exists_cons_of_ne_nil (Span.ne_nil hunit)
    obtain rfl : d = c := by simpa using hc
    exact Span.not_isNumberChar hunit d List.mem_cons_self
  rw [List.append_assoc, runs_append hnumber.ne_nil hnumber.isNumberChar hhead,
    runs_append (Span.ne_nil hunit) (Span.not_isNumberChar hunit) hrest]

/-- Groups are found and added up. -/
theorem Groups.sum?_runs {text : List Char} {groups : List (Rat × Span)}
    (h : Groups Decimal text groups) (total : Rat) :
    sum? total (runs text) = some (groups.foldl addRounded total) := by
  induction h generalizing total with
  | nil => rfl
  | cons hnumber hunit hrest ih =>
    rw [runs_group hnumber hunit hrest.head_isNumberChar]
    simp only [sum?, number?_eq_some_iff.2 hnumber, Span.ofChars?_eq_some_iff.2 hunit,
      Option.bind_eq_bind, Option.bind_some, ih, List.foldl_cons, addRounded]

/-- What is added up are groups. -/
theorem groups_of_sum? {parts : List (List Char)} {total sum : Rat}
    (h : sum? total parts = some sum) : ∃ groups, Groups Decimal parts.flatten groups := by
  induction total, parts using sum?.induct with
  | case1 total => exact ⟨[], .nil⟩
  | case2 total number unit rest ih =>
    simp only [sum?, Option.bind_eq_bind, Option.bind_eq_some_iff] at h
    obtain ⟨value, hnumber, span, hunit, hrest⟩ := h
    obtain ⟨groups, hgroups⟩ := ih value span hrest
    rw [List.flatten_cons, List.flatten_cons, ← List.append_assoc]
    exact ⟨_, .cons (number?_eq_some_iff.1 hnumber) (Span.ofChars?_eq_some_iff.1 hunit) hgroups⟩
  | case3 total part => cases h

/-! ## Parsing -/

/-- Groups are at least two characters. -/
theorem Groups.lt_length {text : List Char} {groups : List (Rat × Span)}
    (h : Groups Decimal text groups) (hne : groups ≠ []) : 1 < text.length := by
  cases h with
  | nil => exact absurd rfl hne
  | cons hnumber hunit hrest =>
    have hnumber := List.length_pos_iff.2 hnumber.ne_nil
    have hunit := List.length_pos_iff.2 (Span.ne_nil hunit)
    simp only [List.length_append]
    omega

theorem ofTotal?_natCast {n : Nat} (h : n ≤ longest.nanos) : ofTotal? n = some ⟨n⟩ := by
  have hsize : (n : Rat) ≤ (UInt64.size : Nat) := by
    exact_mod_cast h.trans (Nat.sub_le _ _)
  rw [ofTotal?, if_pos hsize, Precision.nearestUp_natCast, Int.toNat_natCast, Nat.min_eq_left h]

theorem Unsigned.ofUnsigned?_eq {text : List Char} {groups : List (Rat × Span)}
    (h : Unsigned Decimal text groups) : ofUnsigned? text = ofTotal? (roundedSum groups) := by
  cases h with
  | zero => exact_mod_cast (ofTotal?_natCast (Nat.zero_le _)).symm
  | groups h hne =>
    have hlength := h.lt_length hne
    have hzero : text ≠ ['0'] := by rintro rfl; simp at hlength
    have hempty : text ≠ [] := by rintro rfl; simp at hlength
    rw [ofUnsigned?, if_neg hzero, if_neg hempty, h.sum?_runs, Option.bind_some]
    rfl

theorem exists_unsigned_of_ofUnsigned? {text : List Char} {d : Duration}
    (h : ofUnsigned? text = some d) : ∃ groups, Unsigned Decimal text groups := by
  unfold ofUnsigned? at h
  split_ifs at h with hzero hempty
  · rw [hzero]
    exact ⟨[], .zero⟩
  · obtain ⟨sum, hsum, -⟩ := Option.bind_eq_some_iff.1 h
    obtain ⟨groups, hgroups⟩ := groups_of_sum? hsum
    have htext : (runs text).flatten = text := List.flatten_splitBy _ text
    rw [htext] at hgroups
    refine ⟨groups, .groups hgroups ?_⟩
    rintro rfl
    cases hgroups
    exact hempty rfl

/-- A duration without a sign starts with a character of a number, so it has no sign. -/
theorem Unsigned.ne_plus {text : List Char} {groups : List (Rat × Span)}
    (h : Unsigned Decimal text groups) (rest : List Char) : text ≠ '+' :: rest := by
  rintro rfl
  cases h with
  | groups h hne => exact absurd (h.head_isNumberChar '+' rfl) (by decide)

theorem Written.ofChars?_eq {text : List Char} {groups : List (Rat × Span)}
    (h : Written Decimal text groups) : ofChars? text = ofTotal? (roundedSum groups) := by
  cases h with
  | bare h =>
    rw [← h.ofUnsigned?_eq]
    unfold ofChars?
    split
    · exact absurd rfl (h.ne_plus _)
    · rfl
  | plus h => exact h.ofUnsigned?_eq

theorem exists_written_of_ofChars? {text : List Char} {d : Duration}
    (h : ofChars? text = some d) : ∃ groups, Written Decimal text groups := by
  unfold ofChars? at h
  split at h
  · obtain ⟨groups, hgroups⟩ := exists_unsigned_of_ofUnsigned? h
    exact ⟨groups, .plus hgroups⟩
  · obtain ⟨groups, hgroups⟩ := exists_unsigned_of_ofUnsigned? h
    exact ⟨groups, .bare hgroups⟩

/-- A text that is no duration is refused. -/
theorem parse_of_not_written {text : List Char} (h : ∀ groups, ¬ Written Decimal text groups) :
    parse text = .error (.badDuration (String.ofList text)) := by
  unfold parse
  split
  · next d hd =>
    obtain ⟨groups, hgroups⟩ := exists_written_of_ofChars? hd
    exact absurd hgroups (h groups)
  · rfl

/-- A duration is refused only if its sum is too large. -/
theorem parse_of_written {text : List Char} {groups : List (Rat × Span)}
    (h : Written Decimal text groups) : parse text =
      if roundedSum groups ≤ 2 ^ 64 then
        .ok ⟨min (Precision.nearestUp (roundedSum groups)).toNat (2 ^ 64 - 1)⟩
      else .error (.badDuration (String.ofList text)) := by
  have hsize : ((UInt64.size : Nat) : Rat) = 2 ^ 64 := by norm_num [UInt64.size]
  rw [parse, h.ofChars?_eq, ofTotal?, hsize]
  by_cases hle : roundedSum groups ≤ 2 ^ 64
  · simp only [if_pos hle]
    rfl
  · simp only [if_neg hle]

/-! ## Sums that fit -/

theorem Span.one_le_nanos (span : Span) : 1 ≤ span.nanos := by
  cases span <;> decide

/-- Plain numerals are decimal numbers. -/
theorem Groups.decimal {text : List Char} {groups : List (Nat × Span)}
    (h : Groups Numeral text groups) :
    Groups Decimal text (groups.map fun g => ((g.1 : Rat), g.2)) := by
  induction h with
  | nil => exact .nil
  | cons hnumber hunit hrest ih => exact .cons (.whole hnumber) hunit ih

theorem Written.decimal {text : List Char} {groups : List (Nat × Span)}
    (h : Written Numeral text groups) :
    Written Decimal text (groups.map fun g => ((g.1 : Rat), g.2)) := by
  have hunsigned {text : List Char} (h : Unsigned Numeral text groups) :
      Unsigned Decimal text (groups.map fun g => ((g.1 : Rat), g.2)) := by
    cases h with
    | zero => exact .zero
    | groups h hne => exact .groups h.decimal (by simpa using hne)
  cases h with
  | bare h => exact .bare (hunsigned h)
  | plus h => exact .plus (hunsigned h)

/-- Adding a group to a sum of at most 53 bits does not round anything: the number is at most its
product with the unit, and that is at most the new sum. -/
theorem addRounded_eq {sum n : Nat} {span : Span} (h : sum + n * span.nanos ≤ 2 ^ 53) :
    addRounded sum (n, span) = (sum + n * span.nanos : Nat) := by
  have hproduct : n * span.nanos ≤ 2 ^ 53 := by omega
  have hnumber : n ≤ 2 ^ 53 := (Nat.le_mul_of_pos_right n span.one_le_nanos).trans hproduct
  have hcast : (n : Rat) * span.nanos = (n * span.nanos : Nat) := (Nat.cast_mul _ _).symm
  rw [addRounded, Precision.double_natCast hnumber, hcast, Precision.double_natCast hproduct,
    ← Nat.cast_add, Precision.double_natCast h]

theorem foldl_addRounded {groups : List (Nat × Span)} {sum : Nat}
    (h : sum + exactSum groups ≤ 2 ^ 53) :
    (groups.map fun g => ((g.1 : Rat), g.2)).foldl addRounded sum =
      (sum + exactSum groups : Nat) := by
  induction groups generalizing sum with
  | nil => rfl
  | cons group groups ih =>
    have hsum : exactSum (group :: groups) = group.1 * group.2.nanos + exactSum groups := rfl
    rw [hsum, ← Nat.add_assoc] at h ⊢
    rw [List.map_cons, List.foldl_cons, addRounded_eq (by omega), ih h]

/-- A sum of plain numerals is added up exactly as long as it has 53 bits. -/
theorem roundedSum_eq_exactSum {groups : List (Nat × Span)} (h : exactSum groups ≤ 2 ^ 53) :
    roundedSum (groups.map fun g => ((g.1 : Rat), g.2)) = exactSum groups := by
  have hsum := @foldl_addRounded groups 0 (by rwa [Nat.zero_add])
  rwa [Nat.zero_add] at hsum

/-- A duration in plain numerals is read exactly as long as its nanoseconds have 53 bits. -/
theorem parse_of_written_numeral {text : List Char} {groups : List (Nat × Span)}
    (h : Written Numeral text groups) (hsum : exactSum groups ≤ 2 ^ 53) :
    parse text = .ok ⟨exactSum groups⟩ := by
  have hlongest : exactSum groups ≤ longest.nanos := hsum.trans (by decide)
  rw [parse, h.decimal.ofChars?_eq, roundedSum_eq_exactSum hsum, ofTotal?_natCast hlongest]

end Beacon.Duration
