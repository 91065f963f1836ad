import Beacon.Text.Numeral
import Mathlib.Data.List.Induction
import Mathlib.Tactic.IntervalCases

/-!
# Written numbers

What a numeral is, said without reading it: one or more digits, of which each new one counts ten
times less than the ones before it (`Numeral`), and a numeral after an optional sign (`Signed`).
Reading accepts exactly these and gives their values (`natural?_eq_some_iff`,
`integer?_eq_some_iff`).
-/

namespace Beacon.Text

/-- The ten digits. -/
def digits : List Char := ['0', '1', '2', '3', '4', '5', '6', '7', '8', '9']

theorem mem_digits {c : Char} (h : c.isDigit = true) : c ∈ digits := by
  rcases Char.isDigit_iff_toNat.1 h with ⟨hlo, hhi⟩
  have h0 : '0'.toNat = 48 := rfl
  have h9 : '9'.toNat = 57 := rfl
  rw [h0] at hlo
  rw [h9] at hhi
  have hc := Char.ofNat_toNat c
  interval_cases c.toNat <;> (rw [← hc]; decide)

/-- A list of digits with the number that it stands for. -/
inductive Numeral : List Char → Nat → Prop
  | digit {c : Char} (hc : c.isDigit = true) : Numeral [c] (c.toNat - '0'.toNat)
  | snoc {cs : List Char} {n : Nat} {c : Char} (h : Numeral cs n) (hc : c.isDigit = true) :
      Numeral (cs ++ [c]) (10 * n + (c.toNat - '0'.toNat))

/-- A numeral after an optional sign, with the number that it stands for. -/
inductive Signed : List Char → Int → Prop
  | plain {cs : List Char} {n : Nat} (h : Numeral cs n) : Signed cs n
  | plus {cs : List Char} {n : Nat} (h : Numeral cs n) : Signed ('+' :: cs) n
  | minus {cs : List Char} {n : Nat} (h : Numeral cs n) : Signed ('-' :: cs) (-n)

theorem Numeral.ne_nil {cs : List Char} {n : Nat} (h : Numeral cs n) : cs ≠ [] := by
  cases h <;> simp

theorem Numeral.isDigit {cs : List Char} {n : Nat} (h : Numeral cs n) :
    ∀ c ∈ cs, c.isDigit = true := by
  induction h with
  | digit hc => simpa using hc
  | snoc h hc ih =>
    intro d hd
    rcases List.mem_append.1 hd with hd | hd
    · exact ih d hd
    · rwa [List.mem_singleton.1 hd]

@[simp] theorem digitsValue_concat (cs : List Char) (c : Char) :
    digitsValue (cs ++ [c]) = 10 * digitsValue cs + (c.toNat - '0'.toNat) := by
  simp [digitsValue]

theorem Numeral.digitsValue_eq {cs : List Char} {n : Nat} (h : Numeral cs n) :
    digitsValue cs = n := by
  induction h with
  | digit hc => simp [digitsValue]
  | snoc h hc ih => rw [digitsValue_concat, ih]

/-- Any digits are the numeral of their value. -/
theorem numeral_digitsValue {cs : List Char} (hne : cs ≠ []) (h : ∀ c ∈ cs, c.isDigit = true) :
    Numeral cs (digitsValue cs) := by
  induction cs using List.reverseRecOn with
  | nil => exact absurd rfl hne
  | append_singleton cs c ih =>
    have hc : c.isDigit = true := h c (by simp)
    cases cs with
    | nil => simpa [digitsValue] using Numeral.digit hc
    | cons d cs =>
      rw [digitsValue_concat]
      exact .snoc (ih (by simp) fun d hd => h d (List.mem_append_left _ hd)) hc

theorem natural?_eq_some_iff {cs : List Char} {n : Nat} : natural? cs = some n ↔ Numeral cs n := by
  unfold natural?
  constructor
  · intro h
    split at h
    · next hdigits =>
      rw [← Option.some.inj h]
      exact numeral_digitsValue hdigits.1 (List.all_eq_true.1 hdigits.2)
    · cases h
  · intro h
    rw [if_pos ⟨h.ne_nil, List.all_eq_true.2 h.isDigit⟩, h.digitsValue_eq]

theorem integer?_eq_some_iff {cs : List Char} {n : Int} : integer? cs = some n ↔ Signed cs n := by
  constructor
  · intro h
    unfold integer? at h
    split at h
    all_goals
      simp only [Option.map_eq_some_iff, Option.bind_eq_bind, Option.bind_eq_some_iff,
        Option.pure_def, Option.some.injEq] at h
      rcases h with ⟨_, ⟨m, hm, rfl⟩, rfl⟩
      have hread := natural?_eq_some_iff.1 hm
    · exact .minus hread
    · exact .plus hread
    · exact .plain hread
  · intro h
    cases h with
    | plus h | minus h => simp [integer?, natural?_eq_some_iff.2 h]
    | plain h =>
      -- a digit is no sign
      have hread := natural?_eq_some_iff.2 h
      have hdigit := h.isDigit
      unfold integer?
      split
      · exact absurd (hdigit '-' (by simp)) (by decide)
      · exact absurd (hdigit '+' (by simp)) (by decide)
      · rw [hread]
        rfl

theorem integerWithin?_eq_some_iff {lo hi : Int} {cs : List Char} {n : Int} :
    integerWithin? lo hi cs = some n ↔ Signed cs n ∧ lo ≤ n ∧ n ≤ hi := by
  simp [integerWithin?, Option.filter_eq_some_iff, integer?_eq_some_iff]

theorem Numeral.subset {cs : List Char} {n : Nat} (h : Numeral cs n) : cs ⊆ digits :=
  fun c hc => mem_digits (h.isDigit c hc)

theorem Signed.subset {cs : List Char} {n : Int} (h : Signed cs n) : cs ⊆ ['+', '-'] ++ digits := by
  cases h with
  | plain h => exact List.subset_append_of_subset_right _ h.subset
  | plus h | minus h =>
    exact List.cons_subset.2 ⟨by decide, List.subset_append_of_subset_right _ h.subset⟩

theorem Signed.notMem {cs : List Char} {n : Int} (h : Signed cs n) {c : Char}
    (hc : c ∉ ['+', '-'] ++ digits) : c ∉ cs := fun hmem => hc (h.subset hmem)

end Beacon.Text
