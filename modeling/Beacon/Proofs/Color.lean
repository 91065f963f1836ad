import Beacon.Color
import Beacon.Proofs.Text.Field
import Beacon.Proofs.Text.Numeral

/-!
# Written colours

What the text of a colour is, said without reading it: three channels between commas
(`Color.Triple`), bare or in one pair of braces (`Color.Written`). Reading accepts exactly these
texts (`Color.ofChars?_eq_some_iff`).
-/

namespace Beacon.Color

open Text (Numeral Balanced digits)

/-- One channel of a written colour. -/
def Channel (cs : List Char) (v : UInt8) : Prop := cs.length ≤ 3 ∧ Numeral cs v.toNat

/-- Three channels between commas. -/
inductive Triple : List Char → Color → Prop
  | mk {r g b : List Char} {c : Color} (hr : Channel r c.red) (hg : Channel g c.green)
      (hb : Channel b c.blue) : Triple (r ++ ',' :: g ++ ',' :: b) c

/-- A triple, bare or in one pair of braces. -/
inductive Written : List Char → Color → Prop
  | bare {cs : List Char} {c : Color} (h : Triple cs c) : Written cs c
  | braced {cs : List Char} {c : Color} (h : Triple cs c) : Written ('{' :: cs ++ ['}']) c

theorem channel?_eq_some_iff {cs : List Char} {v : UInt8} :
    channel? cs = some v ↔ Channel cs v := by
  unfold channel? Channel
  constructor
  · intro h
    split at h
    · next hlength =>
      rcases Option.map_eq_some_iff.1 h with ⟨n, hn, rfl⟩
      simp only [Option.filter_eq_some_iff, Text.natural?_eq_some_iff, decide_eq_true_eq] at hn
      have hsmall : n < 2 ^ 8 := by omega
      rw [UInt8.toNat_ofNat_of_lt' hsmall]
      exact ⟨hlength, hn.1⟩
    · cases h
  · rintro ⟨hlength, hnumeral⟩
    have hle : v.toNat ≤ 255 := Nat.le_of_lt_succ v.toNat_lt
    rw [if_pos hlength, Text.natural?_eq_some_iff.2 hnumeral]
    simp [hle]

theorem Channel.notMem {cs : List Char} {v : UInt8} (h : Channel cs v) {c : Char}
    (hc : c ∉ digits) : c ∉ cs := fun hmem => hc (h.2.subset hmem)

theorem Triple.subset {cs : List Char} {v : Color} (h : Triple cs v) : cs ⊆ ',' :: digits := by
  cases h with
  | mk hr hg hb =>
    have hcomma : ',' ∈ ',' :: digits := List.mem_cons_self
    simp only [List.append_subset, List.cons_subset]
    exact ⟨⟨List.subset_cons_of_subset _ hr.2.subset, hcomma,
      List.subset_cons_of_subset _ hg.2.subset⟩, hcomma, List.subset_cons_of_subset _ hb.2.subset⟩

theorem Triple.notMem {cs : List Char} {v : Color} (h : Triple cs v) {c : Char}
    (hc : c ∉ ',' :: digits) : c ∉ cs := fun hmem => hc (h.subset hmem)

theorem Triple.count_comma {cs : List Char} {v : Color} (h : Triple cs v) : cs.count ',' = 2 := by
  cases h with
  | mk hr hg hb =>
    have hcomma : ',' ∉ digits := by decide
    simp [List.count_eq_zero.2 (hr.notMem hcomma), List.count_eq_zero.2 (hg.notMem hcomma),
      List.count_eq_zero.2 (hb.notMem hcomma)]

theorem unbraced?_eq_some_iff {cs body : List Char} :
    unbraced? cs = some body ↔ cs = '{' :: body ++ ['}'] ∨ cs = body ∧ body.head? ≠ some '{' := by
  unfold unbraced?
  split
  · next rest =>
    rw [Text.dropLast?_eq_some_iff]
    constructor
    · rintro rfl
      exact .inl rfl
    · rintro (h | ⟨rfl, h⟩)
      · exact (List.cons.inj h).2
      · exact absurd rfl h
  · next hbrace =>
    constructor
    · intro h
      obtain rfl := Option.some.inj h
      refine .inr ⟨rfl, fun hhead => ?_⟩
      rcases List.head?_eq_some_iff.1 hhead with ⟨rest, rfl⟩
      exact hbrace rest rfl
    · rintro (rfl | ⟨rfl, -⟩)
      · exact absurd rfl (hbrace _)
      · rfl

/-- Cutting at the commas finds the channels of a triple. -/
theorem triple_iff_fields {cs : List Char} {v : Color} :
    Triple cs v ↔ ∃ r g b, Text.fields ',' cs = [r, g, b] ∧ Channel r v.red ∧ Channel g v.green ∧
      Channel b v.blue := by
  constructor
  · intro h
    cases h with
    | mk hr hg hb =>
      have hcomma : ',' ∉ digits := by decide
      exact ⟨_, _, _, Text.fields_eq_three_iff.2
        ⟨rfl, hr.notMem hcomma, hg.notMem hcomma, hb.notMem hcomma⟩, hr, hg, hb⟩
  · rintro ⟨r, g, b, hfields, hr, hg, hb⟩
    rcases Text.fields_eq_three_iff.1 hfields with ⟨rfl, -⟩
    exact .mk hr hg hb

theorem ofChars?_eq_some_iff {cs : List Char} {v : Color} :
    ofChars? cs = some v ↔ Written cs v := by
  -- apart from the braces, a colour is its three channels
  have hread : ofChars? cs = some v ↔ ∃ body, unbraced? cs = some body ∧ Triple body v := by
    simp only [triple_iff_fields, ← channel?_eq_some_iff]
    unfold ofChars?
    simp only [Option.bind_eq_bind, Option.bind_eq_some_iff]
    refine exists_congr fun body => and_congr_right fun _ => ?_
    constructor
    · intro h
      split at h
      · next r g b hfields =>
        simp only [Option.bind_eq_some_iff, Option.pure_def, Option.some.injEq] at h
        rcases h with ⟨_, hr, _, hg, _, hb, rfl⟩
        exact ⟨r, g, b, hfields, hr, hg, hb⟩
      · cases h
    · rintro ⟨r, g, b, hfields, hr, hg, hb⟩
      simp [hfields, hr, hg, hb]
  rw [hread]
  constructor
  · -- the body is what is between the braces, or all of the text
    rintro ⟨body, hbody, htriple⟩
    rcases unbraced?_eq_some_iff.1 hbody with rfl | ⟨rfl, -⟩
    · exact .braced htriple
    · exact .bare htriple
  · intro h
    cases h with
    | bare h =>
      -- a triple begins with a digit, so no brace is taken off
      refine ⟨cs, unbraced?_eq_some_iff.2 (.inr ⟨rfl, fun hhead => ?_⟩), h⟩
      exact h.notMem (by decide) (List.mem_of_head? hhead)
    | braced h => exact ⟨_, unbraced?_eq_some_iff.2 (.inl rfl), h⟩

theorem Written.subset {cs : List Char} {v : Color} (h : Written cs v) :
    cs ⊆ ['{', '}', ','] ++ digits := by
  cases h with
  | bare h => exact List.subset_append_of_subset_right ['{', '}'] h.subset
  | braced h =>
    have hinner := List.subset_append_of_subset_right ['{', '}'] h.subset
    exact List.append_subset.2 ⟨List.cons_subset.2 ⟨by decide, hinner⟩, by decide⟩

theorem Written.notMem {cs : List Char} {v : Color} (h : Written cs v) {c : Char}
    (hc : c ∉ ['{', '}', ','] ++ digits) : c ∉ cs := fun hmem => hc (h.subset hmem)

theorem Written.count_comma {cs : List Char} {v : Color} (h : Written cs v) :
    cs.count ',' = 2 := by
  cases h with
  | bare h => exact h.count_comma
  | braced h => simp [h.count_comma]

theorem Triple.balanced {cs : List Char} {v : Color} (h : Triple cs v) : Balanced '{' '}' cs :=
  .of_notMem (h.notMem (by decide)) (h.notMem (by decide))

theorem Written.balanced {cs : List Char} {v : Color} (h : Written cs v) : Balanced '{' '}' cs := by
  cases h with
  | bare h => exact h.balanced
  | braced h => exact h.balanced.embrace (by decide)

end Beacon.Color
