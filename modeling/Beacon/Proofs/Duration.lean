import Beacon.Duration
import Beacon.Proofs.Text.Numeral
import Mathlib.Data.List.SplitBy
import Mathlib.Data.List.TakeWhile

/-!
# Written durations

The characters that a duration can be written with (`Duration.alphabet`). No mark of an effect is
among them, so a duration can stand between such marks (`Duration.subset_of_ofChars?`).
-/

namespace Beacon.Duration

open Text (digits)

/-- The characters of written durations. -/
def alphabet : List Char := ['+', '.', 'n', 'u', 'µ', 'μ', 'm', 's', 'h'] ++ digits

theorem subset_of_number? {cs : List Char} {r : Rat} (h : number? cs = some r) :
    cs ⊆ '.' :: digits := by
  have hdigits : ∀ {part : List Char}, (∀ c ∈ part, c.isDigit = true) → part ⊆ '.' :: digits :=
    fun hpart c hc => List.mem_cons_of_mem _ (Text.mem_digits (hpart c hc))
  rw [← List.takeWhile_append_dropWhile (p := Char.isDigit) (l := cs)]
  refine List.append_subset.2 ⟨hdigits fun c hc => List.mem_takeWhile_imp hc, ?_⟩
  unfold number? at h
  simp only at h
  split at h
  · next hnil => simp [hnil]
  · next part hpoint =>
    split at h
    · next hpart =>
      rw [hpoint]
      exact List.cons_subset.2 ⟨by decide, hdigits (List.all_eq_true.1 hpart)⟩
    · cases h
  · cases h

theorem Span.subset_of_ofChars? {cs : List Char} {span : Span} (h : Span.ofChars? cs = some span) :
    cs ⊆ alphabet := by
  unfold Span.ofChars? at h
  split at h
  all_goals first | decide | cases h

theorem subset_of_sum? {groups : List (List Char)} {total sum : Rat}
    (h : sum? total groups = some sum) : groups.flatten ⊆ alphabet := by
  induction total, groups using sum?.induct with
  | case1 total => simp
  | case2 total number unit rest ih =>
    simp only [sum?, Option.bind_eq_bind, Option.bind_eq_some_iff] at h
    rcases h with ⟨value, hnumber, span, hunit, hrest⟩
    have hpoint : '.' :: digits ⊆ alphabet := by decide
    simp only [List.flatten_cons, List.append_subset]
    exact ⟨List.Subset.trans (subset_of_number? hnumber) hpoint, Span.subset_of_ofChars? hunit,
      ih value span hrest⟩
  | case3 total group => simp [sum?] at h

theorem subset_of_ofUnsigned? {cs : List Char} {d : Duration} (h : ofUnsigned? cs = some d) :
    cs ⊆ alphabet := by
  unfold ofUnsigned? at h
  split at h
  · next hzero =>
    rw [hzero]
    decide
  · split at h
    · cases h
    · rcases Option.bind_eq_some_iff.1 h with ⟨total, htotal, -⟩
      have hruns : (runs cs).flatten = cs := List.flatten_splitBy _ cs
      rw [← hruns]
      exact subset_of_sum? htotal

theorem subset_of_ofChars? {cs : List Char} {d : Duration} (h : ofChars? cs = some d) :
    cs ⊆ alphabet := by
  unfold ofChars? at h
  split at h
  · exact List.cons_subset.2 ⟨by decide, subset_of_ofUnsigned? h⟩
  · exact subset_of_ofUnsigned? h

end Beacon.Duration
