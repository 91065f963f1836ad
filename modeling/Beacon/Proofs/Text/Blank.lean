import Beacon.Text.Blank
import Mathlib.Data.List.TakeWhile

/-!
# Blanks around a text

Trimming takes blanks away at the two ends of a text and nothing else (`exists_eq_append_trim`), and
leaves none there (`trimmed_trim`). So a text with no blank at either end is what is left of it when
blanks stand around it (`Trimmed.trim_append`).
-/

namespace Beacon.Text

/-- The blanks at the end are taken away behind those at the start. -/
theorem exists_trim_append_eq (cs : List Char) :
    ∃ right, trim cs ++ right = cs.dropWhile isBlank ∧ ∀ c ∈ right, isBlank c = true := by
  refine ⟨((cs.dropWhile isBlank).reverse.takeWhile isBlank).reverse, ?_, ?_⟩
  · rw [trim, ← List.reverse_append, List.takeWhile_append_dropWhile, List.reverse_reverse]
  · intro c hc
    exact List.mem_takeWhile_imp (List.mem_reverse.1 hc)

/-- Trimming takes blanks away at the two ends, and nothing else. -/
theorem exists_eq_append_trim (cs : List Char) :
    ∃ left right, cs = left ++ trim cs ++ right ∧ (∀ c ∈ left, isBlank c = true) ∧
      ∀ c ∈ right, isBlank c = true := by
  rcases exists_trim_append_eq cs with ⟨right, hbody, hright⟩
  refine ⟨cs.takeWhile isBlank, right, ?_, ?_, hright⟩
  · rw [List.append_assoc, hbody, List.takeWhile_append_dropWhile]
  · intro c hc
    exact List.mem_takeWhile_imp hc

/-- A text with no blank at either end. -/
structure Trimmed (cs : List Char) : Prop where
  first : ∀ c, cs.head? = some c → isBlank c = false
  last : ∀ c, cs.getLast? = some c → isBlank c = false

/-- What has no blank at either end is what is left of it when there are blanks around it. -/
theorem Trimmed.trim_append {left spec right : List Char} (hspec : Trimmed spec)
    (hleft : ∀ c ∈ left, isBlank c = true) (hright : ∀ c ∈ right, isBlank c = true) :
    trim (left ++ spec ++ right) = spec := by
  cases spec with
  | nil =>
    have hall : ∀ c ∈ left ++ right, isBlank c = true := by
      intro c hc
      exact (List.mem_append.1 hc).elim (hleft c) (hright c)
    simp [trim, List.dropWhile_eq_nil_iff.2 hall]
  | cons c spec =>
    -- the blanks on the left go as far as the first character of the text
    have hfirst : (left ++ c :: spec ++ right).dropWhile isBlank = c :: spec ++ right := by
      rw [List.append_assoc, List.dropWhile_append_of_pos hleft]
      exact List.dropWhile_cons_of_neg (by simp [hspec.first c rfl])
    -- and from the right, as far as its last one
    have hlast : (c :: spec ++ right).reverse.dropWhile isBlank = (c :: spec).reverse := by
      have hends : ∀ d ∈ right.reverse, isBlank d = true := fun d hd =>
        hright d (List.mem_reverse.1 hd)
      rw [List.reverse_append, List.dropWhile_append_of_pos hends]
      refine List.dropWhile_eq_self_iff.2 fun hne => ?_
      have hend : (c :: spec).getLast? = some ((c :: spec).reverse[0]) := by
        rw [← List.head?_reverse, List.head?_eq_getElem?, List.getElem?_eq_getElem]
      exact fun hblank => Bool.false_ne_true ((hspec.last _ hend).symm.trans hblank)
    rw [trim, hfirst, hlast, List.reverse_reverse]

/-- What is left of a text when it is trimmed has no blank at either end. -/
theorem trimmed_trim (cs : List Char) : Trimmed (trim cs) := by
  have hhead : ∀ {ds : List Char} {c : Char}, (ds.dropWhile isBlank).head? = some c →
      isBlank c = false := by
    intro ds c hc
    have hnot := List.head?_dropWhile_not isBlank ds
    rw [hc] at hnot
    simpa using hnot
  constructor
  · intro c hc
    rcases exists_trim_append_eq cs with ⟨right, hbody, -⟩
    have hfirst : (cs.dropWhile isBlank).head? = some c := by
      rw [← hbody, List.head?_append, hc]
      rfl
    exact hhead hfirst
  · intro c hc
    rw [trim, List.getLast?_reverse] at hc
    exact hhead hc

/-- What has no blanks is what is left of it when there are blanks around it. -/
theorem trim_append {left spec right : List Char} (hleft : ∀ c ∈ left, isBlank c = true)
    (hspec : ∀ c ∈ spec, isBlank c = false) (hright : ∀ c ∈ right, isBlank c = true) :
    trim (left ++ spec ++ right) = spec := by
  have htrimmed : Trimmed spec :=
    ⟨fun c hc => hspec c (List.mem_of_head? hc), fun c hc => hspec c (List.mem_of_getLast? hc)⟩
  exact htrimmed.trim_append hleft hright

theorem trim_eq_self {spec : List Char} (hspec : ∀ c ∈ spec, isBlank c = false) :
    trim spec = spec := by
  have hnone : ∀ c ∈ ([] : List Char), isBlank c = true := by simp
  simpa using trim_append hnone hspec hnone

/-- A blank at the end does not count. -/
theorem trim_concat {c : Char} (hc : isBlank c = true) (cs : List Char) :
    trim (cs ++ [c]) = trim cs := by
  unfold trim
  rw [List.dropWhile_append]
  split
  · next hempty =>
    rw [List.dropWhile_cons_of_pos hc, List.isEmpty_iff.1 hempty]
    rfl
  · rw [List.reverse_append, List.reverse_singleton, List.singleton_append,
      List.dropWhile_cons_of_pos hc]

end Beacon.Text
