import Beacon.Text.Field
import Mathlib.Data.List.TakeWhile

/-!
# Cuts and joints

Cutting a list into fields undoes joining them (`fields_append_sep`, `fields_flatMap`), a list is
cut into three fields exactly where two separators are (`fields_eq_three_iff`), and what is enclosed
between two given ends is found exactly where these ends are (`enclosed?_eq_some_iff`), and missed
exactly where one of them lacks (`enclosed?_eq_none_iff`). Lines that are cut off at some point
leave whole lines and at most a part of one (`Cut`, `exists_cut`).

A text is `Balanced` when each closing mark closes an opening one before it, and all are closed; it
is `Enclosed` when what opens first is closed by the last element, and not before. So an enclosed
text breaks off into no shorter one (`Enclosed.eq_of_prefix`).
-/

namespace Beacon.Text

variable {α : Type} [DecidableEq α]

/-- A separator ends a field: what stands on its two sides is cut by itself. -/
theorem fields_append_sep (sep : α) (xs ys : List α) :
    fields sep (xs ++ sep :: ys) = fields sep xs ++ fields sep ys := by
  induction xs with
  | nil => simp [fields]
  | cons x xs ih =>
    by_cases hx : x = sep
    · simp [fields, hx, ih]
    · simp only [List.cons_append, fields, if_neg hx, ih]
      cases h : fields sep xs with
      | nil => exact absurd h (fields_ne_nil sep xs)
      | cons field rest => rfl

/-- A list without separators is one field. -/
theorem fields_of_notMem {sep : α} {xs : List α} (hxs : sep ∉ xs) : fields sep xs = [xs] := by
  induction xs with
  | nil => rfl
  | cons x xs ih =>
    have hx : x ≠ sep := fun h => hxs (by simp [h])
    have hrest := ih (fun h => hxs (List.mem_cons_of_mem _ h))
    simp [fields, hx, hrest]

/-- Where the first separator of a list stands is fixed. -/
theorem append_sep_inj {sep : α} {xs xs' ys ys' : List α} (hxs : sep ∉ xs) (hxs' : sep ∉ xs')
    (h : xs ++ sep :: ys = xs' ++ sep :: ys') : xs = xs' ∧ ys = ys' := by
  have hfirst : xs = xs' := by
    have hfields := congrArg (fields sep) h
    rw [fields_append_sep, fields_append_sep, fields_of_notMem hxs,
      fields_of_notMem hxs'] at hfields
    exact (List.cons.inj hfields).1
  subst hfirst
  exact ⟨rfl, (List.cons.inj (List.append_cancel_left h)).2⟩

/-- There is one field more than there are separators. -/
theorem length_fields (sep : α) (cs : List α) :
    (fields sep cs).length = cs.count sep + 1 := by
  induction cs with
  | nil => rfl
  | cons c cs ih =>
    by_cases hc : c = sep
    · simp [fields, hc, ih]
    · rw [List.count_cons_of_ne hc, ← ih]
      simp only [fields, if_neg hc]
      cases h : fields sep cs with
      | nil => exact absurd h (fields_ne_nil sep cs)
      | cons field rest => rfl

/-- Lines that are all ended by the separator are cut into just these lines. -/
theorem fields_flatMap {sep : α} {ls : List (List α)} (hls : ∀ l ∈ ls, sep ∉ l) :
    fields sep (ls.flatMap (· ++ [sep])) = ls ++ [[]] := by
  induction ls with
  | nil => rfl
  | cons l ls ih =>
    have hrest := ih (fun l' hl' => hls l' (List.mem_cons_of_mem _ hl'))
    have hl := fields_of_notMem (hls l List.mem_cons_self)
    simp [fields_append_sep, hrest, hl]

/-- A list with a separator is cut there for the first time. -/
theorem fields_eq_cons_iff {sep : α} {cs field : List α} {rest : List (List α)}
    (hrest : rest ≠ []) :
    fields sep cs = field :: rest ↔
      ∃ tail, cs = field ++ sep :: tail ∧ sep ∉ field ∧ fields sep tail = rest := by
  constructor
  · intro h
    induction cs generalizing field with
    | nil =>
      simp only [fields, List.cons.injEq] at h
      exact absurd h.2.symm hrest
    | cons c cs ih =>
      unfold fields at h
      split at h
      · next hc =>
        rcases List.cons.inj h with ⟨rfl, htail⟩
        exact ⟨cs, by simp [hc], by simp, htail⟩
      · next hc =>
        split at h
        · next hnil => exact absurd hnil (fields_ne_nil sep cs)
        · next first others hfields =>
          rcases List.cons.inj h with ⟨rfl, rfl⟩
          rcases ih hfields with ⟨tail, rfl, hfirst, htail⟩
          exact ⟨tail, rfl, by simp [hfirst, Ne.symm hc], htail⟩
  · rintro ⟨tail, rfl, hfield, rfl⟩
    rw [fields_append_sep, fields_of_notMem hfield, List.singleton_append]

/-- A list is one field exactly when it has no separator. -/
theorem fields_eq_singleton_iff {sep : α} {cs field : List α} :
    fields sep cs = [field] ↔ cs = field ∧ sep ∉ field := by
  constructor
  · intro h
    by_cases hsep : sep ∈ cs
    · rcases List.append_of_mem hsep with ⟨init, tail, rfl⟩
      rw [fields_append_sep] at h
      have hlength := congrArg List.length h
      have hinit := List.length_pos_iff.2 (fields_ne_nil sep init)
      have htail := List.length_pos_iff.2 (fields_ne_nil sep tail)
      simp only [List.length_append, List.length_singleton] at hlength
      omega
    · rw [fields_of_notMem hsep, List.cons.injEq] at h
      exact ⟨h.1, h.1 ▸ hsep⟩
  · rintro ⟨rfl, hsep⟩
    exact fields_of_notMem hsep

/-- A list is cut into three fields exactly where it has two separators. -/
theorem fields_eq_three_iff {sep : α} {cs a b c : List α} :
    fields sep cs = [a, b, c] ↔
      cs = a ++ sep :: b ++ sep :: c ∧ sep ∉ a ∧ sep ∉ b ∧ sep ∉ c := by
  rw [fields_eq_cons_iff (by simp)]
  constructor
  · rintro ⟨tail, rfl, ha, htail⟩
    rcases (fields_eq_cons_iff (by simp)).1 htail with ⟨last, rfl, hb, hlast⟩
    rcases fields_eq_singleton_iff.1 hlast with ⟨rfl, hc⟩
    exact ⟨by simp, ha, hb, hc⟩
  · rintro ⟨rfl, ha, hb, hc⟩
    refine ⟨b ++ sep :: c, by simp, ha, ?_⟩
    exact (fields_eq_cons_iff (by simp)).2 ⟨c, rfl, hb, fields_of_notMem hc⟩

/-! ## Lines -/

/-- A list without line ends is one line, or none if it is empty. -/
theorem lines_of_notMem {newline : α} {cs : List α} (h : newline ∉ cs) :
    lines newline cs = if cs = [] then [] else [cs] := by
  unfold lines
  rw [fields_of_notMem h]
  by_cases hcs : cs = [] <;> simp [hcs]

/-- What stands before the first line end is the first line. -/
theorem lines_append_sep {newline : α} {l cs : List α} (h : newline ∉ l) :
    lines newline (l ++ newline :: cs) = l :: lines newline cs := by
  unfold lines
  rw [fields_append_sep, fields_of_notMem h]
  rcases List.eq_nil_or_concat (fields newline cs) with hnil | ⟨init, last, hcs⟩
  · exact absurd hnil (fields_ne_nil newline cs)
  · have hinit : [l] ++ (init ++ [last]) = (l :: init) ++ [last] := rfl
    rw [hcs, List.concat_eq_append, hinit]
    simp only [List.getLast?_concat, List.dropLast_concat, Option.some.injEq]
    split <;> rfl

section Cut

variable {newline : α} {first : List α} {ls tail : List (List α)} {k m : Nat}

/-- What is left of lines that are cut off after `k` elements: the first `m` lines, which are those
that lie wholly before the cut, whether their end does or not, and behind them at most a part of
one line. -/
structure Cut (newline : α) (ls : List (List α)) (k m : Nat) (tail : List (List α)) : Prop where
  le_length : m ≤ ls.length
  lines_eq : lines newline ((ls.flatMap (· ++ [newline])).take k) = ls.take m ++ tail
  whole : ∀ i l, ls[i]? = some l →
    (i < m ↔ ((ls.take i).flatMap (· ++ [newline]) ++ l).length ≤ k)
  part : tail = [] ∨ ∃ l ∈ ls, ∃ part, tail = [part] ∧ part ≠ [] ∧ part ≠ l ∧ part <+: l
  all : (ls.flatMap (· ++ [newline])).length ≤ k → m = ls.length ∧ tail = []

omit [DecidableEq α] in
theorem flatMap_cons_sep (newline : α) (first : List α) (ls : List (List α)) :
    (first :: ls).flatMap (· ++ [newline]) =
      first ++ newline :: ls.flatMap (· ++ [newline]) := by
  simp

theorem Cut.nil (newline : α) (k : Nat) : Cut newline [] k 0 [] where
  le_length := Nat.le_refl 0
  lines_eq := by simp [lines, fields]
  whole i l hl := by simp at hl
  part := .inl rfl
  all _ := ⟨rfl, rfl⟩

/-- A cut inside the first line leaves a part of it, or nothing. -/
theorem Cut.inside (hfirst : newline ∉ first) (hlt : k < first.length) :
    Cut newline (first :: ls) k 0 (lines newline (first.take k)) where
  le_length := Nat.zero_le _
  lines_eq := by
    rw [flatMap_cons_sep, List.take_append_of_le_length hlt.le, List.take_zero, List.nil_append]
  whole i l hl := by
    cases i with
    | zero =>
      rcases Option.some.inj hl with rfl
      simpa using hlt
    | succ i =>
      simp only [List.take_succ_cons, List.flatMap_cons, List.length_append]
      omega
  part := by
    have hpart : newline ∉ first.take k := fun h => hfirst (List.mem_of_mem_take h)
    rw [lines_of_notMem hpart]
    split
    · exact .inl rfl
    · next hsome =>
      refine .inr ⟨first, List.mem_cons_self, _, rfl, hsome, fun h => ?_, List.take_prefix k _⟩
      have hlength := congrArg List.length h
      rw [List.length_take] at hlength
      omega
  all hle := by
    rw [flatMap_cons_sep, List.length_append] at hle
    omega

/-- A cut right behind the first line, before its end, leaves this line. -/
theorem Cut.behind (hfirst : newline ∉ first) (hne : first ≠ []) :
    Cut newline (first :: ls) first.length 1 [] where
  le_length := by simp
  lines_eq := by
    rw [flatMap_cons_sep, List.take_left, lines_of_notMem hfirst, if_neg hne]
    simp
  whole i l hl := by
    cases i with
    | zero =>
      rcases Option.some.inj hl with rfl
      simp
    | succ i =>
      simp only [List.take_succ_cons, List.flatMap_cons, List.length_append,
        List.length_singleton]
      omega
  part := .inl rfl
  all hle := by
    rw [flatMap_cons_sep, List.length_append, List.length_cons] at hle
    omega

/-- A cut behind the end of the first line is a cut of the others. -/
theorem Cut.cons (hfirst : newline ∉ first) (h : Cut newline ls k m tail) :
    Cut newline (first :: ls) (first.length + (k + 1)) (m + 1) tail where
  le_length := Nat.succ_le_succ h.le_length
  lines_eq := by
    rw [flatMap_cons_sep, List.take_length_add_append, List.take_succ_cons,
      lines_append_sep hfirst, h.lines_eq, List.take_succ_cons, List.cons_append]
  whole i l hl := by
    cases i with
    | zero =>
      rcases Option.some.inj hl with rfl
      simp
    | succ i =>
      have hwhole := h.whole i l (by simpa using hl)
      simp only [List.take_succ_cons, List.flatMap_cons, List.length_append,
        List.length_singleton] at hwhole ⊢
      omega
  part := by
    rcases h.part with hnil | ⟨l, hl, hpart⟩
    · exact .inl hnil
    · exact .inr ⟨l, List.mem_cons_of_mem _ hl, hpart⟩
  all hle := by
    rw [flatMap_cons_sep, List.length_append, List.length_cons] at hle
    rcases h.all (by omega) with ⟨rfl, rfl⟩
    exact ⟨rfl, rfl⟩

/-- Wherever lines are cut off, something is left as `Cut` says. -/
theorem exists_cut (hls : ∀ l ∈ ls, newline ∉ l) (hne : ∀ l ∈ ls, l ≠ []) (k : Nat) :
    ∃ m tail, Cut newline ls k m tail := by
  induction ls generalizing k with
  | nil => exact ⟨0, [], .nil newline k⟩
  | cons first ls ih =>
    rcases List.forall_mem_cons.1 hls with ⟨hfirst, hrest⟩
    rcases List.forall_mem_cons.1 hne with ⟨hsome, hnonempty⟩
    rcases Nat.lt_trichotomy k first.length with hlt | rfl | hgt
    · exact ⟨0, _, .inside hfirst hlt⟩
    · exact ⟨1, [], .behind hfirst hsome⟩
    · obtain ⟨k, rfl⟩ := Nat.exists_eq_add_of_lt hgt
      rcases ih hrest hnonempty k with ⟨m, tail, hcut⟩
      exact ⟨m + 1, tail, hcut.cons hfirst⟩

end Cut

/-! ## Enclosing marks -/

theorem dropLast?_eq_some_iff {last : α} {cs body : List α} :
    dropLast? last cs = some body ↔ cs = body ++ [last] := by
  unfold dropLast?
  constructor
  · intro h
    split at h
    · next hlast =>
      rcases List.getLast?_eq_some_iff.1 hlast with ⟨init, rfl⟩
      rw [← Option.some.inj h, List.dropLast_concat]
    · cases h
  · rintro rfl
    simp

/-- A text is enclosed exactly when it is a name, an opening mark, a body and a closing mark. -/
theorem enclosed?_eq_some_iff {opening closing : α} {cs name body : List α} :
    enclosed? opening closing cs = some (name, body) ↔
      cs = name ++ opening :: body ++ [closing] ∧ opening ∉ name := by
  unfold enclosed?
  constructor
  · intro h
    have hcut := List.takeWhile_append_dropWhile (p := (· ≠ opening)) (l := cs)
    split at h
    · cases h
    · next mark tail hdrop =>
      simp only [Option.map_eq_some_iff, Prod.mk.injEq] at h
      rcases h with ⟨_, hlast, rfl, rfl⟩
      have hmark : mark = opening := by
        have hhead := List.head?_dropWhile_not (· ≠ opening) cs
        rw [hdrop] at hhead
        simpa using hhead
      rw [dropLast?_eq_some_iff] at hlast
      refine ⟨?_, ?_⟩
      · rw [hdrop, hmark, hlast] at hcut
        simpa using hcut.symm
      · intro hmem
        simpa using List.mem_takeWhile_imp hmem
  · rintro ⟨rfl, hname⟩
    have hall : ∀ x ∈ name, decide (x ≠ opening) = true := by
      intro x hx
      simpa using fun hxo : x = opening => hname (hxo ▸ hx)
    rw [List.append_assoc, List.takeWhile_append_of_pos hall, List.dropWhile_append_of_pos hall]
    simp [dropLast?_eq_some_iff.2]

/-- A text is not enclosed when it has no opening mark, or when it does not end with a closing one
behind the first that opens. -/
theorem enclosed?_eq_none_iff {opening closing : α} {cs : List α} :
    enclosed? opening closing cs = none ↔ opening ∉ cs ∨
      ∃ name rest, cs = name ++ opening :: rest ∧ opening ∉ name ∧
        rest.getLast? ≠ some closing := by
  constructor
  · intro h
    by_cases hmem : opening ∈ cs
    · rcases List.eq_append_cons_of_mem hmem with ⟨name, rest, rfl, hname⟩
      refine .inr ⟨name, rest, rfl, hname, fun hlast => ?_⟩
      rcases List.getLast?_eq_some_iff.1 hlast with ⟨body, rfl⟩
      have hsome : enclosed? opening closing (name ++ opening :: (body ++ [closing])) =
          some (name, body) := enclosed?_eq_some_iff.2 ⟨by simp, hname⟩
      rw [h] at hsome
      cases hsome
    · exact .inl hmem
  · intro h
    refine Option.eq_none_iff_forall_ne_some.2 ?_
    rintro ⟨name, body⟩ hsome
    rcases enclosed?_eq_some_iff.1 hsome with ⟨rfl, hname⟩
    rcases h with hmem | ⟨name', rest, hcs, hname', hlast⟩
    · exact hmem (by simp)
    · -- both names end where the first mark opens
      have hjoint : name ++ opening :: (body ++ [closing]) = name' ++ opening :: rest := by
        simpa using hcs
      rcases append_sep_inj hname hname' hjoint with ⟨-, rfl⟩
      exact hlast List.getLast?_concat

/-! ## Balance -/

/-- A first part of two lists joined ends in the first of them, or in the second. -/
theorem prefix_append_iff {α : Type} {part xs ys : List α} :
    part <+: xs ++ ys ↔ part <+: xs ∨ ∃ right, part = xs ++ right ∧ right <+: ys := by
  constructor
  · rintro ⟨rest, hrest⟩
    rcases List.append_eq_append_iff.1 hrest with ⟨more, rfl, -⟩ | ⟨right, rfl, hys⟩
    · exact Or.inl (List.prefix_append part more)
    · exact Or.inr ⟨right, rfl, rest, hys.symm⟩
  · rintro (hxs | ⟨right, rfl, hys⟩)
    · exact hxs.trans (List.prefix_append xs ys)
    · exact (List.prefix_append_right_inj xs).2 hys

section Balance

variable {opening closing : α} {cs ds body : List α}

/-- No closing mark comes before the opening one that it closes, and all are closed. -/
structure Balanced (opening closing : α) (cs : List α) : Prop where
  le : ∀ part, part <+: cs → part.count closing ≤ part.count opening
  eq : cs.count closing = cs.count opening

theorem Balanced.of_notMem (ho : opening ∉ cs) (hc : closing ∉ cs) :
    Balanced opening closing cs where
  le part hpart := by
    have hcount : part.count closing ≤ cs.count closing := hpart.sublist.count_le closing
    rw [List.count_eq_zero.2 hc] at hcount
    omega
  eq := by rw [List.count_eq_zero.2 hc, List.count_eq_zero.2 ho]

theorem Balanced.append (hcs : Balanced opening closing cs) (hds : Balanced opening closing ds) :
    Balanced opening closing (cs ++ ds) where
  le part hpart := by
    -- a first part of both ends in the one or in the other
    rcases prefix_append_iff.1 hpart with hleft | ⟨right, rfl, hright⟩
    · exact hcs.le part hleft
    · have heq := hcs.eq
      have hle := hds.le right hright
      rw [List.count_append, List.count_append]
      omega
  eq := by rw [List.count_append, List.count_append, hcs.eq, hds.eq]

theorem Balanced.embrace (hne : opening ≠ closing) (h : Balanced opening closing cs) :
    Balanced opening closing (opening :: cs ++ [closing]) where
  le part hpart := by
    rcases List.prefix_concat_iff.1 hpart with rfl | hpart
    · have heq := h.eq
      simp [hne, hne.symm, heq]
    · -- short of the last mark, the first one is still open
      rcases List.prefix_cons_iff.1 hpart with rfl | ⟨inner, rfl, hinner⟩
      · simp
      · have hle := h.le inner hinner
        rw [List.count_cons_self, List.count_cons_of_ne hne]
        omega
  eq := by
    have heq := h.eq
    simp [hne, hne.symm, heq]

/-- What opens first is closed by the last element, and not before. -/
def Enclosed (opening closing : α) (cs : List α) : Prop :=
  ∃ name body, cs = name ++ opening :: body ++ [closing] ∧ opening ∉ name ∧ closing ∉ name ∧
    Balanced opening closing body

/-- An enclosed text breaks off into no shorter one. -/
theorem Enclosed.eq_of_prefix {part : List α} (hne : opening ≠ closing)
    (h : Enclosed opening closing cs) (hpart : Enclosed opening closing part)
    (hcut : part <+: cs) : part = cs := by
  rcases h with ⟨name, body, rfl, hopening, hclosing, hbalanced⟩
  rcases hpart with ⟨name', body', rfl, hopening', hclosing', hbalanced'⟩
  rcases hcut with ⟨rest, hrest⟩
  have hjoint : name' ++ opening :: (body' ++ [closing] ++ rest) =
      name ++ opening :: (body ++ [closing]) := by simpa using hrest
  -- both names end where the first mark opens
  rcases append_sep_inj hopening' hopening hjoint with ⟨rfl, htail⟩
  replace htail : body' ++ [closing] <+: body ++ [closing] := ⟨rest, htail⟩
  rcases List.prefix_concat_iff.1 htail with heq | hinner
  · simp [List.append_cancel_right heq]
  · -- the last mark of the shorter text would close one too many
    have hle := hbalanced.le _ hinner
    have heq := hbalanced'.eq
    simp only [List.count_append, List.count_singleton_self, List.count_cons_of_ne hne.symm,
      List.count_nil] at hle
    omega

end Balance

end Beacon.Text
