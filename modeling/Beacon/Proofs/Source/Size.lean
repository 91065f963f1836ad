import Beacon.Source

/-!
# How many frames a source has

`Source.size?` counts the frames that a source still has, unless there is no end to them. It falls
by one with every frame (`size?_of_next`) and is zero exactly when there is no next frame
(`size?_eq_zero_iff`). Hence a source that has given `n` frames and has none left had `n` frames
(`size?_eq_of_skip`), and the size says how many frames can be taken (`length_take`).
-/

namespace Beacon.Source

variable {γ : Type} [Random.Dice γ]

/-- A round of a cycle that is not empty, if there is one left, begins with the first frame. -/
theorem next_cycle_nil {frames : List Frame} {rounds : Rounds} {frame : Frame} {s : Source γ}
    (h : (cycle [] frames rounds : Source γ).next = some (frame, s)) :
    ∃ rest left, frames = frame :: rest ∧ rounds.pred? = some left ∧
      s = .cycle rest frames left := by
  cases hframes : frames with
  | nil => cases hrounds : rounds.pred? <;> simp [next, hframes, hrounds] at h
  | cons first rest =>
    cases hrounds : rounds.pred? with
    | none => simp [next, hframes, hrounds] at h
    | some left =>
      simp only [next, hframes, hrounds, Option.some.injEq, Prod.mk.injEq] at h
      rcases h with ⟨rfl, rfl⟩
      exact ⟨rest, left, rfl, rfl, rfl⟩

/-- With each frame that it gives, a source has one frame less. -/
theorem size?_of_next {s rest : Source γ} {frame : Frame} (h : s.next = some (frame, rest)) :
    s.size? = rest.size?.map (· + 1) := by
  cases s with
  | cycle now frames rounds =>
    cases now with
    | cons first now =>
      simp only [next, Option.some.injEq, Prod.mk.injEq] at h
      rcases h with ⟨-, rfl⟩
      rcases rounds with _ | n
      · cases frames <;> simp [size?]
      · simp only [size?, List.length_cons, Option.map_some, Option.some.injEq]
        omega
    | nil =>
      -- another round begins: it is one less, and one frame of it is gone
      rcases next_cycle_nil h with ⟨tail, left, rfl, hleft, rfl⟩
      rcases rounds with _ | _ | n
      · cases hleft
        simp [size?]
      · cases hleft
      · cases hleft
        simp only [size?, List.length_nil, List.length_cons, Option.map_some, Option.some.injEq]
        rw [Nat.succ_mul]
        omega
  | course c =>
    cases hleft : c.left with
    | zero => simp [next, Course.next, hleft] at h
    | succ left =>
      simp only [next, Course.next, hleft, Option.map_some, Option.some.injEq, Prod.mk.injEq] at h
      rcases h with ⟨-, rfl⟩
      simp [size?, hleft]
  | flames f =>
    by_cases hlt : f.shown < f.length
    · simp only [next, Flames.next, if_pos hlt, Option.map_some, Option.some.injEq,
        Prod.mk.injEq] at h
      rcases h with ⟨-, rfl⟩
      simp only [size?, Option.map_some, Option.some.injEq]
      omega
    · simp [next, Flames.next, hlt] at h

/-- A source has no frame left exactly when it has no next one. -/
theorem size?_eq_zero_iff {s : Source γ} : s.size? = some 0 ↔ s.next = none := by
  constructor
  · intro hsize
    cases h : s.next with
    | none => rfl
    | some pair =>
      rcases pair with ⟨frame, rest⟩
      rw [size?_of_next h] at hsize
      cases hrest : rest.size? <;> simp [hrest] at hsize
  · intro h
    cases s with
    | cycle now frames rounds =>
      cases now with
      | cons first now => simp [next] at h
      | nil =>
        rcases frames with _ | ⟨first, rest⟩
        · rcases rounds with _ | n <;> simp [size?]
        · rcases rounds with _ | _ | n
          · simp [next, Rounds.pred?] at h
          · simp [size?]
          · simp [next, Rounds.pred?] at h
    | course c =>
      cases hleft : c.left with
      | zero => simp [size?, hleft]
      | succ left => simp [next, Course.next, hleft] at h
    | flames f =>
      by_cases hlt : f.shown < f.length
      · simp [next, Flames.next, hlt] at h
      · simp only [size?, Option.some.injEq]
        omega

/-! ## The first frames -/

/-- A source that gives `n + 1` frames gives one, and the source after it gives `n`. -/
theorem skip_succ_eq {n : Nat} {s rest : Source γ} (h : s.skip (n + 1) = (n + 1, rest)) :
    ∃ frame tail, s.next = some (frame, tail) ∧ tail.skip n = (n, rest) := by
  cases hnext : s.next with
  | none => simp [skip, hnext] at h
  | some pair =>
    rcases pair with ⟨frame, tail⟩
    simp only [skip, hnext, Prod.mk.injEq, Nat.add_right_cancel_iff] at h
    exact ⟨frame, tail, rfl, Prod.ext h.1 h.2⟩

/-- A source that has given `n` frames and gives one more has given `n + 1`. -/
theorem skip_take_succ {n : Nat} {s rest after : Source γ} {frame : Frame}
    (hskip : s.skip n = (n, rest)) (hnext : rest.next = some (frame, after)) :
    s.skip (n + 1) = (n + 1, after) ∧ s.take (n + 1) = s.take n ++ [frame] := by
  induction n generalizing s with
  | zero =>
    simp only [skip, Prod.mk.injEq, true_and] at hskip
    subst hskip
    simp [skip, take, hnext]
  | succ n ih =>
    rcases skip_succ_eq hskip with ⟨first, tail, h, htail⟩
    rcases ih htail with ⟨hskip', htake'⟩
    constructor
    · rw [skip, h]
      simp [hskip']
    · rw [take, h]
      simp only [htake']
      simp [take, h]

/-- The first frames of a source begin with the first of them. -/
theorem take_take_add (n m : Nat) (s : Source γ) : (s.take (n + m)).take n = s.take n := by
  induction n generalizing s with
  | zero => rfl
  | succ n ih =>
    rw [Nat.succ_add]
    cases h : s.next with
    | none => simp [take, h]
    | some pair => simp [take, h, ih]

/-- The frames that a source has given are counted by how many it was asked for. -/
theorem length_take_of_skip {n : Nat} {s rest : Source γ} (h : s.skip n = (n, rest)) :
    (s.take n).length = n := by
  induction n generalizing s with
  | zero => rfl
  | succ n ih =>
    rcases skip_succ_eq h with ⟨first, tail, hnext, htail⟩
    simp [take, hnext, ih htail]

/-- A source that has given `n` frames and has no next one had `n` frames. -/
theorem size?_eq_of_skip {n : Nat} {s rest : Source γ} (hskip : s.skip n = (n, rest))
    (hnext : rest.next = none) : s.size? = some n := by
  induction n generalizing s with
  | zero =>
    simp only [skip, Prod.mk.injEq, true_and] at hskip
    rw [hskip]
    exact size?_eq_zero_iff.2 hnext
  | succ n ih =>
    rcases skip_succ_eq hskip with ⟨first, tail, h, htail⟩
    rw [size?_of_next h, ih htail]
    rfl

/-- The size of a source is how many frames can be taken from it. -/
theorem length_take {n : Nat} {s : Source γ} (h : s.size? = some n) (m : Nat) :
    (s.take m).length = min m n := by
  induction m generalizing s n with
  | zero => simp [take]
  | succ m ih =>
    cases hnext : s.next with
    | none =>
      have hzero := size?_eq_zero_iff.2 hnext
      rw [h] at hzero
      rcases Option.some.inj hzero with rfl
      simp [take, hnext]
    | some pair =>
      rcases pair with ⟨frame, rest⟩
      have hsize := size?_of_next hnext
      rw [h] at hsize
      cases hrest : rest.size? with
      | none => simp [hrest] at hsize
      | some k =>
        rw [hrest, Option.map_some, Option.some.injEq] at hsize
        simp only [take, hnext, List.length_cons, ih hrest]
        omega

/-- A source gives as many frames as it has. -/
theorem exists_skip {n : Nat} {s : Source γ} (h : ∀ m, s.size? = some m → n ≤ m) :
    ∃ rest, s.skip n = (n, rest) := by
  induction n generalizing s with
  | zero => exact ⟨s, rfl⟩
  | succ n ih =>
    cases hnext : s.next with
    | none => exact absurd (h 0 (size?_eq_zero_iff.2 hnext)) (Nat.not_succ_le_zero n)
    | some pair =>
      rcases pair with ⟨frame, tail⟩
      have htail : ∀ m, tail.size? = some m → n ≤ m := by
        intro m hm
        exact Nat.le_of_succ_le_succ (h (m + 1) (by rw [size?_of_next hnext, hm]; rfl))
      rcases ih htail with ⟨rest, hskip⟩
      exact ⟨rest, by simp [skip, hnext, hskip]⟩

/-- A source that has given all its frames has no next one. -/
theorem next_eq_none_of_skip {n : Nat} {s rest : Source γ} (hsize : s.size? = some n)
    (hskip : s.skip n = (n, rest)) : rest.next = none := by
  induction n generalizing s with
  | zero =>
    rw [skip, Prod.mk.injEq] at hskip
    rcases hskip with ⟨-, rfl⟩
    exact size?_eq_zero_iff.1 hsize
  | succ n ih =>
    rcases skip_succ_eq hskip with ⟨frame, tail, hnext, htail⟩
    rw [size?_of_next hnext, Option.map_eq_some_iff] at hsize
    rcases hsize with ⟨m, hm, hmn⟩
    exact ih (Nat.succ.inj hmn ▸ hm) htail

/-- One of the first frames of a source is its next one, once those before it have been given. -/
theorem next_of_take_eq {n : Nat} {s : Source γ} {before after : List Frame} {frame : Frame}
    (h : s.take n = before ++ frame :: after) :
    s.take before.length = before ∧ ∃ rest tail, s.skip before.length = (before.length, rest) ∧
      rest.next = some (frame, tail) := by
  induction before generalizing s n with
  | nil =>
    cases n with
    | zero => cases h
    | succ n =>
      rw [take] at h
      split at h
      · cases h
      · next tail hnext =>
        rcases (List.cons.inj h).1 with rfl
        exact ⟨rfl, s, tail, rfl, hnext⟩
  | cons first before ih =>
    cases n with
    | zero => cases h
    | succ n =>
      rw [take] at h
      split at h
      · cases h
      · next tail hnext =>
        rcases List.cons.inj h with ⟨rfl, hlater⟩
        rcases ih hlater with ⟨htake, rest, tail', hskip, hframe⟩
        refine ⟨?_, rest, tail', ?_, hframe⟩
        · simp [take, hnext, htake]
        · simp [skip, hnext, hskip]

/-- There is nothing to take beyond the size of a source. -/
theorem take_of_size_le {n m : Nat} {s : Source γ} (h : s.size? = some n) (hm : n ≤ m) :
    s.take m = s.take n := by
  obtain ⟨k, rfl⟩ := Nat.exists_eq_add_of_le hm
  have hlength : (s.take (n + k)).length ≤ n := by
    rw [length_take h]
    omega
  rw [← take_take_add n k s, List.take_of_length_le hlength]

/-- From a source without end any number of frames can be taken. -/
theorem length_take_of_endless {s : Source γ} (h : s.size? = none) (m : Nat) :
    (s.take m).length = m := by
  induction m generalizing s with
  | zero => rfl
  | succ m ih =>
    cases hnext : s.next with
    | none =>
      have hzero := size?_eq_zero_iff.2 hnext
      rw [h] at hzero
      cases hzero
    | some pair =>
      rcases pair with ⟨frame, rest⟩
      have hsize := size?_of_next hnext
      rw [h] at hsize
      have hrest : rest.size? = none := by
        cases hrest : rest.size? with
        | none => rfl
        | some k => simp [hrest] at hsize
      simp only [take, hnext, List.length_cons, ih hrest]

end Beacon.Source
