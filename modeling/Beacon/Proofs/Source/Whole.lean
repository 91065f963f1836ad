import Beacon.Proofs.Source.Composing

/-!
# All frames of an effect

An output that takes everything is given all frames of an effect that comes to an end: a cycle as
often as its count says (`forEachCycle_everything`), and a course down to its last frame
(`Course.compose_everything`). What the frames do to the light is said lamp by lamp.
-/

namespace Beacon

/-! ## Outputs that take everything -/

namespace Output

/-- The output that wants more after every frame. -/
def everything : Output := fun _ => true

theorem emit_everything (frame : Frame) (put : List Frame) :
    everything.emit frame put = some (true, put ++ [frame]) := rfl

theorem emitAll_everything (frames put : List Frame) :
    everything.emitAll frames put = some (true, put ++ frames) := by
  induction frames generalizing put with
  | nil => rw [List.append_nil, emitAll, Composing.pure_eq]
  | cons frame rest ih =>
    rw [emitAll, Composing.bind_eq (emit_everything frame put), if_pos rfl, ih, List.append_assoc,
      List.singleton_append]

end Output

open Output (everything)

/-- A cycle that is never refused a frame is run as often as the count says. -/
theorem forEachCycle_everything (frames : List Frame) (n : Nat) (put : List Frame) :
    forEachCycle (everything.emitAll frames) n put =
      some ((), put ++ (List.replicate n frames).flatten) := by
  induction n generalizing put with
  | zero =>
    rw [Int.natCast_zero, forEachCycle_zero, List.replicate_zero, List.flatten_nil, List.append_nil,
      Composing.pure_eq]
  | succ n ih =>
    -- the loop counts in integers: one run of the cycle, and the rest with a count of one less
    have hmore : ((n + 1 : Nat) : Int) ≠ 0 := by omega
    have hpos : (0 : Int) < (n + 1 : Nat) := by omega
    have hless : ((n + 1 : Nat) : Int) - 1 = n := by omega
    rw [forEachCycle_of_ne_zero _ hmore, Composing.bind_eq (Output.emitAll_everything frames put),
      if_pos rfl, if_pos hpos, hless, ih, List.replicate_succ, List.flatten_cons, List.append_assoc]

namespace Course

/-- The levels of the next `n` frames. -/
def levels : Nat → Course → List Levels
  | 0, _ => []
  | n + 1, c => c.advance :: levels n { c with left := n, current := c.advance }

@[simp] theorem length_levels (n : Nat) (c : Course) : (c.levels n).length = n := by
  induction n generalizing c with
  | zero => rfl
  | succ n ih => rw [levels, List.length_cons, ih]

/-- A course that is never refused a frame is followed to its end. -/
theorem compose_everything (n : Nat) (c : Course) (put : List Frame) :
    Course.compose everything n c put =
      some ((), put ++ (c.levels n).map fun level => ⟨level.color, c.delay⟩) := by
  induction n generalizing c put with
  | zero => rw [levels, List.map_nil, List.append_nil, compose, Composing.pure_eq]
  | succ n ih =>
    rw [compose, Composing.bind_eq (Output.emit_everything _ put), if_pos rfl, ih, levels,
      List.map_cons, List.append_assoc, List.singleton_append]

end Course

/-! ## Lamps -/

/-- The lamps of a light. -/
inductive Lamp
  | red
  | green
  | blue
  deriving DecidableEq, Repr

namespace Color

/-- The brightness of a lamp. -/
def level (c : Color) : Lamp → UInt8
  | .red => c.red
  | .green => c.green
  | .blue => c.blue

/-- No lamp is brighter in one colour than in the other. -/
def Within (a b : Color) : Prop := ∀ lamp, a.level lamp ≤ b.level lamp

theorem ext_level {a b : Color} (h : ∀ lamp, a.level lamp = b.level lamp) : a = b := by
  have hred := h .red
  have hgreen := h .green
  have hblue := h .blue
  cases a
  cases b
  simp_all [level]

@[simp] theorem level_map (f : UInt8 → UInt8) (c : Color) (lamp : Lamp) :
    (c.map f).level lamp = f (c.level lamp) := by
  cases lamp <;> rfl

@[simp] theorem level_black (lamp : Lamp) : black.level lamp = 0 := by
  cases lamp <;> rfl

theorem toNat_peak (c : Color) :
    c.peak.toNat = max (max c.red.toNat c.green.toNat) c.blue.toNat := by
  have hmax (a b : UInt8) : (max a b).toNat = max a.toNat b.toNat := by
    have hunfold : max a b = if a ≤ b then b else a := rfl
    rw [hunfold]
    split
    · next hle => exact (Nat.max_eq_right (UInt8.le_iff_toNat_le.1 hle)).symm
    · next hle =>
      rw [UInt8.le_iff_toNat_le] at hle
      exact (Nat.max_eq_left (Nat.le_of_not_le hle)).symm
  rw [peak, hmax, hmax]

theorem level_le_peak (c : Color) (lamp : Lamp) : c.level lamp ≤ c.peak := by
  rw [UInt8.le_iff_toNat_le, toNat_peak]
  cases lamp <;> simp only [level] <;> omega

theorem exists_level_eq_peak (c : Color) : ∃ lamp, c.level lamp = c.peak := by
  simp only [← UInt8.toNat_inj, toNat_peak]
  by_cases hblue : max c.red.toNat c.green.toNat ≤ c.blue.toNat
  · exact ⟨.blue, (Nat.max_eq_right hblue).symm⟩
  · rw [Nat.max_eq_left (Nat.le_of_not_le hblue)]
    by_cases hgreen : c.red.toNat ≤ c.green.toNat
    · exact ⟨.green, (Nat.max_eq_right hgreen).symm⟩
    · exact ⟨.red, (Nat.max_eq_left (Nat.le_of_not_le hgreen)).symm⟩

theorem peak_eq_zero_iff {c : Color} : c.peak = 0 ↔ c = black := by
  constructor
  · intro h
    refine ext_level fun lamp => ?_
    have hle := c.level_le_peak lamp
    rw [h] at hle
    rw [level_black]
    exact UInt8.le_antisymm hle UInt8.zero_le
  · rintro rfl
    decide

end Color

namespace Levels

/-- The number for a lamp. -/
def level (a : Levels) : Lamp → Rat
  | .red => a.red
  | .green => a.green
  | .blue => a.blue

@[simp] theorem level_ofColor (c : Color) (lamp : Lamp) :
    (ofColor c).level lamp = (c.level lamp).toNat := by
  cases lamp <;> rfl

@[simp] theorem level_zipWith (f : Rat → Rat → Rat) (a b : Levels) (lamp : Lamp) :
    (zipWith f a b).level lamp = f (a.level lamp) (b.level lamp) := by
  cases lamp <;> rfl

@[simp] theorem level_color (a : Levels) (lamp : Lamp) :
    a.color.level lamp = channelOf (a.level lamp) := by
  cases lamp <;> rfl

end Levels

end Beacon
