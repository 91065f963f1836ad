import Beacon.Proofs.Precision
import Beacon.Proofs.Source.Whole

/-!
# The way of a blend

A blend never steps back (`Effect.blend_moves_one_way`). Its sums drift, but each is rounded from a
number on the far side of the sum before, which fits into double precision itself: rounding keeps
the order and does not change a number that fits, so the sum does not fall behind the one before.
Cutting the sums down to channels keeps the order, too.
-/

namespace Beacon

open Precision (double Fits)

/-! ## Channels of numbers -/

theorem toNat_channelOf (x : Rat) : (channelOf x).toNat = min x.floor.toNat 255 :=
  UInt8.toNat_ofNat_of_lt' (Nat.lt_succ_of_le (Nat.min_le_right _ _))

theorem channelOf_mono {x y : Rat} (h : x ≤ y) : channelOf x ≤ channelOf y := by
  have hfloor := Int.toNat_le_toNat (Rat.floor_monotone h)
  rw [UInt8.le_iff_toNat_le, toNat_channelOf, toNat_channelOf]
  omega

@[simp] theorem channelOf_toNat (channel : UInt8) : channelOf channel.toNat = channel := by
  have hlt := channel.toNat_lt
  have hfloor : (channel.toNat : Rat).floor.toNat = channel.toNat := by
    rw [← Int.cast_natCast, Rat.floor_intCast, Int.toNat_natCast]
  rw [← UInt8.toNat_inj, toNat_channelOf, hfloor]
  omega

namespace Course

variable {c : Course} {lamp : Lamp}

/-! ## The number of frames and their delay -/

theorem samples_pos (d : Duration) : 0 < samples d := by
  have hsize : UInt32.size = 4294967296 := rfl
  unfold samples
  omega

theorem samples_le (d : Duration) : samples d ≤ UInt32.size - 1 := Nat.min_le_right _ _

/-- Frames that share a duration evenly, up to what whole nanoseconds leave over. -/
structure Even (d : Duration) (frames : List Frame) : Prop where
  length : frames.length = samples d
  delay : ∀ frame ∈ frames, frame.delay.nanos = d.nanos / samples d
  total_le : (frames.map (·.delay.nanos)).sum ≤ d.nanos
  lt_total : d.nanos < (frames.map (·.delay.nanos)).sum + samples d

theorem even_of_delay {d : Duration} {frames : List Frame} (hlength : frames.length = samples d)
    (hdelay : ∀ frame ∈ frames, frame.delay.nanos = d.nanos / samples d) : Even d frames := by
  -- what the division leaves over is less than one nanosecond for each frame
  have htotal : (frames.map (·.delay.nanos)).sum = samples d * (d.nanos / samples d) := by
    rw [List.map_congr_left hdelay, List.map_const', List.sum_replicate_nat, hlength]
  refine ⟨hlength, hdelay, ?_, ?_⟩
  · rw [htotal]
    exact Nat.mul_div_le _ _
  · rw [htotal]
    exact Nat.lt_mul_div_succ _ (samples_pos d)

/-! ## Levels -/

@[simp] theorem level_advance (c : Course) (lamp : Lamp) :
    c.advance.level lamp = double (c.current.level lamp + c.step.level lamp) :=
  Levels.level_zipWith ..

/-- What holds between every number that fits and the rounded sum of it and the step, holds between
any two levels of a course, the later one of them on the right. -/
theorem pairwise_levels {r : Rat → Rat → Prop} [IsTrans Rat r]
    (hr : ∀ x, Fits 53 x → r x (double (x + c.step.level lamp)))
    (hfits : Fits 53 (c.current.level lamp)) (n : Nat) :
    (c.current :: c.levels n).Pairwise fun a b => r (a.level lamp) (b.level lamp) := by
  induction n generalizing c with
  | zero => exact List.pairwise_singleton _ _
  | succ n ih =>
    -- the course after a frame has the same step, and its level was rounded, so it fits again
    have hnext : r (c.current.level lamp) (c.advance.level lamp) := by
      rw [level_advance]
      exact hr _ hfits
    have hadvance : Fits 53 (c.advance.level lamp) := by
      rw [level_advance]
      exact Precision.fits_double _
    have hrest := ih (c := { c with left := n, current := c.advance }) hr hadvance
    rw [levels, List.pairwise_cons]
    refine ⟨?_, hrest⟩
    intro a ha
    rcases List.mem_cons.1 ha with rfl | hlater
    · exact hnext
    · exact IsTrans.trans _ _ _ hnext ((List.pairwise_cons.1 hrest).1 a hlater)

/-- Where the step is not negative, no level is below one before it. -/
theorem pairwise_le_levels (hstep : 0 ≤ c.step.level lamp)
    (hfits : Fits 53 (c.current.level lamp)) (n : Nat) :
    (c.current :: c.levels n).Pairwise fun a b => a.level lamp ≤ b.level lamp := by
  refine pairwise_levels (fun x hx => ?_) hfits n
  have hle : x ≤ x + c.step.level lamp := le_add_of_nonneg_right hstep
  calc x = double x := (Precision.double_of_fits hx).symm
    _ ≤ double (x + c.step.level lamp) := Precision.double_mono hle

/-- Where the step is not positive, no level is above one before it. -/
theorem pairwise_ge_levels (hstep : c.step.level lamp ≤ 0)
    (hfits : Fits 53 (c.current.level lamp)) (n : Nat) :
    (c.current :: c.levels n).Pairwise fun a b => a.level lamp ≥ b.level lamp := by
  refine pairwise_levels (fun x hx => ?_) hfits n
  have hle : x + c.step.level lamp ≤ x := add_le_of_nonpos_right hstep
  calc x = double x := (Precision.double_of_fits hx).symm
    _ ≥ double (x + c.step.level lamp) := Precision.double_mono hle

theorem level_step_ofBlend (start goal : Color) (d : Duration) (lamp : Lamp) :
    (ofBlend start goal d).step.level lamp =
      double (((goal.level lamp).toNat - (start.level lamp).toNat) / samples d) := by
  rw [ofBlend, Levels.level_zipWith, Levels.level_ofColor, Levels.level_ofColor]

theorem step_nonneg {start goal : Color} (h : start.level lamp ≤ goal.level lamp) (d : Duration) :
    0 ≤ (ofBlend start goal d).step.level lamp := by
  have hle : ((start.level lamp).toNat : Rat) ≤ (goal.level lamp).toNat := by
    exact_mod_cast UInt8.le_iff_toNat_le.1 h
  have hquotient := div_nonneg (sub_nonneg.2 hle) (samples d).cast_nonneg
  rw [level_step_ofBlend, ← Precision.double_zero]
  exact Precision.double_mono hquotient

theorem step_nonpos {start goal : Color} (h : goal.level lamp ≤ start.level lamp) (d : Duration) :
    (ofBlend start goal d).step.level lamp ≤ 0 := by
  have hle : ((goal.level lamp).toNat : Rat) ≤ (start.level lamp).toNat := by
    exact_mod_cast UInt8.le_iff_toNat_le.1 h
  have hquotient := div_nonpos_of_nonpos_of_nonneg (sub_nonpos.2 hle) (samples d).cast_nonneg
  rw [level_step_ofBlend, ← Precision.double_zero]
  exact Precision.double_mono hquotient

theorem level_current_ofBlend (start goal : Color) (d : Duration) (lamp : Lamp) :
    (ofBlend start goal d).current.level lamp = (start.level lamp).toNat :=
  Levels.level_ofColor start lamp

theorem fits_current_ofBlend (start goal : Color) (d : Duration) (lamp : Lamp) :
    Fits 53 ((ofBlend start goal d).current.level lamp) := by
  have hlt := (start.level lamp).toNat_lt
  rw [level_current_ofBlend]
  exact .natCast (by omega)

/-- The frames of a blend. -/
def blendFrames (start goal : Color) (d : Duration) : List Frame :=
  ((ofBlend start goal d).levels (samples d)).map fun level =>
    ⟨level.color, (ofBlend start goal d).delay⟩

/-- The values of a lamp go from its start to its goal without a step back. -/
structure OneWay (start goal : UInt8) (values : List UInt8) : Prop where
  rising : start ≤ goal → (start :: values).Pairwise (· ≤ ·)
  falling : goal ≤ start → (start :: values).Pairwise (· ≥ ·)
  constant : start = goal → ∀ value ∈ values, value = start

/-- The values of a lamp from the start on are the channels of its levels. -/
theorem cons_map_level_blendFrames (start goal : Color) (d : Duration) (lamp : Lamp) :
    start.level lamp :: (blendFrames start goal d).map (·.color.level lamp) =
      ((ofBlend start goal d).current :: (ofBlend start goal d).levels (samples d)).map
        fun a => channelOf (a.level lamp) := by
  rw [List.map_cons, level_current_ofBlend, channelOf_toNat, blendFrames, List.map_map]
  congr 1
  exact List.map_congr_left fun a _ => Levels.level_color a lamp

theorem oneWay_blendFrames (start goal : Color) (d : Duration) (lamp : Lamp) :
    OneWay (start.level lamp) (goal.level lamp)
      ((blendFrames start goal d).map (·.color.level lamp)) := by
  have hfits := fits_current_ofBlend start goal d lamp
  have hrising (h : start.level lamp ≤ goal.level lamp) :
      (start.level lamp :: (blendFrames start goal d).map (·.color.level lamp)).Pairwise
        (· ≤ ·) := by
    rw [cons_map_level_blendFrames, List.pairwise_map]
    exact (pairwise_le_levels (step_nonneg h d) hfits _).imp channelOf_mono
  have hfalling (h : goal.level lamp ≤ start.level lamp) :
      (start.level lamp :: (blendFrames start goal d).map (·.color.level lamp)).Pairwise
        (· ≥ ·) := by
    rw [cons_map_level_blendFrames, List.pairwise_map]
    exact (pairwise_ge_levels (step_nonpos h d) hfits _).imp channelOf_mono
  refine ⟨hrising, hfalling, ?_⟩
  -- a lamp that ends where it starts may step neither down nor up
  intro h value hvalue
  have hup := (List.pairwise_cons.1 (hrising (UInt8.le_of_eq h))).1 value hvalue
  have hdown := (List.pairwise_cons.1 (hfalling (UInt8.le_of_eq h.symm))).1 value hvalue
  exact UInt8.le_antisymm hdown hup

end Course

namespace Effect

open Output (everything)

variable {γ : Type} [Random.Dice γ]

/-- A blend puts out at least one frame and as many as its duration is sampled to. They share the
duration evenly, and no lamp ever steps back on the way from its start to its goal. -/
theorem blend_moves_one_way (dice : γ) (start goal : Color) (d : Duration) :
    ∃ frames : List Frame,
      (blend start goal d).compose everything dice [] = some ((), frames) ∧
      1 ≤ Course.samples d ∧ Course.samples d ≤ 2 ^ 32 - 1 ∧ Course.Even d frames ∧
      ∀ lamp, Course.OneWay (start.level lamp) (goal.level lamp)
        (frames.map (·.color.level lamp)) := by
  refine ⟨Course.blendFrames start goal d, Course.compose_everything _ _ [], Course.samples_pos d,
    Course.samples_le d, ?_, Course.oneWay_blendFrames start goal d⟩
  refine Course.even_of_delay ?_ ?_
  · rw [Course.blendFrames, List.length_map, Course.length_levels]
  · intro frame hframe
    obtain ⟨level, -, rfl⟩ := List.mem_map.1 hframe
    rfl

end Effect

end Beacon
