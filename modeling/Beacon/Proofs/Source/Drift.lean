import Beacon.Proofs.Precision.Nearest
import Beacon.Proofs.Source.Course
import Mathlib.Tactic.NormNum

/-!
# How far a blend drifts

A lamp of a blend is a running sum, and every addition is rounded. The sum stays so close to the
straight line from start to goal (`Course.Sums.abs_sub_line_le`) that even at the end of the longest
of blends it is less than one level off: each lamp lands on its goal or one level below
(`Effect.blend_lands`). Which of two equally near numbers rounding takes plays no part in it.
-/

namespace Beacon

open Precision (Nearest Fits)

/-! ## Channels near a level -/

theorem channelOf_le {x : Rat} {goal : UInt8} (h : x < goal.toNat + 1) : channelOf x ≤ goal := by
  have hfloor : x.floor < goal.toNat + 1 := Rat.floor_lt_iff.2 (by exact_mod_cast h)
  rw [UInt8.le_iff_toNat_le, toNat_channelOf]
  omega

theorem le_channelOf_add_one {x : Rat} {goal : UInt8} (h : goal.toNat - 1 ≤ x) :
    goal.toNat ≤ (channelOf x).toNat + 1 := by
  have hlt := goal.toNat_lt
  have hfloor : (goal.toNat : Int) - 1 ≤ x.floor := Rat.le_floor_iff.2 (by exact_mod_cast h)
  rw [toNat_channelOf]
  omega

theorem toNat_le_255 (channel : UInt8) : (channel.toNat : Rat) ≤ 255 := by
  exact_mod_cast Nat.le_of_lt_succ channel.toNat_lt

theorem fits_toNat (channel : UInt8) : Fits 53 channel.toNat := by
  have hlt := channel.toNat_lt
  exact .natCast (by omega)

namespace Course

variable {start goal : UInt8} {n : Nat} {step : Rat} {sum : Nat → Rat}

/-! ## Running sums -/

/-- The sums of a lamp from its start on, `n` times the same step farther. The step is a nearest
number to the `n`-th part of the way, and each sum is one to the sum before and the step. -/
structure Sums (start goal : UInt8) (n : Nat) (step : Rat) (sum : Nat → Rat) : Prop where
  part : Nearest 53 ((goal.toNat - start.toNat) / n) step
  first : sum 0 = start.toNat
  next : ∀ k < n, Nearest 53 (sum k + step) (sum (k + 1))

/-- What a lamp shows in each of `n` frames. -/
def shown (n : Nat) (sum : Nat → Rat) : List UInt8 :=
  (List.range n).map fun k => channelOf (sum (k + 1))

theorem abs_sub_toNat_le (start goal : UInt8) : |(goal.toNat : Rat) - start.toNat| ≤ 255 := by
  have hstart := toNat_le_255 start
  have hgoal := toNat_le_255 goal
  have hstart₀ : (0 : Rat) ≤ start.toNat := Nat.cast_nonneg _
  have hgoal₀ : (0 : Rat) ≤ goal.toNat := Nat.cast_nonneg _
  rw [abs_le]
  constructor <;> linarith

namespace Sums

/-- All steps together make up the way, but for the rounding of the step. -/
theorem abs_mul_step_sub_le (h : Sums start goal n step sum) (hn : 0 < n) :
    |n * step - (goal.toNat - start.toNat)| ≤ 1 / 2 ^ 45 := by
  have hpos : (0 : Rat) < n := by exact_mod_cast hn
  have hoff := h.part.abs_sub_le_div
  have hway := abs_sub_toNat_le start goal
  calc |n * step - ((goal.toNat : Rat) - start.toNat)|
      = n * |step - (goal.toNat - start.toNat) / n| := by
        rw [← abs_of_pos hpos, ← abs_mul, abs_of_pos hpos, mul_sub, mul_div_cancel₀ _ hpos.ne']
    _ ≤ n * (|((goal.toNat : Rat) - start.toNat) / n| / 2 ^ 53) := by gcongr
    _ = |(goal.toNat : Rat) - start.toNat| / 2 ^ 53 := by
        rw [abs_div, abs_of_pos hpos]
        field_simp
    _ ≤ 1 / 2 ^ 45 := by linarith

/-- The steps before a frame are a part of all steps. -/
theorem abs_mul_step_le (h : Sums start goal n step sum) (hn : 0 < n) {k : Nat} (hk : k ≤ n) :
    |k * step| ≤ 256 := by
  have hall := h.abs_mul_step_sub_le hn
  have hway := abs_sub_toNat_le start goal
  have htriangle := abs_sub_abs_le_abs_sub (n * step) ((goal.toNat : Rat) - start.toNat)
  have hle : (k : Rat) ≤ n := by exact_mod_cast hk
  calc |k * step| = k * |step| := by rw [abs_mul, Nat.abs_cast]
    _ ≤ n * |step| := mul_le_mul_of_nonneg_right hle (abs_nonneg _)
    _ = |n * step| := by rw [abs_mul, Nat.abs_cast]
    _ ≤ 256 := by linarith

/-- Every addition takes the sum at most this much farther from the straight line: the sums stay
below 512, so rounding one of them is off by no more. -/
theorem abs_sub_line_le (h : Sums start goal n step sum) (hsize : n < 2 ^ 32) {k : Nat}
    (hk : k ≤ n) : |sum k - (start.toNat + k * step)| ≤ k / 2 ^ 44 := by
  induction k with
  | zero => simp [h.first]
  | succ k ih =>
    have hbefore := ih (by omega)
    have hline := h.abs_mul_step_le (by omega) hk
    have hcount : (k : Rat) ≤ 2 ^ 32 := by exact_mod_cast (by omega : k ≤ 2 ^ 32)
    have hstart := toNat_le_255 start
    have hstart₀ : (0 : Rat) ≤ start.toNat := Nat.cast_nonneg _
    -- the exact sum is as far from the line as the sum before, and below 512
    have hexact : sum k + step - (start.toNat + (k + 1 : Nat) * step) =
        sum k - (start.toNat + k * step) := by push_cast; ring
    have hbelow : |sum k + step| ≤ 512 := by
      rw [← hexact] at hbefore
      rw [abs_le] at hbefore hline ⊢
      constructor <;> linarith
    have hoff := (h.next k (by omega)).abs_sub_le_div
    calc |sum (k + 1) - (start.toNat + (k + 1 : Nat) * step)|
        ≤ |sum (k + 1) - (sum k + step)| + |sum k + step - (start.toNat + (k + 1 : Nat) * step)| :=
          abs_sub_le _ _ _
      _ ≤ 512 / 2 ^ 53 + k / 2 ^ 44 := by
          rw [hexact]
          linarith
      _ = (k + 1 : Nat) / 2 ^ 44 := by push_cast; ring

theorem step_nonneg (h : Sums start goal n step sum) (hway : start ≤ goal) : 0 ≤ step := by
  have hle : (start.toNat : Rat) ≤ goal.toNat := by exact_mod_cast UInt8.le_iff_toNat_le.1 hway
  exact h.part.le_of_fits Precision.fits_zero (div_nonneg (sub_nonneg.2 hle) n.cast_nonneg)

theorem step_nonpos (h : Sums start goal n step sum) (hway : goal ≤ start) : step ≤ 0 := by
  have hle : (goal.toNat : Rat) ≤ start.toNat := by exact_mod_cast UInt8.le_iff_toNat_le.1 hway
  exact h.part.ge_of_fits Precision.fits_zero
    (div_nonpos_of_nonpos_of_nonneg (sub_nonpos.2 hle) n.cast_nonneg)

/-- How far the sums are off after all: less than one level. -/
theorem abs_sub_line_lt (h : Sums start goal n step sum) (hsize : n < 2 ^ 32) {k : Nat}
    (hk : k ≤ n) : |sum k - (start.toNat + k * step)| ≤ 1 / 2 ^ 12 := by
  have hcount : (k : Rat) ≤ 2 ^ 32 := by exact_mod_cast (by omega : k ≤ 2 ^ 32)
  calc |sum k - (start.toNat + k * step)| ≤ k / 2 ^ 44 := h.abs_sub_line_le hsize hk
    _ ≤ 1 / 2 ^ 12 := by linarith

/-- The last sum is less than one level off the goal. -/
theorem abs_last_sub_lt (h : Sums start goal n step sum) (hn : 0 < n) (hsize : n < 2 ^ 32) :
    |sum n - goal.toNat| < 1 := by
  have hsum := h.abs_sub_line_lt hsize le_rfl
  have hline := h.abs_mul_step_sub_le hn
  rw [abs_le] at hsum hline
  rw [abs_lt]
  constructor <;> linarith

/-- On the way up the steps before a frame are no more than all steps. -/
theorem lt_goal_add_one (h : Sums start goal n step sum) (hn : 0 < n) (hsize : n < 2 ^ 32)
    (hway : start ≤ goal) {k : Nat} (hk : k ≤ n) : sum k < goal.toNat + 1 := by
  have hsum := h.abs_sub_line_lt hsize hk
  have hline := h.abs_mul_step_sub_le hn
  have hle : (k : Rat) * step ≤ n * step := by
    have hcount : (k : Rat) ≤ n := by exact_mod_cast hk
    exact mul_le_mul_of_nonneg_right hcount (h.step_nonneg hway)
  rw [abs_le] at hsum hline
  linarith

theorem goal_sub_one_le (h : Sums start goal n step sum) (hn : 0 < n) (hsize : n < 2 ^ 32)
    (hway : goal ≤ start) {k : Nat} (hk : k ≤ n) : goal.toNat - 1 ≤ sum k := by
  have hsum := h.abs_sub_line_lt hsize hk
  have hline := h.abs_mul_step_sub_le hn
  have hle : (n : Rat) * step ≤ k * step := by
    have hcount : (k : Rat) ≤ n := by exact_mod_cast hk
    exact mul_le_mul_of_nonpos_right hcount (h.step_nonpos hway)
  rw [abs_le] at hsum hline
  linarith

/-- One step is the whole way, and a lamp that stays makes none: then nothing is rounded. -/
theorem last_eq (h : Sums start goal n step sum) (hn : 0 < n) (hexact : n = 1 ∨ start = goal) :
    sum n = goal.toNat := by
  rcases hexact with rfl | rfl
  · -- one step is the whole way, which is a small integer and so not rounded
    have hway : Fits 53 ((goal.toNat : Rat) - start.toNat) := by
      have hstart := start.toNat_lt
      have hgoal := goal.toNat_lt
      have hint : Fits 53 (((goal.toNat - start.toNat : Int) : Int) : Rat) :=
        .intCast (by rw [abs_le]; omega)
      exact_mod_cast hint
    have hstep : step = goal.toNat - start.toNat := by
      have hpart := h.part
      rw [Nat.cast_one, div_one] at hpart
      exact hpart.eq_of_fits hway
    have hlast := h.next 0 hn
    rw [h.first, hstep, add_sub_cancel] at hlast
    exact hlast.eq_of_fits (fits_toNat goal)
  · -- every step is zero, and the sums stay where they start
    have hstep : step = 0 := by
      have hpart := h.part
      rw [sub_self, zero_div] at hpart
      exact hpart.eq_of_fits Precision.fits_zero
    have hall : ∀ k ≤ n, sum k = start.toNat := by
      intro k hk
      induction k with
      | zero => exact h.first
      | succ k ih =>
        have hnext := h.next k hk
        rw [ih (by omega), hstep, add_zero] at hnext
        exact hnext.eq_of_fits (fits_toNat start)
    exact hall n le_rfl

end Sums

/-! ## Landing -/

/-- Where the values of a lamp come to on their way from start to goal: they end at the goal or one
level below, and at the goal itself if there is one value only or no way to go; on the way up they
do not pass the goal, and on the way down they do not fall more than one level below it. -/
structure Lands (start goal : UInt8) (values : List UInt8) : Prop where
  last : ∃ value, values.getLast? = some value ∧ (value = goal ∨ value.toNat + 1 = goal.toNat)
  exact : values.length = 1 ∨ start = goal → values.getLast? = some goal
  rising : start ≤ goal → ∀ value ∈ values, value ≤ goal
  falling : goal ≤ start → ∀ value ∈ values, goal.toNat ≤ value.toNat + 1

theorem getLast?_shown (hn : 0 < n) : (shown n sum).getLast? = some (channelOf (sum n)) := by
  rw [shown, List.getLast?_map, List.getLast?_range, if_neg hn.ne', Option.map_some,
    Nat.sub_add_cancel hn]

theorem mem_shown {value : UInt8} (h : value ∈ shown n sum) :
    ∃ k, k ≤ n ∧ value = channelOf (sum k) := by
  obtain ⟨k, hk, rfl⟩ := List.mem_map.1 h
  exact ⟨k + 1, List.mem_range.1 hk, rfl⟩

/-- However ties are rounded, the lamp lands. -/
theorem Sums.lands (h : Sums start goal n step sum) (hn : 0 < n) (hsize : n < 2 ^ 32) :
    Lands start goal (shown n sum) where
  last := by
    refine ⟨_, getLast?_shown hn, ?_⟩
    have hlast := abs_lt.1 (h.abs_last_sub_lt hn hsize)
    have hbelow : channelOf (sum n) ≤ goal := channelOf_le (by linarith)
    have habove : goal.toNat ≤ (channelOf (sum n)).toNat + 1 := le_channelOf_add_one (by linarith)
    rw [UInt8.le_iff_toNat_le] at hbelow
    rw [← UInt8.toNat_inj]
    omega
  exact := by
    intro hexact
    rw [shown, List.length_map, List.length_range] at hexact
    rw [getLast?_shown hn, h.last_eq hn hexact, channelOf_toNat]
  rising := by
    intro hway value hvalue
    obtain ⟨k, hk, rfl⟩ := mem_shown hvalue
    exact channelOf_le (h.lt_goal_add_one hn hsize hway hk)
  falling := by
    intro hway value hvalue
    obtain ⟨k, hk, rfl⟩ := mem_shown hvalue
    exact le_channelOf_add_one (h.goal_sub_one_le hn hsize hway hk)

/-! ## The sums of a course -/

/-- The levels of a course after `k` frames. -/
def after (c : Course) : Nat → Levels
  | 0 => c.current
  | k + 1 => advance { c with current := c.after k }

theorem after_advance (c : Course) (m k : Nat) :
    after { c with left := m, current := c.advance } k = c.after (k + 1) := by
  induction k with
  | zero => rfl
  | succ k ih =>
    rw [after, ih]
    rfl

theorem levels_eq_map_after (n : Nat) (c : Course) :
    c.levels n = (List.range n).map fun k => c.after (k + 1) := by
  induction n generalizing c with
  | zero => rfl
  | succ n ih =>
    rw [levels, ih, List.range_succ_eq_map, List.map_cons, List.map_map]
    simp only [after_advance]
    rfl

/-- Rounding to the even one of two equally near numbers is one way to round to a nearest. -/
theorem sums_ofBlend (start goal : Color) (d : Duration) (lamp : Lamp) :
    Sums (start.level lamp) (goal.level lamp) (samples d) ((ofBlend start goal d).step.level lamp)
      fun k => ((ofBlend start goal d).after k).level lamp where
  part := by
    rw [level_step_ofBlend]
    exact Precision.nearest_double _
  first := level_current_ofBlend start goal d lamp
  next := by
    intro k hk
    rw [after, level_advance]
    exact Precision.nearest_double _

theorem map_level_blendFrames (start goal : Color) (d : Duration) (lamp : Lamp) :
    (blendFrames start goal d).map (·.color.level lamp) =
      shown (samples d) fun k => ((ofBlend start goal d).after k).level lamp := by
  rw [blendFrames, levels_eq_map_after, List.map_map, List.map_map, shown]
  exact List.map_congr_left fun k _ => Levels.level_color _ lamp

end Course

namespace Effect

open Output (everything)

variable {γ : Type} [Random.Dice γ]

/-- Each lamp of a blend lands. Its values are those of running sums that are rounded to a nearest
number of 53 bits, and the same holds whichever of two equally near numbers is taken each time. -/
theorem blend_lands (dice : γ) (start goal : Color) (d : Duration) :
    ∃ frames : List Frame,
      (blend start goal d).compose everything dice [] = some ((), frames) ∧
      frames.length = Course.samples d ∧ Course.samples d < 2 ^ 32 ∧
      ∀ lamp, Course.Lands (start.level lamp) (goal.level lamp)
          (frames.map (·.color.level lamp)) ∧
        (∃ step sum,
          Course.Sums (start.level lamp) (goal.level lamp) (Course.samples d) step sum ∧
          frames.map (·.color.level lamp) = Course.shown (Course.samples d) sum) ∧
        ∀ step sum,
          Course.Sums (start.level lamp) (goal.level lamp) (Course.samples d) step sum →
          Course.Lands (start.level lamp) (goal.level lamp)
            (Course.shown (Course.samples d) sum) := by
  have hpos := Course.samples_pos d
  have hsize : Course.samples d < 2 ^ 32 := Nat.lt_succ_of_le (Course.samples_le d)
  refine ⟨Course.blendFrames start goal d, Course.compose_everything _ _ [], ?_, hsize, ?_⟩
  · rw [Course.blendFrames, List.length_map, Course.length_levels]
  · intro lamp
    have hsums := Course.sums_ofBlend start goal d lamp
    have hshown := Course.map_level_blendFrames start goal d lamp
    refine ⟨?_, ⟨_, _, hsums, hshown⟩, ?_⟩
    · rw [hshown]
      exact hsums.lands hpos hsize
    · intro step sum hsum
      exact hsum.lands hpos hsize

end Effect

end Beacon
