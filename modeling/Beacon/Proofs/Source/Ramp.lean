import Beacon.Proofs.Source.Whole

/-!
# The shape of a fade

Each cycle of a fade is a triangle in the hue of its colour (`Effect.fade_draws_triangles`). All
that is said about its frames comes from one number, the level of a lamp at a step of the ramp
(`Ramp.toNat_level`): it grows with the step and with the share of the lamp, and up to the last step
it does not pass the level of the colour. Cut off twice, it may fall short of that level at the top:
a cycle reaches its colour exactly if all shares are whole percents (`Effect.fade_reaches_iff`).
-/

namespace Beacon

namespace Ramp

variable {c : Color} {step : Nat}

theorem steps_of_ne_black (h : c ≠ Color.black) : steps c = c.peak.toNat := by
  rw [steps, if_neg (mt Color.peak_eq_zero_iff.1 h)]

theorem peak_pos (h : c ≠ Color.black) : 0 < c.peak.toNat := by
  rw [← steps_of_ne_black h]
  exact steps_pos c

theorem steps_le (c : Color) : steps c ≤ 255 := by
  unfold steps
  split
  · exact Nat.le_refl 255
  · exact Nat.le_of_lt_succ c.peak.toNat_lt

/-! ## Levels -/

theorem share_mono {a b : UInt8} (h : a ≤ b) : share c a ≤ share c b := by
  rw [UInt8.le_iff_toNat_le] at h
  exact Nat.div_le_div_right (Nat.mul_le_mul_right 100 h)

theorem share_peak (h : c ≠ Color.black) : share c c.peak = 100 :=
  Nat.mul_div_cancel_left 100 (peak_pos h)

theorem share_black (lamp : Lamp) : share Color.black (Color.black.level lamp) = 0 := by
  cases lamp <;> decide

/-- Up to the last step, the share of a lamp stays below its level. -/
theorem mul_share_le (h : step ≤ steps c) (lamp : Lamp) :
    step * share c (c.level lamp) ≤ (c.level lamp).toNat * 100 := by
  by_cases hc : c = Color.black
  · rw [hc, share_black, Nat.mul_zero]
    exact Nat.zero_le _
  · rw [steps_of_ne_black hc] at h
    calc step * share c (c.level lamp)
        ≤ c.peak.toNat * share c (c.level lamp) := Nat.mul_le_mul_right _ h
      _ ≤ (c.level lamp).toNat * 100 := Nat.mul_div_le _ _

theorem mul_share_div_le (h : step ≤ steps c) (lamp : Lamp) :
    step * share c (c.level lamp) / 100 ≤ (c.level lamp).toNat :=
  Nat.div_le_of_le_mul (Nat.mul_comm _ 100 ▸ mul_share_le h lamp)

/-- The level of a lamp at a step of the ramp: nothing is lost in a channel of eight bits. -/
theorem toNat_level (h : step ≤ steps c) (lamp : Lamp) :
    ((color c step).level lamp).toNat = step * share c (c.level lamp) / 100 := by
  have hlt : step * share c (c.level lamp) / 100 < UInt8.size :=
    Nat.lt_of_le_of_lt (mul_share_div_le h lamp) (c.level lamp).toNat_lt
  rw [color, Color.level_map, Nat.min_eq_left (Nat.le_of_lt_succ hlt),
    UInt8.toNat_ofNat_of_lt' hlt]

theorem color_within (h : step ≤ steps c) : (color c step).Within c := by
  intro lamp
  rw [UInt8.le_iff_toNat_le, toNat_level h]
  exact mul_share_div_le h lamp

theorem color_mono {low high : Nat} (hle : low ≤ high) (h : high ≤ steps c) :
    (color c low).Within (color c high) := by
  intro lamp
  rw [UInt8.le_iff_toNat_le, toNat_level h, toNat_level (Nat.le_trans hle h)]
  exact Nat.div_le_div_right (Nat.mul_le_mul_right _ hle)

/-- A lamp that the colour makes no brighter than another is no brighter at any step. -/
theorem level_le_level {a b : Lamp} (hab : c.level a ≤ c.level b) (h : step ≤ steps c) :
    (color c step).level a ≤ (color c step).level b := by
  rw [UInt8.le_iff_toNat_le, toNat_level h, toNat_level h]
  exact Nat.div_le_div_right (Nat.mul_le_mul_left _ (share_mono hab))

theorem color_zero (c : Color) : color c 0 = Color.black := by
  refine Color.ext_level fun lamp => UInt8.toNat_inj.1 ?_
  rw [toNat_level (Nat.zero_le _), Nat.zero_mul, Color.level_black]
  rfl

theorem color_black (h : step ≤ steps Color.black) : color Color.black step = Color.black := by
  refine Color.ext_level fun lamp => UInt8.toNat_inj.1 ?_
  rw [toNat_level h, share_black, Nat.mul_zero, Color.level_black]
  rfl

/-- The lamps that are brightest in the colour count the steps. -/
theorem toNat_level_of_peak (hc : c ≠ Color.black) (h : step ≤ steps c) {lamp : Lamp}
    (hlamp : c.level lamp = c.peak) : ((color c step).level lamp).toNat = step := by
  rw [toNat_level h, hlamp, share_peak hc, Nat.mul_div_cancel step (by decide)]

/-- What is brightest in the colour is brightest at every step. -/
theorem toNat_peak_color (hc : c ≠ Color.black) (h : step ≤ steps c) :
    (color c step).peak.toNat = step := by
  obtain ⟨brightest, hbrightest⟩ := c.exists_level_eq_peak
  obtain ⟨lamp, hlamp⟩ := (color c step).exists_level_eq_peak
  have hcount := toNat_level_of_peak hc h hbrightest
  have hbelow := level_le_level (hbrightest ▸ c.level_le_peak lamp) h
  have habove := (color c step).level_le_peak brightest
  rw [hlamp] at hbelow
  rw [UInt8.le_antisymm hbelow habove, hcount]

/-! ## Words -/

/-- The share of a lamp in words of 32 bits, in which products wrap around. -/
def shareWord (c : Color) (lamp : Lamp) : UInt32 :=
  (c.level lamp).toUInt32 * 100 / c.peak.toUInt32

/-- The level of a lamp at a step in words of 32 bits. -/
def levelWord (c : Color) (step : UInt32) (lamp : Lamp) : UInt32 := step * shareWord c lamp / 100

theorem level_mul_lt (c : Color) (lamp : Lamp) : (c.level lamp).toNat * 100 < UInt32.size := by
  have hlt := (c.level lamp).toNat_lt
  have hsize : UInt32.size = 4294967296 := rfl
  omega

theorem toNat_shareWord (c : Color) (lamp : Lamp) :
    (shareWord c lamp).toNat = share c (c.level lamp) := by
  rw [shareWord, UInt32.toNat_div, UInt32.toNat_mul, UInt8.toNat_toUInt32, UInt8.toNat_toUInt32]
  exact congrArg (· / c.peak.toNat) (Nat.mod_eq_of_lt (level_mul_lt c lamp))

theorem mul_share_lt (h : step ≤ steps c) (lamp : Lamp) :
    step * share c (c.level lamp) < UInt32.size :=
  Nat.lt_of_le_of_lt (mul_share_le h lamp) (level_mul_lt c lamp)

theorem toNat_levelWord (h : step ≤ steps c) (lamp : Lamp) :
    (levelWord c (UInt32.ofNat step) lamp).toNat = step * share c (c.level lamp) / 100 := by
  have hstep : (UInt32.ofNat step).toNat = step := by
    have hsteps := steps_le c
    have hsize : UInt32.size = 4294967296 := rfl
    exact UInt32.toNat_ofNat_of_lt' (by omega)
  rw [levelWord, UInt32.toNat_div, UInt32.toNat_mul, toNat_shareWord, hstep]
  exact congrArg (· / 100) (Nat.mod_eq_of_lt (mul_share_lt h lamp))

/-- In words, no product on the way to a level wraps around, the level is no more than 255, and
cutting it down to eight bits is the level of the ramp. -/
structure Exact (c : Color) (step : Nat) (lamp : Lamp) : Prop where
  percent : (c.level lamp).toNat * 100 < UInt32.size
  product : step * share c (c.level lamp) < UInt32.size
  level : (levelWord c (UInt32.ofNat step) lamp).toNat = step * share c (c.level lamp) / 100
  clamp : levelWord c (UInt32.ofNat step) lamp ≤ 255
  cast : ((color c step).level lamp).toNat = (levelWord c (UInt32.ofNat step) lamp).toNat

theorem exact_of_le (h : step ≤ steps c) (lamp : Lamp) : Exact c step lamp := by
  have hword := toNat_levelWord h lamp
  refine ⟨level_mul_lt c lamp, mul_share_lt h lamp, hword, ?_, ?_⟩
  · rw [UInt32.le_iff_toNat_le, hword]
    exact Nat.le_trans (mul_share_div_le h lamp) (Nat.le_of_lt_succ (c.level lamp).toNat_lt)
  · rw [toNat_level h, hword]

/-! ## Cycles -/

/-- The step of the ramp that a frame of a cycle shows. -/
def stepAt (c : Color) (j : Nat) : Nat := if j < steps c then j + 1 else 2 * steps c - 1 - j

theorem stepAt_le {j : Nat} (hj : j < 2 * steps c) : stepAt c j ≤ steps c := by
  unfold stepAt
  split <;> omega

/-- The way down takes the steps of the way up again. -/
theorem stepAt_mirror {j : Nat} (hj : j < steps c) :
    stepAt c (2 * steps c - 2 - j) = stepAt c j := by
  unfold stepAt
  rw [if_pos hj]
  split <;> omega

theorem getElem?_cycle_stepAt (d : Duration) {j : Nat} (hj : j < 2 * steps c) :
    (cycle c d)[j]? = some ⟨color c (stepAt c j), d⟩ := getElem?_cycle c d hj

theorem eq_of_getElem?_cycle {d : Duration} {frame : Frame} {j : Nat}
    (h : (cycle c d)[j]? = some frame) :
    stepAt c j ≤ steps c ∧ frame = ⟨color c (stepAt c j), d⟩ := by
  obtain ⟨hj, -⟩ := List.getElem?_eq_some_iff.1 h
  rw [length_cycle] at hj
  rw [getElem?_cycle_stepAt d hj] at h
  exact ⟨stepAt_le hj, (Option.some.inj h).symm⟩

theorem exists_step_of_mem {d : Duration} {frame : Frame} (h : frame ∈ cycle c d) :
    ∃ step, step ≤ steps c ∧ frame = ⟨color c step, d⟩ := by
  obtain ⟨j, hframe⟩ := List.mem_iff_getElem?.1 h
  exact ⟨stepAt c j, eq_of_getElem?_cycle hframe⟩

theorem take_cycle (c : Color) (d : Duration) :
    (cycle c d).take (steps c) = (List.range' 1 (steps c)).map fun step => ⟨color c step, d⟩ := by
  rw [cycle, ← List.map_take, List.take_left' (by simp)]

/-- The way down begins with the top of the way up. -/
theorem drop_cycle (c : Color) (d : Duration) :
    (cycle c d).drop (steps c - 1) =
      (List.range (steps c + 1)).reverse.map fun step => ⟨color c step, d⟩ := by
  have hpos := steps_pos c
  have hdrop : (List.range' 1 (steps c)).drop (steps c - 1) = [steps c] := by
    rw [List.drop_range']
    have hone : steps c - (steps c - 1) = 1 := by omega
    have htop : 1 + (steps c - 1) * 1 = steps c := by omega
    rw [hone, htop]
    rfl
  rw [cycle, ← List.map_drop, List.drop_append_of_le_length (by simp), hdrop, List.range_succ,
    List.reverse_append]
  rfl

/-- The frames of one cycle: up to the colour, down to darkness, in its hue. -/
structure Triangle (c : Color) (delay : Duration) (frames : List Frame) : Prop where
  length : frames.length = 2 * steps c
  shown : ∀ j (frame : Frame), frames[j]? = some frame → frame = ⟨color c (stepAt c j), delay⟩
  rising : (frames.take (steps c)).Pairwise fun a b => a.color.Within b.color
  falling : (frames.drop (steps c - 1)).Pairwise fun a b => b.color.Within a.color
  mirrored : ∀ j, j < steps c → frames[j]? = frames[2 * steps c - 2 - j]?
  last : frames.getLast? = some ⟨Color.black, delay⟩
  within : ∀ frame ∈ frames, frame.color.Within c
  ordered : ∀ frame ∈ frames, ∀ a b, c.level a ≤ c.level b →
    frame.color.level a ≤ frame.color.level b
  counted : c ≠ Color.black → ∀ j frame, frames[j]? = some frame →
    frame.color.peak.toNat = stepAt c j ∧
      ∀ lamp, c.level lamp = c.peak → (frame.color.level lamp).toNat = stepAt c j
  dark : c = Color.black → ∀ frame ∈ frames, frame.color = Color.black

theorem triangle_cycle (c : Color) (d : Duration) : Triangle c d (cycle c d) where
  length := length_cycle c d
  shown := by
    intro j frame hframe
    exact (eq_of_getElem?_cycle hframe).2
  rising := by
    -- up to the top the steps are in order, so their colours are
    rw [take_cycle, List.pairwise_map]
    refine (List.pairwise_lt_range' 1).imp_of_mem fun {low high} _ hhigh hlt => ?_
    rw [List.mem_range'_1] at hhigh
    exact color_mono (Nat.le_of_lt hlt) (by omega)
  falling := by
    rw [drop_cycle, List.pairwise_map, List.pairwise_reverse]
    refine List.pairwise_lt_range.imp_of_mem fun {low high} _ hhigh hlt => ?_
    rw [List.mem_range] at hhigh
    exact color_mono (Nat.le_of_lt hlt) (Nat.le_of_lt_succ hhigh)
  mirrored := by
    intro j hj
    rw [getElem?_cycle_stepAt d (by omega), getElem?_cycle_stepAt d (by omega), stepAt_mirror hj]
  last := by
    have hpos := steps_pos c
    have hlast : stepAt c (2 * steps c - 1) = 0 := by
      unfold stepAt
      split <;> omega
    rw [List.getLast?_eq_getElem?, length_cycle, getElem?_cycle_stepAt d (by omega), hlast,
      color_zero]
  within := by
    intro frame hframe
    obtain ⟨step, hstep, rfl⟩ := exists_step_of_mem hframe
    exact color_within hstep
  ordered := by
    intro frame hframe a b hab
    obtain ⟨step, hstep, rfl⟩ := exists_step_of_mem hframe
    exact level_le_level hab hstep
  counted := by
    -- the number of the frame says which step it shows, and the brightest lamps count the steps
    intro hc j frame hframe
    obtain ⟨hstep, rfl⟩ := eq_of_getElem?_cycle hframe
    constructor
    · exact toNat_peak_color hc hstep
    · intro lamp hlamp
      exact toNat_level_of_peak hc hstep hlamp
  dark := by
    rintro rfl frame hframe
    obtain ⟨step, hstep, rfl⟩ := exists_step_of_mem hframe
    exact color_black hstep

/-! ## The brightest frame -/

/-- Cutting off a share in whole percent and then its part of the peak loses nothing exactly if the
share has no fraction. -/
theorem peak_mul_share_div_eq_iff (c : Color) (lamp : Lamp) :
    c.peak.toNat * share c (c.level lamp) / 100 = (c.level lamp).toNat ↔
      c.peak.toNat ∣ (c.level lamp).toNat * 100 := by
  have hle : c.peak.toNat * share c (c.level lamp) ≤ (c.level lamp).toNat * 100 :=
    Nat.mul_div_le _ _
  constructor
  · intro heq
    have hge := Nat.div_mul_le_self (c.peak.toNat * share c (c.level lamp)) 100
    rw [heq] at hge
    exact ⟨share c (c.level lamp), Nat.le_antisymm hge hle⟩
  · intro hdvd
    rw [share, Nat.mul_div_cancel' hdvd, Nat.mul_div_cancel _ (by decide)]

/-- What is cut off is less than one percent of the peak and one level. -/
theorem level_le_add_three (hc : c ≠ Color.black) (lamp : Lamp) :
    (c.level lamp).toNat ≤ c.peak.toNat * share c (c.level lamp) / 100 + 3 := by
  have hpeak := c.peak.toNat_lt
  have hshare : (c.level lamp).toNat * 100 <
      c.peak.toNat * share c (c.level lamp) + c.peak.toNat := by
    rw [← Nat.mul_succ]
    exact Nat.lt_mul_div_succ _ (peak_pos hc)
  omega

/-- How near the brightest frame of a cycle comes to the colour. -/
structure Top (c top : Color) : Prop where
  peak : top.peak = c.peak
  within : top.Within c
  near : ∀ lamp, (c.level lamp).toNat ≤ (top.level lamp).toNat + 3
  reaches_iff : top = c ↔ ∀ lamp, c.peak.toNat ∣ (c.level lamp).toNat * 100

theorem top_color (hc : c ≠ Color.black) : Top c (color c c.peak.toNat) := by
  have hsteps : c.peak.toNat ≤ steps c := Nat.le_of_eq (steps_of_ne_black hc).symm
  refine ⟨UInt8.toNat_inj.1 (toNat_peak_color hc hsteps), color_within hsteps, ?_, ?_⟩
  -- how near a lamp comes and whether it comes there are both read off its level at the last step
  · intro lamp
    rw [toNat_level hsteps]
    exact level_le_add_three hc lamp
  · have hlevels : color c c.peak.toNat = c ↔
        ∀ lamp, ((color c c.peak.toNat).level lamp).toNat = (c.level lamp).toNat :=
      ⟨fun h lamp => by rw [h], fun h => Color.ext_level fun lamp => UInt8.toNat_inj.1 (h lamp)⟩
    simp only [hlevels, toNat_level hsteps, peak_mul_share_div_eq_iff]

end Ramp

namespace Effect

open Output (everything)

variable {γ : Type} [Random.Dice γ]

theorem compose_fade (dice : γ) (p : Pattern) (h : 0 < p.count) :
    (fade p).compose everything dice [] =
      some ((), (List.replicate p.count.toNat (Ramp.cycle p.color p.delay)).flatten) := by
  have hcount : p.count = p.count.toNat := by omega
  have hrun := forEachCycle_everything (Ramp.cycle p.color p.delay) p.count.toNat []
  rw [← hcount, List.nil_append] at hrun
  exact hrun

/-- A fade puts out as many triangles as its count says, and no arithmetic on the way overflows. -/
theorem fade_draws_triangles (dice : γ) (p : Pattern) (h : 0 < p.count) :
    ∃ cycles : List (List Frame),
      (fade p).compose everything dice [] = some ((), cycles.flatten) ∧
      cycles.length = p.count.toNat ∧
      cycles.flatten.length = 2 * Ramp.steps p.color * p.count.toNat ∧
      (∀ frames ∈ cycles, Ramp.Triangle p.color p.delay frames) ∧
      ∀ step, step ≤ Ramp.steps p.color → ∀ lamp, Ramp.Exact p.color step lamp := by
  refine ⟨_, compose_fade dice p h, List.length_replicate, ?_, ?_, ?_⟩
  · rw [List.length_flatten, List.map_replicate, List.sum_replicate_nat, Ramp.length_cycle,
      Nat.mul_comm]
  · intro frames hframes
    rw [List.eq_of_mem_replicate hframes]
    exact Ramp.triangle_cycle p.color p.delay
  · intro step hstep lamp
    exact Ramp.exact_of_le hstep lamp

/-- Three cycles of a dim blue. -/
theorem fade_draws_triangles_blue :
    (0 : Int) < 3 ∧ ∃ cycles : List (List Frame),
      (fade ⟨⟨4000000⟩, ⟨0, 0, 10⟩, 3⟩).compose everything (Random.Generator.ofSeed 7) [] =
        some ((), cycles.flatten) ∧
      cycles.flatten.length = 60 ∧
      ∀ frames ∈ cycles, Ramp.Triangle ⟨0, 0, 10⟩ ⟨4000000⟩ frames := by
  obtain ⟨cycles, hrun, -, hlength, htriangles, -⟩ := fade_draws_triangles
    (Random.Generator.ofSeed 7) ⟨⟨4000000⟩, ⟨0, 0, 10⟩, 3⟩ (by decide)
  exact ⟨by decide, cycles, hrun, hlength, htriangles⟩

/-- In each cycle of a fade the brightest frame is at most three levels short of the colour in each
lamp. It is the colour exactly if the share of each lamp is a whole percentage of the peak. -/
theorem fade_reaches_iff (dice : γ) (p : Pattern) (h : 0 < p.count) (hc : p.color ≠ Color.black) :
    ∃ cycles : List (List Frame),
      (fade p).compose everything dice [] = some ((), cycles.flatten) ∧
      cycles.length = p.count.toNat ∧
      ∀ frames ∈ cycles, frames.length = 2 * p.color.peak.toNat ∧
        ∃ top, frames[p.color.peak.toNat - 1]? = some ⟨top, p.delay⟩ ∧ Ramp.Top p.color top := by
  refine ⟨_, compose_fade dice p h, List.length_replicate, ?_⟩
  intro frames hframes
  have hsteps := Ramp.steps_of_ne_black hc
  have hpos := Ramp.peak_pos hc
  have hstep : Ramp.stepAt p.color (p.color.peak.toNat - 1) = p.color.peak.toNat := by
    unfold Ramp.stepAt
    split <;> omega
  rw [List.eq_of_mem_replicate hframes, Ramp.length_cycle, hsteps,
    Ramp.getElem?_cycle_stepAt _ (by omega), hstep]
  exact ⟨rfl, _, rfl, Ramp.top_color hc⟩

/-- Half as much green as red is a whole percentage. -/
theorem fade_reaches_iff_half :
    (0 : Int) < 2 ∧ (⟨200, 100, 0⟩ : Color) ≠ Color.black ∧ ∃ cycles : List (List Frame),
      (fade ⟨⟨4000000⟩, ⟨200, 100, 0⟩, 2⟩).compose everything (Random.Generator.ofSeed 7) [] =
        some ((), cycles.flatten) ∧
      cycles.length = 2 ∧
      ∀ frames ∈ cycles, frames[199]? = some ⟨⟨200, 100, 0⟩, ⟨4000000⟩⟩ := by
  obtain ⟨cycles, hrun, hlength, htops⟩ := fade_reaches_iff (Random.Generator.ofSeed 7)
    ⟨⟨4000000⟩, ⟨200, 100, 0⟩, 2⟩ (by decide) (by decide)
  refine ⟨by decide, by decide, cycles, hrun, hlength, ?_⟩
  intro frames hframes
  obtain ⟨-, top, htop, hnear⟩ := htops frames hframes
  have hreaches : top = ⟨200, 100, 0⟩ := hnear.reaches_iff.2 fun lamp => by cases lamp <;> decide
  rw [← hreaches]
  exact htop

/-- Green of 77 is a little more than 30 percent of 255: the brightest frame has one level less, and
no frame has the colour. -/
theorem fade_misses_orange :
    ∃ frames : List Frame,
      (fade ⟨⟨4000000⟩, ⟨255, 77, 0⟩, 1⟩).compose everything (Random.Generator.ofSeed 0) [] =
        some ((), frames) ∧
      frames[254]? = some ⟨⟨255, 76, 0⟩, ⟨4000000⟩⟩ ∧
      ∀ frame ∈ frames, frame.color ≠ ⟨255, 77, 0⟩ := by
  have hrun := compose_fade (Random.Generator.ofSeed 0) ⟨⟨4000000⟩, ⟨255, 77, 0⟩, 1⟩ (by decide)
  rw [Int.toNat_one, List.replicate_one, List.flatten_singleton] at hrun
  refine ⟨Ramp.cycle ⟨255, 77, 0⟩ ⟨4000000⟩, hrun, ?_, ?_⟩
  · exact Ramp.getElem?_cycle_stepAt _ (by decide)
  · intro frame hframe hcolor
    obtain ⟨step, hstep, rfl⟩ := Ramp.exists_step_of_mem hframe
    -- only the step that counts to the peak can have its red, and there green is 76
    have hpeak := Ramp.toNat_peak_color (by decide) hstep
    dsimp only at hcolor
    rw [hcolor] at hpeak
    subst hpeak
    revert hcolor
    decide

end Effect

end Beacon
