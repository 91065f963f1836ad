import Beacon.Proofs.Precision.Nearest
import Beacon.Proofs.Source.Course
import Mathlib.Tactic.NormNum

/-!
# The envelope of a fire

Every frame of a fire stays inside its envelope, whatever its dice roll
(`Effect.fire_stays_inside`). The envelope is a parabola over the run. Near its top it is a whole
number of units of `2 ^ -18`, with few bits, so nothing is rounded there but the product with the
part of a channel, which does not reach the next level either. Farther out it is dark with and
without rounding. So rounding never shows: a lamp has the level of exact arithmetic
(`Flames.channelOf_level`).
-/

namespace Beacon

open Output (everything)
open Precision (double Fits nearest_double)

/-! ## Levels of exact arithmetic -/

/-- The whole number below, held between 0 and 255. -/
def held (x : Rat) : Int := max 0 (min x.floor 255)

theorem held_mono {x y : Rat} (h : x ≤ y) : held x ≤ held y := by
  have hfloor := Rat.floor_monotone h
  unfold held
  omega

theorem held_of_neg {x : Rat} (h : x < 0) : held x = 0 := by
  have hfloor : x.floor < 0 := Rat.floor_lt_iff.2 (by exact_mod_cast h)
  unfold held
  omega

theorem toNat_channelOf_eq_held (x : Rat) : ((channelOf x).toNat : Int) = held x := by
  rw [toNat_channelOf, held]
  omega

theorem channelOf_of_nonpos {x : Rat} (h : x ≤ 0) : channelOf x = 0 := by
  have hfloor : x.floor ≤ 0 := by
    have hmono := Rat.floor_monotone h
    exact hmono
  rw [← UInt8.toNat_inj, toNat_channelOf, Int.toNat_of_nonpos hfloor]
  rfl

/-! ## Rounding -/

theorem fits_div {m : Int} (h : |m| ≤ 2 ^ 53) (n : Nat) : Fits 53 ((m : Rat) / 2 ^ n) := by
  refine ⟨m, -n, h, ?_⟩
  rw [Precision.twoTo_eq_zpow, zpow_neg, zpow_natCast, div_eq_mul_inv]

theorem double_nonpos {x : Rat} (h : x ≤ 0) : double x ≤ 0 :=
  (nearest_double x).ge_of_fits Precision.fits_zero h

theorem floor_eq_natCast {x : Rat} {n : Nat} (hle : n ≤ x) (hlt : x < n + 1) : x.floor = n := by
  have hbelow : (n : Int) ≤ x.floor := Rat.le_floor_iff.2 (by exact_mod_cast hle)
  have habove : x.floor < n + 1 := Rat.floor_lt_iff.2 (by exact_mod_cast hlt)
  omega

section Part

variable {q n : Nat} {x : Rat}

/-- A number that is counted in units of `2 ^ -18` and does not reach the next multiple of `q` is at
least one unit short of it. -/
theorem exists_level_of_units (hpos : 0 < q) (hq : q ≤ 100) (m : Nat) :
    ∃ n : Nat, (n : Rat) ≤ m / 2 ^ 18 / q ∧
      (m : Rat) / 2 ^ 18 / q ≤ n + 1 - 1 / (100 * 2 ^ 18) := by
  have hq₀ : (0 : Rat) < q := by exact_mod_cast hpos
  have hreached : m / (q * 2 ^ 18) * (q * 2 ^ 18) ≤ m := Nat.div_mul_le_self m (q * 2 ^ 18)
  have hshort : m + 1 ≤ (m / (q * 2 ^ 18) + 1) * (q * 2 ^ 18) := by
    have hlt := Nat.lt_mul_div_succ m (b := q * 2 ^ 18) (by positivity)
    rwa [Nat.mul_comm] at hlt
  refine ⟨m / (q * 2 ^ 18), ?_, ?_⟩
  · rw [div_div, le_div_iff₀ (by positivity), mul_comm (2 ^ 18 : Rat)]
    exact_mod_cast hreached
  · have hunit : 1 / (100 * 2 ^ 18) ≤ 1 / ((q : Rat) * 2 ^ 18) := by
      have hcast : (q : Rat) ≤ 100 := by exact_mod_cast hq
      gcongr
    have hnext : (m : Rat) / 2 ^ 18 / q + 1 / (q * 2 ^ 18) ≤ (m / (q * 2 ^ 18) : Nat) + 1 := by
      rw [div_div, mul_comm (2 ^ 18 : Rat), ← add_div, div_le_iff₀ (by positivity)]
      exact_mod_cast hshort
    linarith

/-- A rounded `q`-th that is no smaller than the `q`-th reaches every level that the `q`-th does. -/
theorem le_double_mul (hup : 1 / (q : Rat) ≤ double (1 / q)) (hn : n ≤ 2 ^ 53) (hx : 0 ≤ x)
    (hle : n ≤ x / q) : n ≤ double (double (1 / q) * x) := by
  refine (nearest_double _).le_of_fits (.natCast hn) ?_
  calc (n : Rat) ≤ x / q := hle
    _ = 1 / q * x := by ring
    _ ≤ double (1 / q) * x := mul_le_mul_of_nonneg_right hup hx

/-- What rounding the `q`-th and the product adds does not make up for a hundredth of a unit. -/
theorem double_mul_lt (hn : n < 2 ^ 10) (hx : 0 ≤ x) (hle : x / q ≤ n + 1 - 1 / (100 * 2 ^ 18)) :
    double (double (1 / q) * x) < n + 1 := by
  have hcount : (n : Rat) + 1 ≤ 2 ^ 10 := by exact_mod_cast hn
  have hpart : double (1 / q) ≤ 1 / q + 1 / q / 2 ^ 53 := by
    have hoff := (nearest_double (1 / (q : Rat))).abs_sub_le_div
    rw [abs_of_nonneg (by positivity : (0 : Rat) ≤ 1 / q)] at hoff
    linarith [le_abs_self (double (1 / q) - 1 / (q : Rat))]
  -- a number that fits lies between the product and the next level
  have hfits : Fits 53 ((((n + 1) * 2 ^ 26 - 1 : Int) : Rat) / 2 ^ 26) :=
    fits_div (by rw [abs_le]; omega) 26
  have hbelow : double (1 / q) * x ≤ (((n + 1) * 2 ^ 26 - 1 : Int) : Rat) / 2 ^ 26 :=
    calc double (1 / q) * x
        ≤ (1 / q + 1 / q / 2 ^ 53) * x := mul_le_mul_of_nonneg_right hpart hx
      _ = x / q + x / q / 2 ^ 53 := by ring
      _ ≤ n + 1 - 1 / 2 ^ 26 := by linarith
      _ = (((n + 1) * 2 ^ 26 - 1 : Int) : Rat) / 2 ^ 26 := by push_cast; ring
  calc double (double (1 / q) * x)
      ≤ (((n + 1) * 2 ^ 26 - 1 : Int) : Rat) / 2 ^ 26 := (nearest_double _).ge_of_fits hfits hbelow
    _ = n + 1 - 1 / 2 ^ 26 := by push_cast; ring
    _ < n + 1 := by linarith

/-- So multiplying with a rounded `q`-th and rounding the product gives the channel that dividing by
`q` gives. -/
theorem channelOf_double_mul (hpos : 0 < q) (hq : q ≤ 100) (hup : 1 / (q : Rat) ≤ double (1 / q))
    {m : Int} (hm : m < 2 ^ 28) :
    channelOf (double (double (1 / q) * (m / 2 ^ 18))) = channelOf (m / 2 ^ 18 / q) := by
  have hpart : (0 : Rat) ≤ double (1 / q) := hup.trans' (by positivity)
  rcases le_or_gt m 0 with hneg | hm₀
  · have hx : (m : Rat) / 2 ^ 18 ≤ 0 :=
      div_nonpos_of_nonpos_of_nonneg (by exact_mod_cast hneg) (by positivity)
    have hproduct := double_nonpos (mul_nonpos_of_nonneg_of_nonpos hpart hx)
    have hquotient := div_nonpos_of_nonpos_of_nonneg hx q.cast_nonneg
    rw [channelOf_of_nonpos hproduct, channelOf_of_nonpos hquotient]
  · obtain ⟨m, rfl⟩ := Int.eq_ofNat_of_zero_le hm₀.le
    rw [Int.cast_natCast]
    -- rounding does not carry the product over the next integer
    obtain ⟨n, hreached, hshort⟩ := exists_level_of_units hpos hq m
    have hx : (0 : Rat) ≤ m / 2 ^ 18 := by positivity
    have hn : n < 2 ^ 10 := by
      have hone : (1 : Rat) ≤ q := by exact_mod_cast hpos
      have hunits : (m : Rat) < 2 ^ 28 := by exact_mod_cast hm
      have hlevel : (n : Rat) < 2 ^ 10 :=
        calc (n : Rat) ≤ m / 2 ^ 18 / q := hreached
          _ ≤ m / 2 ^ 18 := div_le_self hx hone
          _ < 2 ^ 10 := by linarith
      exact_mod_cast hlevel
    have hrounded := floor_eq_natCast (le_double_mul hup (by omega) hx hreached)
      (double_mul_lt hn hx hshort)
    have hexact := floor_eq_natCast hreached (by linarith)
    rw [channelOf, channelOf, hrounded, hexact]

end Part

namespace Flames

/-! ## The envelope -/

variable {length t : Nat} {jitter : Int}

/-- How far a frame is behind the middle of the run. -/
def offset (length t : Nat) : Int := t - (length / 2 : Nat)

/-- The envelope in exact arithmetic. -/
def parabola (length t : Nat) : Rat := 255 - 255 * (offset length t : Rat) ^ 2 / 2 ^ 18

theorem envelope_eq (length t : Nat) : envelope length t =
    double (double (double (falloff * offset length t) * offset length t) + 255) := by
  rw [offset, Int.cast_sub]
  rfl

theorem parabola_le (length t : Nat) : parabola length t ≤ 255 := by
  have hsquare : (0 : Rat) ≤ 255 * (offset length t : Rat) ^ 2 / 2 ^ 18 := by positivity
  unfold parabola
  linarith

/-- At some distance from the middle and beyond, the parabola is no higher than at this distance. -/
theorem parabola_le_of_le {distance : Int} (h₀ : 0 ≤ distance) (h : distance ≤ |offset length t|) :
    parabola length t ≤ 255 - 255 * (distance : Rat) ^ 2 / 2 ^ 18 := by
  have hle : (distance : Rat) ^ 2 ≤ (offset length t : Rat) ^ 2 := by
    rw [← sq_abs (offset length t : Rat)]
    have hcast : (distance : Rat) ≤ |(offset length t : Rat)| := by exact_mod_cast h
    have hcast₀ : (0 : Rat) ≤ distance := by exact_mod_cast h₀
    gcongr
  unfold parabola
  linarith

theorem offset_mul_self_le (h : |offset length t| < 1024) :
    0 ≤ offset length t * offset length t ∧ offset length t * offset length t ≤ 2 ^ 20 := by
  rw [abs_lt] at h
  exact ⟨mul_self_nonneg _, by nlinarith⟩

/-- Near the middle nothing is rounded: all numbers on the way are counted in units of `2 ^ -18` and
have few bits. -/
theorem envelope_eq_parabola (h : |offset length t| < 1024) :
    envelope length t = parabola length t := by
  obtain ⟨hsquare₀, hsquare⟩ := offset_mul_self_le h
  rw [abs_lt] at h
  have hslope : falloff * offset length t = ((-255 * offset length t : Int) : Rat) / 2 ^ 18 := by
    push_cast
    norm_num [falloff]
    ring
  have hfall : ((-255 * offset length t : Int) : Rat) / 2 ^ 18 * offset length t =
      ((-255 * (offset length t * offset length t) : Int) : Rat) / 2 ^ 18 := by
    push_cast
    ring
  have hsum : ((-255 * (offset length t * offset length t) : Int) : Rat) / 2 ^ 18 + 255 =
      ((255 * 2 ^ 18 - 255 * (offset length t * offset length t) : Int) : Rat) / 2 ^ 18 := by
    push_cast
    ring
  rw [envelope_eq, hslope, Precision.double_of_fits (fits_div (by rw [abs_le]; omega) 18), hfall,
    Precision.double_of_fits (fits_div (by rw [abs_le]; omega) 18), hsum,
    Precision.double_of_fits (fits_div (by rw [abs_le]; omega) 18), parabola]
  push_cast
  ring

/-- Far from the middle the rounded envelope is far below zero, as the parabola is. -/
theorem envelope_le_of_far (h : 1024 ≤ |offset length t|) : envelope length t ≤ -765 := by
  have hfits : Fits 53 (255 / 256) := by
    have hdiv : Fits 53 (((255 : Int) : Rat) / 2 ^ 8) := fits_div (by decide) 8
    norm_num at hdiv
    exact hdiv
  -- the slope and the distance have opposite signs, and both are large
  have hfall : double (falloff * offset length t) * offset length t ≤ ((-1020 : Int) : Rat) := by
    push_cast
    rcases le_abs.1 h with hright | hleft
    · have hcast : (1024 : Rat) ≤ offset length t := by exact_mod_cast hright
      have hslope : double (falloff * offset length t) ≤ -(255 / 256) :=
        (nearest_double _).ge_of_fits hfits.neg (by unfold falloff; linarith)
      nlinarith
    · have hcast : (offset length t : Rat) ≤ -1024 := by
        have hint : offset length t ≤ -1024 := by omega
        exact_mod_cast hint
      have hslope : 255 / 256 ≤ double (falloff * offset length t) :=
        (nearest_double _).le_of_fits hfits (by unfold falloff; linarith)
      nlinarith
  have hrounded : double (double (falloff * offset length t) * offset length t) ≤
      ((-1020 : Int) : Rat) := (nearest_double _).ge_of_fits (.intCast (by decide)) hfall
  have hsum : double (double (falloff * offset length t) * offset length t) + 255 ≤
      ((-765 : Int) : Rat) := by
    push_cast at hrounded ⊢
    linarith
  rw [envelope_eq]
  exact_mod_cast (nearest_double _).ge_of_fits (.intCast (by decide)) hsum

/-- Rounding never shows: the channel of a jittered envelope is that of exact arithmetic. -/
theorem channelOf_level {q : Nat} (hpos : 0 < q) (hq : q ≤ 100)
    (hup : 1 / (q : Rat) ≤ double (1 / q)) (hjitter : |jitter| ≤ 100) :
    channelOf (level (1 / q) (envelope length t) jitter) =
      channelOf ((parabola length t + jitter) / q) := by
  rw [abs_le] at hjitter
  rw [level]
  rcases lt_or_ge |offset length t| 1024 with hnear | hfar
  · -- near the middle nothing is rounded before the product
    have hsum : parabola length t + jitter =
        ((255 * 2 ^ 18 - 255 * (offset length t * offset length t) + jitter * 2 ^ 18 : Int) : Rat) /
          2 ^ 18 := by
      rw [parabola]
      push_cast
      ring
    obtain ⟨hsquare₀, hsquare⟩ := offset_mul_self_le hnear
    rw [envelope_eq_parabola hnear, hsum,
      Precision.double_of_fits (fits_div (by rw [abs_le]; omega) 18)]
    exact channelOf_double_mul hpos hq hup (by omega)
  · -- far from it both are below zero, and the channel is dark
    have hcast : (jitter : Rat) ≤ 100 := by exact_mod_cast hjitter.2
    have henvelope := envelope_le_of_far hfar
    have hparabola := parabola_le_of_le (by decide) hfar
    have hpart : (0 : Rat) ≤ double (1 / q) := hup.trans' (by positivity)
    have hsum : double (envelope length t + jitter) ≤ 0 := double_nonpos (by linarith)
    have hproduct := double_nonpos (mul_nonpos_of_nonneg_of_nonpos hpart hsum)
    have hexact : (parabola length t + jitter) / q ≤ 0 := by
      refine div_nonpos_of_nonpos_of_nonneg ?_ q.cast_nonneg
      norm_num at hparabola
      linarith
    rw [channelOf_of_nonpos hproduct, channelOf_of_nonpos hexact]

/-! ## Inside the envelope -/

/-- The parts of the envelope that the lamps let through are rounded up. -/
theorem part_le_double : ∀ q ∈ [1, 10, 100], 1 / ((q : Nat) : Rat) ≤ double (1 / q) := by
  decide +kernel

/-- A lamp that lets the `q`-th part of the envelope through stays between the least and the most
that its jitter can make of it. -/
theorem level_within (length t : Nat) {q bound : Nat} (hq : q ∈ [1, 10, 100]) (hbound : bound ≤ 100)
    (hlow : -(bound : Int) ≤ jitter) (hhigh : jitter < bound) :
    held ((parabola length t - bound) / q) ≤
        (channelOf (level (1 / q) (envelope length t) jitter)).toNat ∧
      ((channelOf (level (1 / q) (envelope length t) jitter)).toNat : Int) ≤
        held ((parabola length t + (bound - 1)) / q) := by
  have hpos : 0 < q ∧ q ≤ 100 := by
    simp only [List.mem_cons, List.not_mem_nil, or_false] at hq
    omega
  have hleast : -(bound : Rat) ≤ jitter := by exact_mod_cast hlow
  have hmost : (jitter : Rat) ≤ bound - 1 := by
    have hint : jitter ≤ bound - 1 := by omega
    exact_mod_cast hint
  rw [channelOf_level hpos.1 hpos.2 (part_le_double q hq) (by rw [abs_le]; omega),
    toNat_channelOf_eq_held]
  constructor
  · refine held_mono ?_
    gcongr
    linarith
  · refine held_mono ?_
    gcongr

/-- The levels that a colour can have under an envelope: each lamp jitters by its bound and lets its
part through. -/
structure Inside (envelope : Rat) (c : Color) : Prop where
  red : held (envelope - 50) ≤ c.red.toNat ∧ c.red.toNat ≤ held (envelope + 49)
  green : held ((envelope - 70) / 10) ≤ c.green.toNat ∧ c.green.toNat ≤ held ((envelope + 69) / 10)
  blue : held ((envelope - 80) / 100) ≤ c.blue.toNat ∧ c.blue.toNat ≤ held ((envelope + 79) / 100)

theorem inside_colorAt {red green blue : Int} (hred : -(redBound : Int) ≤ red ∧ red < redBound)
    (hgreen : -(greenBound : Int) ≤ green ∧ green < greenBound)
    (hblue : -(blueBound : Int) ≤ blue ∧ blue < blueBound) :
    Inside (parabola length t) (colorAt (envelope length t) red green blue) where
  red := by
    have hwithin := level_within length t (q := 1) (by decide) (by decide) hred.1 hred.2
    norm_num [redBound] at hwithin
    exact hwithin
  green := by
    have hwithin := level_within length t (q := 10) (by decide) (by decide) hgreen.1 hgreen.2
    norm_num [greenBound] at hwithin
    exact hwithin
  blue := by
    have hwithin := level_within length t (q := 100) (by decide) (by decide) hblue.1 hblue.2
    norm_num [blueBound] at hwithin
    exact hwithin

namespace Inside

variable {envelope : Rat} {c : Color}

theorem green_le (h : Inside envelope c) (htop : envelope ≤ 255) : c.green.toNat ≤ 32 := by
  have hmost : held ((envelope + 69) / 10) ≤ held (324 / 10) := held_mono (by linarith)
  have htop : held (324 / 10) = 32 := by decide +kernel
  have hgreen := h.green.2
  omega

theorem blue_le (h : Inside envelope c) (htop : envelope ≤ 255) : c.blue.toNat ≤ 3 := by
  have hmost : held ((envelope + 79) / 100) ≤ held (334 / 100) := held_mono (by linarith)
  have htop : held (334 / 100) = 3 := by decide +kernel
  have hblue := h.blue.2
  omega

/-- No lamp burns where not even the most jitter lifts the envelope above zero. -/
theorem eq_black (h : Inside envelope c) (hdark : envelope < -79) : c = Color.black := by
  have hred := h.red.2
  have hgreen := h.green.2
  have hblue := h.blue.2
  rw [held_of_neg (by linarith)] at hred hgreen hblue
  refine Color.ext_level fun lamp => UInt8.toNat_inj.1 ?_
  rw [Color.level_black, UInt8.toNat_zero]
  cases lamp <;> simp only [Color.level] <;> omega

end Inside

/-! ## The frames of a fire -/

section Frames

variable {γ : Type} [Random.Dice γ]

/-- The frames of a fire of a given length at the times listed. -/
def shots (length : Nat) (delay : Duration) : List Nat → γ → List Frame
  | [], _ => []
  | t :: rest, dice =>
    ⟨(sample t length dice).1, delay⟩ :: shots length delay rest (sample t length dice).2

/-- A fire that is never refused a frame burns to its end. -/
theorem compose_everything (length : Nat) (delay : Duration) (times : List Nat) (dice : γ)
    (put : List Frame) : compose everything length delay times dice put =
      some ((), put ++ shots length delay times dice) := by
  induction times generalizing dice put with
  | nil => rw [compose, shots, List.append_nil, Composing.pure_eq]
  | cons t rest ih =>
    let drawn := sample t length dice
    change (everything.emit ⟨drawn.1, delay⟩ >>= fun more =>
      if more then compose everything length delay rest drawn.2 else pure ()) put = _
    rw [Composing.bind_eq (Output.emit_everything _ put), if_pos rfl, ih, shots,
      List.append_assoc, List.singleton_append]

@[simp] theorem length_shots (length : Nat) (delay : Duration) (times : List Nat) (dice : γ) :
    (shots length delay times dice).length = times.length := by
  induction times generalizing dice with
  | nil => rfl
  | cons t rest ih => rw [shots, List.length_cons, List.length_cons, ih]

/-- Whatever the dice roll, the jitter of each lamp is within its bounds. -/
theorem inside_sample (length t : Nat) (dice : γ) :
    Inside (parabola length t) (sample t length dice).1 :=
  inside_colorAt (Random.Dice.roll_bounds _ _ (by decide))
    (Random.Dice.roll_bounds _ _ (by decide)) (Random.Dice.roll_bounds _ _ (by decide))

theorem inside_of_getElem?_shots {delay : Duration} {times : List Nat} {dice : γ} {i : Nat}
    {frame : Frame} (h : (shots length delay times dice)[i]? = some frame) :
    frame.delay = delay ∧ ∃ t, times[i]? = some t ∧ Inside (parabola length t) frame.color := by
  induction times generalizing dice i with
  | nil => simp [shots] at h
  | cons first rest ih =>
    rw [shots] at h
    cases i with
    | zero =>
      rw [List.getElem?_cons_zero, Option.some.injEq] at h
      subst h
      exact ⟨rfl, first, rfl, inside_sample length first dice⟩
    | succ i =>
      rw [List.getElem?_cons_succ] at h ⊢
      exact ih h

/-- A fire of `length` frames: each stays inside the envelope of its time, so the lamps are at most
this bright, and dark far from the middle. -/
structure Burns (length : Nat) (delay : Duration) (frames : List Frame) : Prop where
  length_eq : frames.length = length
  delay_eq : ∀ frame ∈ frames, frame.delay = delay
  inside : ∀ t frame, frames[t]? = some frame → Inside (parabola length t) frame.color
  green_le : ∀ frame ∈ frames, frame.color.green.toNat ≤ 32
  blue_le : ∀ frame ∈ frames, frame.color.blue.toNat ≤ 3
  dark : ∀ t frame, frames[t]? = some frame → 586 ≤ |offset length t| → frame.color = Color.black

theorem burns_shots (length : Nat) (delay : Duration) (dice : γ) :
    Burns length delay (shots length delay (List.range length) dice) := by
  have hinside (t : Nat) (frame : Frame)
      (h : (shots length delay (List.range length) dice)[t]? = some frame) :
      frame.delay = delay ∧ Inside (parabola length t) frame.color := by
    obtain ⟨hdelay, time, htime, hframe⟩ := inside_of_getElem?_shots h
    obtain ⟨ht, rfl⟩ := List.getElem?_eq_some_iff.1 htime
    rw [List.getElem_range] at hframe
    exact ⟨hdelay, hframe⟩
  refine ⟨by simp, ?_, fun t frame h => (hinside t frame h).2, ?_, ?_, ?_⟩
  · intro frame hframe
    obtain ⟨t, ht⟩ := List.mem_iff_getElem?.1 hframe
    exact (hinside t frame ht).1
  · intro frame hframe
    obtain ⟨t, ht⟩ := List.mem_iff_getElem?.1 hframe
    exact (hinside t frame ht).2.green_le (parabola_le length t)
  · intro frame hframe
    obtain ⟨t, ht⟩ := List.mem_iff_getElem?.1 hframe
    exact (hinside t frame ht).2.blue_le (parabola_le length t)
  · intro t frame ht hfar
    have hlow := parabola_le_of_le (by decide) hfar
    norm_num at hlow
    exact (hinside t frame ht).2.eq_black (by linarith)

end Frames

/-- How far a frame is behind the middle of the run, in words of 32 bits. -/
def offsetWord (length t : Int32) : Int32 := t - length / 2

/-- In words nothing wraps around. -/
theorem toInt_offsetWord (ht : t < length) (hlength : length < 2 ^ 31) :
    (offsetWord (.ofNat length) (.ofNat t)).toInt = offset length t := by
  have htime : (Int32.ofNat t).toInt = t := Int32.toInt_ofNat_of_lt (by omega)
  have hrun : (Int32.ofNat length).toInt = length := Int32.toInt_ofNat_of_lt hlength
  have htwo : (2 : Int32).toInt = 2 := rfl
  have hmiddle : (Int32.ofNat length / 2).toInt = (length / 2 : Nat) := by
    rw [Int32.toInt_div, hrun, htwo, Int.tdiv_eq_ediv_of_nonneg (by omega),
      Int.bmod_eq_of_le (by omega) (by omega)]
    rfl
  rw [offsetWord, Int32.toInt_sub, htime, hmiddle, Int.bmod_eq_of_le (by omega) (by omega), offset]

end Flames

namespace Effect

variable {γ : Type} [Random.Dice γ]

/-- Whatever its dice roll, a fire puts out as many frames as its count says, all of them inside
their envelope; and no count is so large that the distance from the middle overflows. -/
theorem fire_stays_inside (dice : γ) (p : Pattern) :
    ∃ frames : List Frame,
      (fire p).compose everything dice [] = some ((), frames) ∧
      Flames.Burns p.count.toNat p.delay frames ∧
      (p.count < 2 ^ 31 → ∀ t < p.count.toNat,
        (Flames.offsetWord (.ofNat p.count.toNat) (.ofNat t)).toInt =
          Flames.offset p.count.toNat t) := by
  refine ⟨_, Flames.compose_everything _ _ _ dice [], ?_, ?_⟩
  · rw [List.nil_append]
    exact Flames.burns_shots p.count.toNat p.delay dice
  · intro hcount t ht
    exact Flames.toInt_offsetWord ht (by omega)

end Effect

end Beacon
