import Beacon.Proofs.Precision

/-!
# What rounding loses

A number is rounded to a nearest one among those that fit (`Precision.nearest_toBits`). Which of two
equally near ones is taken plays no part in what is lost: a nearest number is off by no more than a
`2 ^ bits`-th part of what was rounded (`Precision.Nearest.abs_sub_le`), and it does not cross a
number that fits.
-/

namespace Beacon.Precision

variable {x y z : Rat} {bits : Nat}

/-! ## Nearest integers -/

/-- The nearest integer is no farther away than the integer below and the integer above. -/
theorem abs_nearestEven_sub_le_part (x : Rat) :
    |(nearestEven x : Rat) - x| ≤ x - x.floor ∧ |(nearestEven x : Rat) - x| ≤ x.floor + 1 - x := by
  have hbelow : (x.floor : Rat) ≤ x := Rat.le_floor_iff.1 le_rfl
  have habove : x < x.floor + 1 := by
    have hlt : x < ((x.floor + 1 : Int) : Rat) := Rat.floor_lt_iff.1 (Int.lt_succ _)
    exact_mod_cast hlt
  have hlow : |(x.floor : Rat) - x| = x - x.floor := by
    rw [abs_sub_comm, abs_of_nonneg (sub_nonneg.2 hbelow)]
  have hhigh : |((x.floor + 1 : Int) : Rat) - x| = x.floor + 1 - x := by
    push_cast
    exact abs_of_pos (sub_pos.2 habove)
  unfold nearestEven
  dsimp only
  split_ifs <;> simp only [hlow, hhigh] <;> constructor <;> linarith

theorem abs_nearestEven_sub_le_half (x : Rat) : |(nearestEven x : Rat) - x| ≤ 1 / 2 := by
  obtain ⟨hbelow, habove⟩ := abs_nearestEven_sub_le_part x
  linarith

/-- No integer is nearer. -/
theorem abs_nearestEven_sub_le (x : Rat) (n : Int) : |(nearestEven x : Rat) - x| ≤ |n - x| := by
  obtain ⟨hbelow, habove⟩ := abs_nearestEven_sub_le_part x
  rcases Int.lt_or_le x.floor n with hlt | hle
  · have hn : (x.floor : Rat) + 1 ≤ n := by exact_mod_cast hlt
    have hdistance : (n : Rat) - x ≤ |n - x| := le_abs_self _
    linarith
  · have hn : (n : Rat) ≤ x.floor := by exact_mod_cast hle
    have hdistance : -((n : Rat) - x) ≤ |n - x| := neg_le_abs _
    linarith

/-! ## Nearest numbers that fit -/

/-- A number that fits, and none that fits is nearer. -/
structure Nearest (bits : Nat) (x y : Rat) : Prop where
  fits : Fits bits y
  abs_sub_le : ∀ z, Fits bits z → |y - x| ≤ |z - x|

/-- Distances can be counted in units. -/
theorem abs_sub_div_mul {unit : Rat} (hunit : 0 < unit) (q x : Rat) :
    |q - x / unit| * unit = |q * unit - x| := by
  rw [← abs_of_pos hunit, ← abs_mul, abs_of_pos hunit, sub_mul, div_mul_cancel₀ x hunit.ne']

/-- What rounding gives is nearest: if another number that fits is not a whole number of units, such
a number lies between the two. -/
theorem nearest_toBits (hbits : 0 < bits) (x : Rat) : Nearest bits x (toBits bits x) := by
  refine ⟨fits_toBits bits x, fun z hz => ?_⟩
  by_cases hx : x = 0
  · rw [hx, toBits_zero, sub_zero, abs_zero]
    exact abs_nonneg _
  obtain ⟨k, hbelow, habove⟩ := hz.exists_between hbits hx
  have hunit := twoTo_pos (exponent x - bits + 1)
  have hwhole : |(k : Rat) * twoTo (exponent x - bits + 1) - x| ≤ |z - x| := by
    rcases le_total z x with hle | hle
    · obtain ⟨hzk, hkx⟩ := hbelow hle
      rw [abs_of_nonpos (sub_nonpos.2 hkx), abs_of_nonpos (sub_nonpos.2 hle)]
      linarith
    · obtain ⟨hxk, hkz⟩ := habove hle
      rw [abs_of_nonneg (sub_nonneg.2 hxk), abs_of_nonneg (sub_nonneg.2 hle)]
      linarith
  calc |toBits bits x - x|
      = |nearestEven (x / twoTo (exponent x - bits + 1)) - x / twoTo (exponent x - bits + 1)| *
          twoTo (exponent x - bits + 1) := by rw [toBits_eq hx, abs_sub_div_mul hunit]
    _ ≤ |k - x / twoTo (exponent x - bits + 1)| * twoTo (exponent x - bits + 1) :=
        mul_le_mul_of_nonneg_right (abs_nearestEven_sub_le _ k) hunit.le
    _ = |k * twoTo (exponent x - bits + 1) - x| := abs_sub_div_mul hunit k x
    _ ≤ |z - x| := hwhole

/-- Rounding is off by half a unit at most. -/
theorem abs_toBits_sub_le (bits : Nat) (x : Rat) : |toBits bits x - x| ≤ |x| / 2 ^ bits := by
  by_cases hx : x = 0
  · rw [hx, toBits_zero, sub_zero, abs_zero, zero_div]
  have hunit := twoTo_pos (exponent x - bits + 1)
  have hhalf : twoTo (exponent x) = 1 / 2 * twoTo (exponent x - bits + 1) * 2 ^ bits := by
    have hsum : exponent x = exponent x - bits + 1 + bits + -1 := by ring
    have hpower : twoTo bits = 2 ^ bits := by
      rw [twoTo_natCast]
      push_cast
      rfl
    have hminus : twoTo (-1) = 1 / 2 := rfl
    conv_lhs => rw [hsum, twoTo_add, twoTo_add, hpower, hminus]
    ring
  have hreach : twoTo (exponent x) ≤ |x| := (twoTo_le_abs_iff hx).2 le_rfl
  rw [toBits_eq hx, ← abs_sub_div_mul hunit, le_div_iff₀ (by positivity)]
  calc |nearestEven (x / twoTo (exponent x - bits + 1)) - x / twoTo (exponent x - bits + 1)| *
        twoTo (exponent x - bits + 1) * 2 ^ bits
      ≤ 1 / 2 * twoTo (exponent x - bits + 1) * 2 ^ bits := by
        gcongr
        exact abs_nearestEven_sub_le_half _
    _ ≤ |x| := hhalf.symm.trans_le hreach

namespace Nearest

/-- A nearest number is off by half a unit at most. -/
theorem abs_sub_le_div (h : Nearest bits x y) : |y - x| ≤ |x| / 2 ^ bits :=
  (h.abs_sub_le _ (fits_toBits bits x)).trans (abs_toBits_sub_le bits x)

/-- A number that fits is its own nearest. -/
theorem eq_of_fits (h : Nearest bits x y) (hx : Fits bits x) : y = x := by
  have hoff := h.abs_sub_le x hx
  rw [sub_self, abs_zero, abs_nonpos_iff] at hoff
  exact sub_eq_zero.1 hoff

/-- From above, a nearest number does not cross a number that fits. -/
theorem le_of_fits (h : Nearest bits x y) (hz : Fits bits z) (hle : z ≤ x) : z ≤ y := by
  have hoff := h.abs_sub_le z hz
  rw [abs_of_nonpos (sub_nonpos.2 hle)] at hoff
  have hdown : -(y - x) ≤ |y - x| := neg_le_abs _
  linarith

/-- From below, a nearest number does not cross a number that fits. -/
theorem ge_of_fits (h : Nearest bits x y) (hz : Fits bits z) (hle : x ≤ z) : y ≤ z := by
  have hoff := h.abs_sub_le z hz
  rw [abs_of_nonneg (sub_nonneg.2 hle)] at hoff
  have hup : y - x ≤ |y - x| := le_abs_self _
  linarith

end Nearest

/-! ## Double precision -/

theorem nearest_double (x : Rat) : Nearest 53 x (double x) := nearest_toBits (by decide) x

end Beacon.Precision
