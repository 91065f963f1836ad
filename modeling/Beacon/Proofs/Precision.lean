import Beacon.Precision
import Mathlib.Data.Int.Log
import Mathlib.Data.Rat.Floor
import Mathlib.Tactic.Linarith
import Mathlib.Tactic.Ring

/-!
# What rounding keeps

Two facts carry everything that is said about sums in double precision. Rounding keeps the order of
numbers (`Precision.double_mono`), and it does not change a number that fits (`Precision.Fits`):
a whole number of at most `bits` bits times a power of two. What rounding gives always fits.
-/

namespace Beacon.Precision

variable {x y : Rat} {bits : Nat}

/-! ## Exponents -/

theorem twoTo_eq_zpow (e : Int) : twoTo e = (2 : Rat) ^ e := by
  unfold twoTo
  split
  · next he =>
    obtain ⟨n, rfl⟩ := Int.eq_ofNat_of_zero_le he
    simp
  · next he =>
    obtain ⟨n, rfl⟩ : ∃ n : Nat, e = -n := ⟨(-e).toNat, by omega⟩
    simp

@[simp] theorem twoTo_natCast (n : Nat) : twoTo n = (2 ^ n : Nat) := by
  simp [twoTo_eq_zpow]

theorem twoTo_pos (e : Int) : 0 < twoTo e := by
  rw [twoTo_eq_zpow]
  exact zpow_pos two_pos e

theorem twoTo_add (d e : Int) : twoTo (d + e) = twoTo d * twoTo e := by
  simp only [twoTo_eq_zpow]
  exact zpow_add₀ two_ne_zero d e

theorem twoTo_le_twoTo_iff {d e : Int} : twoTo d ≤ twoTo e ↔ d ≤ e := by
  simp only [twoTo_eq_zpow]
  exact zpow_le_zpow_iff_right₀ one_lt_two

/-- A multiple of a power of two is one of every lower power. -/
theorem exists_mul_twoTo {d e : Int} (h : d ≤ e) (n : Int) :
    ∃ k : Int, (n : Rat) * twoTo e = k * twoTo d := by
  obtain ⟨s, rfl⟩ := Int.le.dest h
  refine ⟨n * 2 ^ s, ?_⟩
  rw [twoTo_add, twoTo_natCast]
  push_cast
  ring

theorem twoTo_le_iff {e : Int} (hx : 0 < x) : twoTo e ≤ x ↔ e ≤ Int.log 2 x := by
  rw [twoTo_eq_zpow]
  exact_mod_cast Int.zpow_le_iff_le_log one_lt_two hx

theorem twoTo_log2_le {n : Nat} (hn : n ≠ 0) : twoTo (Nat.log2 n) ≤ n := by
  rw [twoTo_natCast]
  exact_mod_cast Nat.log2_self_le hn

theorem lt_twoTo_log2 (n : Nat) : (n : Rat) < twoTo (Nat.log2 n + 1) := by
  have hlt : n < 2 ^ (Nat.log2 n + 1) := Nat.lt_log2_self
  rw [← Nat.cast_succ, twoTo_natCast]
  exact_mod_cast hlt

/-- Counting the binary digits of numerator and denominator finds the exponent, or one too many. -/
theorem exponent_eq_log (hx : x ≠ 0) : exponent x = Int.log 2 |x| := by
  have hpos : 0 < |x| := abs_pos.2 hx
  have habs : (x.num.natAbs : Rat) / x.den = |x| := by
    conv_rhs => rw [← x.num_div_den]
    rw [abs_div, Nat.abs_cast, Nat.cast_natAbs, Int.cast_abs]
  have hnum : x.num.natAbs ≠ 0 := by simpa using hx
  have hden : (0 : Rat) < x.den := by exact_mod_cast x.den_pos
  -- the quotient lies between the quotients of the powers of two around its two parts
  have hbelow : (Nat.log2 x.num.natAbs : Int) - Nat.log2 x.den - 1 ≤ Int.log 2 |x| := by
    rw [← twoTo_le_iff hpos, ← habs, le_div_iff₀ hden]
    calc twoTo (Nat.log2 x.num.natAbs - Nat.log2 x.den - 1) * x.den
        ≤ twoTo (Nat.log2 x.num.natAbs - Nat.log2 x.den - 1) * twoTo (Nat.log2 x.den + 1) :=
          mul_le_mul_of_nonneg_left (lt_twoTo_log2 _).le (twoTo_pos _).le
      _ = twoTo (Nat.log2 x.num.natAbs) := by rw [← twoTo_add]; congr 1; ring
      _ ≤ x.num.natAbs := twoTo_log2_le hnum
  have habove : Int.log 2 |x| < (Nat.log2 x.num.natAbs : Int) - Nat.log2 x.den + 1 := by
    rw [← not_le, ← twoTo_le_iff hpos, not_le, ← habs, div_lt_iff₀ hden]
    calc (x.num.natAbs : Rat)
        < twoTo (Nat.log2 x.num.natAbs + 1) := lt_twoTo_log2 _
      _ = twoTo (Nat.log2 x.num.natAbs - Nat.log2 x.den + 1) * twoTo (Nat.log2 x.den) := by
          rw [← twoTo_add]; congr 1; ring
      _ ≤ twoTo (Nat.log2 x.num.natAbs - Nat.log2 x.den + 1) * x.den :=
          mul_le_mul_of_nonneg_left (twoTo_log2_le x.den_nz) (twoTo_pos _).le
  unfold exponent
  rw [habs]
  simp only [twoTo_le_iff hpos]
  split <;> omega

/-- The exponent of a number is the largest whose power of two it reaches. -/
theorem twoTo_le_abs_iff {e : Int} (hx : x ≠ 0) : twoTo e ≤ |x| ↔ e ≤ exponent x := by
  rw [exponent_eq_log hx]
  exact twoTo_le_iff (abs_pos.2 hx)

theorem abs_lt_twoTo (hx : x ≠ 0) : |x| < twoTo (exponent x + 1) := by
  rw [← not_le, twoTo_le_abs_iff hx]
  omega

theorem exponent_mono (hx : x ≠ 0) (h : |x| ≤ |y|) : exponent x ≤ exponent y := by
  have hy : y ≠ 0 := abs_pos.1 ((abs_pos.2 hx).trans_le h)
  rw [← twoTo_le_abs_iff hy]
  exact ((twoTo_le_abs_iff hx).2 le_rfl).trans h

/-- Where the exponent grows, a power of two is passed. -/
theorem abs_lt_twoTo_of_exponent_lt (hx : x ≠ 0) (h : exponent x < exponent y) :
    |x| < twoTo (exponent y) :=
  (abs_lt_twoTo hx).trans_le (twoTo_le_twoTo_iff.2 h)

/-! ## Nearest integers -/

theorem floor_le_nearestEven (x : Rat) : x.floor ≤ nearestEven x := by
  unfold nearestEven
  dsimp only
  split_ifs <;> omega

theorem nearestEven_le_floor_add_one (x : Rat) : nearestEven x ≤ x.floor + 1 := by
  unfold nearestEven
  dsimp only
  split_ifs <;> omega

@[simp] theorem nearestEven_intCast (n : Int) : nearestEven n = n := by
  simp [nearestEven]

theorem le_nearestEven {n : Int} (h : n ≤ x) : n ≤ nearestEven x :=
  (Rat.le_floor_iff.2 h).trans (floor_le_nearestEven x)

theorem nearestEven_le {n : Int} (h : x ≤ n) : nearestEven x ≤ n := by
  rcases h.eq_or_lt with rfl | hlt
  · rw [nearestEven_intCast]
  · have hfloor := Rat.floor_lt_iff.2 hlt
    have hup := nearestEven_le_floor_add_one x
    omega

/-- Two numbers with the same integer below them are told apart by what is above it; with different
ones, an integer lies between them. -/
theorem nearestEven_mono (h : x ≤ y) : nearestEven x ≤ nearestEven y := by
  have hfloor := Rat.floor_monotone h
  rcases hfloor.eq_or_lt with heq | hlt
  · have hpart : x - x.floor ≤ y - y.floor := by rw [heq]; linarith
    unfold nearestEven
    dsimp only
    rw [heq] at hpart ⊢
    split_ifs <;> first | omega | linarith
  · have hup := nearestEven_le_floor_add_one x
    have hdown := floor_le_nearestEven y
    omega

@[simp] theorem nearestUp_natCast (n : Nat) : nearestUp n = n := by
  have hn : ((n : Int) : Rat) = (n : Rat) := Int.cast_natCast n
  have hlow : (n : Int) ≤ nearestUp n := Rat.le_floor_iff.2 (by rw [hn]; linarith)
  have hhigh : nearestUp n < n + 1 := Rat.floor_lt_iff.2 (by push_cast; linarith)
  omega

/-! ## Numbers that fit -/

/-- A number with at most `bits` significant bits. -/
def Fits (bits : Nat) (x : Rat) : Prop := ∃ m e : Int, |m| ≤ 2 ^ bits ∧ x = m * twoTo e

theorem Fits.intCast {n : Int} (h : |n| ≤ 2 ^ bits) : Fits bits n := by
  refine ⟨n, 0, h, ?_⟩
  simp [twoTo_eq_zpow]

theorem Fits.natCast {n : Nat} (h : n ≤ 2 ^ bits) : Fits bits n := by
  have habs : |(n : Int)| ≤ 2 ^ bits := by
    rw [Nat.abs_cast]
    exact_mod_cast h
  exact_mod_cast Fits.intCast habs

theorem fits_zero : Fits bits 0 := by
  exact_mod_cast Fits.natCast (Nat.zero_le _)

theorem fits_twoTo (e : Int) : Fits bits (twoTo e) := by
  refine ⟨1, e, ?_, by simp⟩
  rw [abs_one]
  exact one_le_pow₀ one_le_two

theorem Fits.neg (h : Fits bits x) : Fits bits (-x) := by
  obtain ⟨m, e, hm, rfl⟩ := h
  exact ⟨-m, e, by rwa [abs_neg], by push_cast; ring⟩

/-- A number that fits is a whole number of the units that numbers of no larger exponent are
rounded to. -/
theorem Fits.exists_multiple (hbits : 0 < bits) (h : Fits bits x) (hx : x ≠ 0) {e : Int}
    (he : e ≤ exponent x) : ∃ k : Int, x = k * twoTo (e - bits + 1) := by
  obtain ⟨m, d, hm, rfl⟩ := h
  by_cases hlow : e - bits + 1 ≤ d
  · exact exists_mul_twoTo hlow m
  · -- then the whole number is the power of two that has one bit too many, so it is even
    have hsize : twoTo (exponent (m * twoTo d) - d) ≤ |(m : Rat)| := by
      have hreach := (twoTo_le_abs_iff hx).2 le_rfl
      have hsum : exponent (m * twoTo d) = exponent (m * twoTo d) - d + d := by ring
      rwa [abs_mul, abs_of_pos (twoTo_pos d), hsum, twoTo_add,
        mul_le_mul_iff_left₀ (twoTo_pos d)] at hreach
    have hlarge : twoTo bits ≤ |(m : Rat)| := (twoTo_le_twoTo_iff.2 (by omega)).trans hsize
    have hfull : |m| = 2 ^ bits := by
      refine le_antisymm hm ?_
      rw [twoTo_natCast] at hlarge
      exact_mod_cast hlarge
    have hexponent : exponent (m * twoTo d) - d ≤ bits := by
      rw [← twoTo_le_twoTo_iff, twoTo_natCast]
      refine hsize.trans ?_
      exact_mod_cast hm
    have heven : Even m := by
      rw [← even_abs, hfull]
      exact even_two.pow_of_ne_zero hbits.ne'
    obtain ⟨k, hk⟩ := heven
    have hhalf : (m : Rat) * twoTo d = k * twoTo (d + 1) := by
      have hone : twoTo 1 = 2 := rfl
      rw [hk, twoTo_add, hone]
      push_cast
      ring
    rw [hhalf]
    exact exists_mul_twoTo (by omega) k

/-! ## Rounding -/

theorem toBits_eq (hx : x ≠ 0) : toBits bits x =
    nearestEven (x / twoTo (exponent x - bits + 1)) * twoTo (exponent x - bits + 1) := by
  rw [toBits, if_neg hx]

@[simp] theorem toBits_zero : toBits bits 0 = 0 := by
  simp [toBits]

/-- Between a number that fits and another one lies a whole number of the units that the other one
is rounded to. -/
theorem Fits.exists_between (hbits : 0 < bits) (h : Fits bits y) (hx : x ≠ 0) :
    ∃ k : Int, (y ≤ x → y ≤ k * twoTo (exponent x - bits + 1) ∧
        k * twoTo (exponent x - bits + 1) ≤ x) ∧
      (x ≤ y → x ≤ k * twoTo (exponent x - bits + 1) ∧
        k * twoTo (exponent x - bits + 1) ≤ y) := by
  by_cases hy : y = 0
  · exact ⟨0, by simp [hy]⟩
  by_cases hlarge : exponent x ≤ exponent y
  · -- the number that fits is counted in these units itself
    obtain ⟨k, hk⟩ := h.exists_multiple hbits hy hlarge
    exact ⟨k, fun hle => ⟨hk.le, hk ▸ hle⟩, fun hle => ⟨hk ▸ hle, hk.ge⟩⟩
  · -- it is smaller than the power of two that the other number reaches
    have hsmall := abs_lt_twoTo_of_exponent_lt hy (not_le.1 hlarge)
    have hreach : twoTo (exponent x) ≤ |x| := (twoTo_le_abs_iff hx).2 le_rfl
    obtain ⟨k, hk⟩ := exists_mul_twoTo (by omega : exponent x - bits + 1 ≤ exponent x) 1
    rw [Int.cast_one, one_mul] at hk
    rw [abs_lt] at hsmall
    rcases hx.lt_or_gt with hneg | hpos
    · rw [abs_of_neg hneg] at hreach
      refine ⟨-k, ?_⟩
      rw [Int.cast_neg, neg_mul, ← hk]
      constructor <;> intro hle <;> constructor <;> linarith
    · rw [abs_of_pos hpos] at hreach
      refine ⟨k, ?_⟩
      rw [← hk]
      constructor <;> intro hle <;> constructor <;> linarith

/-- Rounding down does not cross a number that fits. -/
theorem Fits.le_toBits (hbits : 0 < bits) (h : Fits bits y) (hle : y ≤ x) : y ≤ toBits bits x := by
  by_cases hx : x = 0
  · rwa [hx, toBits_zero, ← hx]
  · obtain ⟨k, hbelow, -⟩ := h.exists_between hbits hx
    have hunit := twoTo_pos (exponent x - bits + 1)
    have hk := (le_div_iff₀ hunit).2 (hbelow hle).2
    rw [toBits_eq hx]
    refine (hbelow hle).1.trans (mul_le_mul_of_nonneg_right ?_ hunit.le)
    exact_mod_cast le_nearestEven hk

/-- Rounding up does not cross a number that fits. -/
theorem Fits.toBits_le (hbits : 0 < bits) (h : Fits bits y) (hle : x ≤ y) : toBits bits x ≤ y := by
  by_cases hx : x = 0
  · rwa [hx, toBits_zero, ← hx]
  · obtain ⟨k, -, habove⟩ := h.exists_between hbits hx
    have hunit := twoTo_pos (exponent x - bits + 1)
    have hk := (div_le_iff₀ hunit).2 (habove hle).1
    rw [toBits_eq hx]
    refine (mul_le_mul_of_nonneg_right ?_ hunit.le).trans (habove hle).2
    exact_mod_cast nearestEven_le hk

/-- A number that fits is not changed. -/
theorem Fits.toBits_eq (hbits : 0 < bits) (h : Fits bits x) : toBits bits x = x :=
  le_antisymm (h.toBits_le hbits le_rfl) (h.le_toBits hbits le_rfl)

/-- What rounding gives fits. -/
theorem fits_toBits (bits : Nat) (x : Rat) : Fits bits (toBits bits x) := by
  by_cases hx : x = 0
  · rw [hx, toBits_zero]
    exact fits_zero
  · have hunit := twoTo_pos (exponent x - bits + 1)
    have hquotient : |x / twoTo (exponent x - bits + 1)| ≤ ((2 ^ bits : Int) : Rat) := by
      rw [abs_div, abs_of_pos hunit, div_le_iff₀ hunit]
      refine (abs_lt_twoTo hx).le.trans_eq ?_
      have hsum : exponent x + 1 = bits + (exponent x - bits + 1) := by ring
      rw [hsum, twoTo_add, twoTo_natCast]
      push_cast
      rfl
    rw [Precision.toBits_eq hx]
    refine ⟨_, _, abs_le.2 ⟨le_nearestEven ?_, nearestEven_le (abs_le.1 hquotient).2⟩, rfl⟩
    rw [Int.cast_neg]
    exact (abs_le.1 hquotient).1

/-- Two numbers are of one size and one sign, or a number that fits lies between them. -/
theorem exponent_eq_or_exists_fits (bits : Nat) (h : x ≤ y) :
    x ≠ 0 ∧ y ≠ 0 ∧ exponent x = exponent y ∨ ∃ z, Fits bits z ∧ x ≤ z ∧ z ≤ y := by
  -- zero is between them; else they have one sign, and a power of two is between them unless their
  -- exponents are equal
  by_cases hzero : x ≤ 0 ∧ 0 ≤ y
  · exact .inr ⟨0, fits_zero, hzero⟩
  rcases lt_or_ge 0 x with hpos | hneg
  · have hy : 0 < y := hpos.trans_le h
    have habs : |x| ≤ |y| := by rwa [abs_of_pos hpos, abs_of_pos hy]
    rcases (exponent_mono hpos.ne' habs).eq_or_lt with heq | hlt
    · exact .inl ⟨hpos.ne', hy.ne', heq⟩
    · have hpassed := abs_lt_twoTo_of_exponent_lt hpos.ne' hlt
      have hreach := (twoTo_le_abs_iff hy.ne').2 le_rfl
      rw [abs_of_pos hpos] at hpassed
      rw [abs_of_pos hy] at hreach
      exact .inr ⟨_, fits_twoTo _, hpassed.le, hreach⟩
  · have hy : y < 0 := not_le.1 fun hle => hzero ⟨hneg, hle⟩
    have hx : x < 0 := h.trans_lt hy
    have habs : |y| ≤ |x| := by rw [abs_of_neg hx, abs_of_neg hy]; linarith
    rcases (exponent_mono hy.ne habs).eq_or_lt with heq | hlt
    · exact .inl ⟨hx.ne, hy.ne, heq.symm⟩
    · have hpassed := abs_lt_twoTo_of_exponent_lt hy.ne hlt
      have hreach := (twoTo_le_abs_iff hx.ne).2 le_rfl
      rw [abs_of_neg hy] at hpassed
      rw [abs_of_neg hx] at hreach
      exact .inr ⟨_, (fits_twoTo _).neg, by linarith, by linarith⟩

/-- Rounding keeps the order: two numbers of one size and one sign are counted in the same unit, and
otherwise a number that fits lies between them, which neither crosses. -/
theorem toBits_mono (hbits : 0 < bits) (h : x ≤ y) : toBits bits x ≤ toBits bits y := by
  rcases exponent_eq_or_exists_fits bits h with ⟨hx, hy, hexponent⟩ | ⟨z, hz, hxz, hzy⟩
  · have hunit := twoTo_pos (exponent y - bits + 1)
    rw [toBits_eq hx, toBits_eq hy, hexponent]
    refine mul_le_mul_of_nonneg_right ?_ hunit.le
    exact_mod_cast nearestEven_mono (div_le_div_of_nonneg_right h hunit.le)
  · exact (hz.toBits_le hbits hxz).trans (hz.le_toBits hbits hzy)

/-! ## Double precision -/

theorem double_mono (h : x ≤ y) : double x ≤ double y := toBits_mono (by decide) h

theorem double_of_fits (h : Fits 53 x) : double x = x := h.toBits_eq (by decide)

theorem fits_double (x : Rat) : Fits 53 (double x) := fits_toBits 53 x

@[simp] theorem double_zero : double 0 = 0 := toBits_zero

/-- Natural numbers of up to 53 bits are exact. -/
theorem double_natCast {n : Nat} (h : n ≤ 2 ^ 53) : double n = n := double_of_fits (.natCast h)

end Beacon.Precision
