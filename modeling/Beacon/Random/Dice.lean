import Beacon.Random.ChaCha

/-!
# Jitter

A source of jitter answers with any integer in `[-bound, bound)`. A generator does so without bias:
a word is scaled to the range by a multiplication of 64 bits, and refused when it lies in the part
of the words that does not divide evenly.
-/

namespace Beacon.Random

/-- A source of jitter: `roll bound` is an integer in `[-bound, bound)`. -/
class Dice (γ : Type) where
  roll : Nat → γ → Int × γ
  roll_bounds (bound : Nat) (g : γ) :
    0 < bound → -(bound : Int) ≤ (roll bound g).1 ∧ (roll bound g).1 < bound

namespace Generator

/-- The largest low half of a product that is taken: `size` moved up until its highest bit is the
highest of a word, less one. -/
def zone (size : Nat) : Nat := (size <<< (31 - Nat.log2 size)) - 1

/-- How often a word may be refused. More than half of all words are taken, so the limit is not
met. -/
def patience : Nat := 4096

/-- A number below `size`: the high half of `word * size`, for the first word whose low half lies in
the zone. -/
def below (size : Nat) : Nat → Generator → Nat × Generator
  | 0, g =>
    let (w, g) := g.word
    (w.toNat * size / UInt32.size, g)
  | tries + 1, g =>
    let (w, g) := g.word
    if w.toNat * size % UInt32.size ≤ zone size then (w.toNat * size / UInt32.size, g)
    else below size tries g

theorem below_lt {size : Nat} (h : 0 < size) (tries : Nat) (g : Generator) :
    (below size tries g).1 < size := by
  have scaled (w : UInt32) : w.toNat * size / UInt32.size < size := by
    rw [Nat.div_lt_iff_lt_mul (by decide), Nat.mul_comm size]
    exact Nat.mul_lt_mul_of_pos_right w.toNat_lt h
  induction tries generalizing g with
  | zero => exact scaled _
  | succ tries ih =>
    unfold below
    dsimp only
    split
    · exact scaled _
    · exact ih _

end Generator

/-- A generator rolls by drawing a number below twice the bound. -/
instance : Dice Generator where
  roll bound g :=
    let (n, g) := g.below (2 * bound) Generator.patience
    ((n : Int) - bound, g)
  roll_bounds bound g h := by
    have := @Generator.below_lt (2 * bound) (by omega) Generator.patience g
    dsimp only
    omega

end Beacon.Random
