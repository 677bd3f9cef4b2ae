import Mathlib.Data.Int.Bitwise

/-!
# Masked integers

A program that has only unbounded integers computes with machine words by
masking whatever may have grown beyond the width.  The rules below follow such
a program line by line: they say which word each of its integers stands for.
-/

namespace MaskedInt

variable {w : ℕ}

/-- The ones below a width, as a program computes them. -/
def mask (w : ℕ) : ℤ :=
  (1 : ℤ) <<< (w : ℤ) - 1

/-- An integer is the value of a word. -/
def StandsFor (z : ℤ) (x : BitVec w) : Prop :=
  z = x.toNat

theorem mask_eq (w : ℕ) : mask w = ((2 ^ w - 1 : ℕ) : ℤ) := by
  rw [mask, Int.one_shiftLeft, Int.ofNat_sub (Nat.one_le_two_pow), Int.natCast_one]

/-- Masking a natural number reduces it to the width. -/
theorem natCast_land_mask (n : ℕ) : Int.land n (mask w) = ((n % 2 ^ w : ℕ) : ℤ) := by
  rw [mask_eq, ← Nat.and_two_pow_sub_one_eq_mod]
  rfl

namespace StandsFor

variable {z z' : ℤ} {x y : BitVec w}

theorem nonneg (stands : StandsFor z x) : 0 ≤ z := by
  rw [stands]
  exact Int.natCast_nonneg _

theorem lt (stands : StandsFor z x) : z < 2 ^ w := by
  rw [stands]
  exact_mod_cast x.isLt

theorem eq_zero_iff (stands : StandsFor z x) : z = 0 ↔ x = 0#w := by
  rw [stands, Int.natCast_eq_zero, BitVec.toNat_eq, BitVec.toNat_zero]

theorem xor (left : StandsFor z x) (right : StandsFor z' y) :
    StandsFor (Int.xor z z') (x ^^^ y) := by
  rw [left, right, StandsFor, BitVec.toNat_xor]
  rfl

theorem shiftRight (stands : StandsFor z x) (shift : ℕ) :
    StandsFor (z >>> (shift : ℤ)) (x >>> shift) := by
  rw [stands, StandsFor, Int.shiftRight_natCast, BitVec.toNat_ushiftRight]

/-- A word is its own mask. -/
theorem masked (stands : StandsFor z x) : StandsFor (Int.land z (mask w)) x := by
  rw [stands, StandsFor, natCast_land_mask, Nat.mod_eq_of_lt x.isLt]

/-- The bits shifted out to the left are masked away. -/
theorem shiftLeft (stands : StandsFor z x) (shift : ℕ) :
    StandsFor (Int.land (z <<< (shift : ℤ)) (mask w)) (x <<< shift) := by
  rw [stands, StandsFor, Int.shiftLeft_natCast, natCast_land_mask, BitVec.toNat_shiftLeft]

/-- The carries of a product are masked away. -/
theorem mul (left : StandsFor z x) (right : StandsFor z' y) :
    StandsFor (Int.land (z * z') (mask w)) (x * y) := by
  rw [left, right, StandsFor, ← Int.natCast_mul, natCast_land_mask, BitVec.toNat_mul]

end StandsFor

end MaskedInt
