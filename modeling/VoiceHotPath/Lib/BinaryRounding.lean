import Mathlib.Data.Int.Log
import Mathlib.Data.Rat.Floor
import Mathlib.Tactic.Linarith
import Mathlib.Tactic.Ring

/-!
# Rounding to binary floating point

The rational numbers of so many significant bits, and the nearest of them to any
rational.  The exponent has no bounds, so this is the arithmetic of a format as
long as nothing overflows and nothing is subnormal.
-/

namespace BinaryRounding

/-- The nearest integer, the even one of two. -/
def nearestEven (q : ℚ) : ℤ :=
  let rest := q - ⌊q⌋
  if rest < 1 / 2 ∨ rest = 1 / 2 ∧ ⌊q⌋ % 2 = 0 then ⌊q⌋ else ⌊q⌋ + 1

/-- What the last of the significant bits of a number is worth. -/
def lastPlace (bits : ℕ) (q : ℚ) : ℚ :=
  2 ^ (Int.log 2 |q| + 1 - bits)

/-- The nearest number of so many significant bits. -/
def nearest (bits : ℕ) (q : ℚ) : ℚ :=
  nearestEven (q / lastPlace bits q) * lastPlace bits q

/-- The nearest number of a double. -/
def binary64 (q : ℚ) : ℚ :=
  nearest 53 q

theorem abs_sub_nearestEven_le (q : ℚ) : |q - nearestEven q| ≤ 1 / 2 := by
  have below := Int.floor_le q
  have above := Int.lt_floor_add_one q
  unfold nearestEven
  dsimp only
  split
  · rename_i down
    rw [abs_of_nonneg (by linarith)]
    rcases down with less | ⟨half, -⟩
    · exact less.le
    · exact half.le
  · rename_i up
    have more : 1 / 2 ≤ q - ⌊q⌋ := not_lt.mp fun less => up (.inl less)
    rw [Int.cast_add, Int.cast_one, abs_of_nonpos (by linarith)]
    linarith

theorem nearestEven_nonneg {q : ℚ} (nonneg : 0 ≤ q) : 0 ≤ nearestEven q := by
  have floor : 0 ≤ ⌊q⌋ := Int.floor_nonneg.mpr nonneg
  unfold nearestEven
  dsimp only
  split <;> omega

theorem lastPlace_pos (bits : ℕ) (q : ℚ) : 0 < lastPlace bits q :=
  zpow_pos two_pos _

theorem nearest_nonneg (bits : ℕ) {q : ℚ} (nonneg : 0 ≤ q) : 0 ≤ nearest bits q := by
  have place := lastPlace_pos bits q
  exact mul_nonneg (Int.cast_nonneg (nearestEven_nonneg (div_nonneg nonneg place.le))) place.le

/-- Half of the last place is no more than the number shifted by all its bits. -/
theorem half_lastPlace_le (bits : ℕ) {q : ℚ} (nonzero : q ≠ 0) :
    lastPlace bits q / 2 ≤ |q| / 2 ^ bits := by
  have two : (2 : ℚ) ≠ 0 := two_ne_zero
  have leading : (2 : ℚ) ^ Int.log 2 |q| ≤ |q| :=
    Int.zpow_log_le_self Nat.one_lt_two (abs_pos.mpr nonzero)
  calc lastPlace bits q / 2 = 2 ^ Int.log 2 |q| / 2 ^ bits := by
        rw [lastPlace, zpow_sub₀ two, zpow_add_one₀ two, zpow_natCast]
        ring
    _ ≤ |q| / 2 ^ bits := div_le_div_of_nonneg_right leading (by positivity)

/-- The relative error of rounding. -/
theorem abs_sub_nearest_le (bits : ℕ) (q : ℚ) : |q - nearest bits q| ≤ |q| / 2 ^ bits := by
  by_cases zero : q = 0
  · have rounded : nearestEven 0 = 0 := by decide +kernel
    rw [zero, nearest, zero_div, rounded, Int.cast_zero, zero_mul, sub_zero, abs_zero, zero_div]
  · have place := lastPlace_pos bits q
    have near := abs_sub_nearestEven_le (q / lastPlace bits q)
    have scaled : q - nearest bits q =
        (q / lastPlace bits q - nearestEven (q / lastPlace bits q)) * lastPlace bits q := by
      rw [sub_mul, div_mul_cancel₀ q place.ne']
      rfl
    calc |q - nearest bits q|
          = |q / lastPlace bits q - nearestEven (q / lastPlace bits q)| * lastPlace bits q := by
          rw [scaled, abs_mul, abs_of_pos place]
      _ ≤ 1 / 2 * lastPlace bits q := mul_le_mul_of_nonneg_right near place.le
      _ = lastPlace bits q / 2 := by ring
      _ ≤ |q| / 2 ^ bits := half_lastPlace_le bits zero

end BinaryRounding
