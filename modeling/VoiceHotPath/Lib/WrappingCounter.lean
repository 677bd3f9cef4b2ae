import Mathlib.Data.Nat.ModEq
import Mathlib.Data.Nat.Notation

/-!
# Wrapping counters

A 64-bit counter that is only ever incremented stands for the number of its
increments.  As long as two such numbers are less than `2 ^ 64` apart, the
difference and the equality of the counters are those of the numbers; below its
last value a counter is its number.
-/

namespace WrappingCounter

/-- The counter that started at `start` after `n` increments. -/
def count (start : UInt64) (n : ℕ) : UInt64 :=
  start + UInt64.ofNat n

@[simp] theorem count_zero (start : UInt64) : count start 0 = start := by
  simp [count]

theorem count_succ (start : UInt64) (n : ℕ) : count start (n + 1) = count start n + 1 := by
  rw [count, count, UInt64.ofNat_add, UInt64.add_assoc]
  rfl

theorem toNat_count (start : UInt64) (n : ℕ) :
    (count start n).toNat = (start.toNat + n) % 2 ^ 64 := by
  rw [count, UInt64.toNat_add, UInt64.toNat_ofNat', Nat.add_mod_mod]

/-- The difference of two counters is the number of increments between them. -/
theorem toNat_count_sub (start : UInt64) {m n : ℕ} (order : m ≤ n) (near : n - m < 2 ^ 64) :
    (count start n - count start m).toNat = n - m := by
  have difference : count start n - count start m = UInt64.ofNat (n - m) := by
    have total : UInt64.ofNat n = UInt64.ofNat (n - m) + UInt64.ofNat m := by
      rw [← UInt64.ofNat_add, Nat.sub_add_cancel order]
    rw [count, count, total, UInt64.add_comm (UInt64.ofNat (n - m)), ← UInt64.add_assoc,
      UInt64.add_comm _ (UInt64.ofNat (n - m)), UInt64.add_sub_cancel]
  rw [difference, UInt64.toNat_ofNat', Nat.mod_eq_of_lt near]

theorem count_inj (start : UInt64) {m n : ℕ} (order : m ≤ n) (near : n - m < 2 ^ 64) :
    count start n = count start m ↔ n = m := by
  constructor
  · intro same
    have difference := toNat_count_sub start order near
    rw [same, UInt64.sub_self] at difference
    have zero : n - m = 0 := difference.symm
    omega
  · rintro rfl
    rfl

/-- Masking with a power of two below the width forgets the wrap. -/
theorem toNat_count_and (start mask : UInt64) (n : ℕ) {k : ℕ} (small : k ≤ 64)
    (power : mask.toNat = 2 ^ k - 1) :
    (count start n &&& mask).toNat = (start.toNat + n) % 2 ^ k := by
  rw [UInt64.toNat_and, power, Nat.and_two_pow_sub_one_eq_mod, toNat_count,
    Nat.mod_mod_of_dvd _ (Nat.pow_dvd_pow 2 small)]

/-! ## Counting below the wrap -/

/-- A counter that has not reached its last value counts one more. -/
theorem toNat_succ {n : UInt64} (room : n.toNat + 1 < 2 ^ 64) : (n + 1).toNat = n.toNat + 1 := by
  rw [UInt64.toNat_add]
  exact Nat.mod_eq_of_lt room

theorem toNat_succ32 {n : UInt32} (room : n.toNat + 1 < 2 ^ 32) :
    (n + 1).toNat = n.toNat + 1 := by
  rw [UInt32.toNat_add]
  exact Nat.mod_eq_of_lt room

/-- A counter below another one has not reached its last value. -/
theorem toNat_succ_of_lt {m n : UInt64} (below : m < n) : (m + 1).toNat = m.toNat + 1 :=
  toNat_succ (Nat.lt_of_le_of_lt (UInt64.lt_iff_toNat_lt.mp below) n.toNat_lt)

theorem toNat_succ32_of_lt {m n : UInt32} (below : m < n) : (m + 1).toNat = m.toNat + 1 :=
  toNat_succ32 (Nat.lt_of_le_of_lt (UInt32.lt_iff_toNat_lt.mp below) n.toNat_lt)

end WrappingCounter
