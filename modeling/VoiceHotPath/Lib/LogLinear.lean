import Mathlib.Algebra.Group.Nat.Defs
import Mathlib.Data.Nat.Log
import Mathlib.Order.GaloisConnection.Basic
import Mathlib.Order.Monotone.Basic

/-!
# Log-linear quantisation

The naturals are cut into intervals: `2 ^ (half + 1)` of them `2 ^ unit` wide,
then, octave after octave, `2 ^ half` of twice the width of those before.  The
index of a number is the last interval that begins at or below it.
-/

structure LogLinear where
  unit : Nat
  half : Nat

namespace LogLinear

variable (scale : LogLinear)

/-- The octave of an interval; the first two halves are one octave. -/
def octave (i : Nat) : Nat :=
  i / 2 ^ scale.half - 1

def width (i : Nat) : Nat :=
  2 ^ (scale.octave i + scale.unit)

/-- Where an interval begins. -/
def lower (i : Nat) : Nat :=
  (i - scale.octave i * 2 ^ scale.half) * scale.width i

/-- The octave of a number. -/
def octaveOf (v : Nat) : Nat :=
  Nat.log2 (v / 2 ^ (scale.unit + scale.half))

/-- The interval of a number. -/
def index (v : Nat) : Nat :=
  scale.octaveOf v * 2 ^ scale.half + v / 2 ^ (scale.octaveOf v + scale.unit)

theorem width_pos (i : Nat) : 0 < scale.width i :=
  Nat.two_pow_pos _

theorem octave_mul_le (i : Nat) : scale.octave i * 2 ^ scale.half ≤ i := by
  have whole := Nat.div_mul_le_self i (2 ^ scale.half)
  have less : scale.octave i * 2 ^ scale.half ≤ i / 2 ^ scale.half * 2 ^ scale.half :=
    Nat.mul_le_mul_right _ (Nat.sub_le _ _)
  exact Nat.le_trans less whole

/-! ## The intervals follow on one another -/

/-- The next interval is of the same octave, or the first of the next. -/
theorem octave_succ (i : Nat) :
    scale.octave (i + 1) = scale.octave i ∨
      scale.octave (i + 1) = scale.octave i + 1 ∧
        i + 1 = (scale.octave i + 2) * 2 ^ scale.half := by
  have positive := Nat.two_pow_pos scale.half
  unfold octave
  rw [Nat.succ_div]
  by_cases first : 2 ^ scale.half ∣ i + 1
  · rw [if_pos first]
    obtain ⟨q, exact_q⟩ := first
    have quotient : i / 2 ^ scale.half + 1 = q := by
      have divided := Nat.succ_div_of_dvd ⟨q, exact_q⟩
      rw [exact_q, Nat.mul_div_cancel_left _ positive] at divided
      exact divided.symm
    cases earlier : i / 2 ^ scale.half with
    | zero => exact .inl rfl
    | succ k =>
        right
        rw [earlier] at quotient
        refine ⟨rfl, ?_⟩
        rw [exact_q, ← quotient, Nat.mul_comm]
        rfl
  · rw [if_neg first]
    exact .inl rfl

theorem lower_succ (i : Nat) : scale.lower (i + 1) = scale.lower i + scale.width i := by
  have below := scale.octave_mul_le i
  unfold lower
  rcases scale.octave_succ i with same | ⟨next, full⟩
  · have width : scale.width (i + 1) = scale.width i := by
      unfold LogLinear.width
      rw [same]
    rw [width, same, Nat.succ_sub below, Nat.succ_mul]
  · have width : scale.width (i + 1) = 2 * scale.width i := by
      unfold LogLinear.width
      rw [next, Nat.add_right_comm, Nat.pow_succ']
    have begun : i + 1 - (scale.octave i + 1) * 2 ^ scale.half = 2 ^ scale.half := by
      rw [full, ← Nat.sub_mul]
      simp
    have ended : i - scale.octave i * 2 ^ scale.half + 1 = 2 ^ scale.half * 2 := by
      have last : i + 1 - scale.octave i * 2 ^ scale.half = 2 ^ scale.half * 2 := by
        rw [full, ← Nat.sub_mul, Nat.add_sub_cancel_left, Nat.mul_comm]
      omega
    rw [next, width, begun, ← Nat.mul_assoc, ← ended, Nat.succ_mul]

theorem strictMono_lower : StrictMono scale.lower :=
  strictMono_nat_of_lt_succ fun i => by
    rw [lower_succ]
    exact Nat.lt_add_of_pos_right (scale.width_pos i)

/-- The octaves begin at the powers of two. -/
theorem lower_octave (k : Nat) :
    scale.lower ((k + 2) * 2 ^ scale.half) = 2 ^ (scale.unit + scale.half + 1 + k) := by
  have positive := Nat.two_pow_pos scale.half
  have octave : scale.octave ((k + 2) * 2 ^ scale.half) = k + 1 := by
    unfold LogLinear.octave
    rw [Nat.mul_div_cancel _ positive]
    rfl
  have begun : (k + 2) * 2 ^ scale.half - (k + 1) * 2 ^ scale.half = 2 ^ scale.half := by
    rw [← Nat.sub_mul]
    simp
  rw [lower, width, octave, begun, ← Nat.pow_add]
  congr 1
  omega

/-- An interval of the first octave is `2 ^ unit` wide, a later one small beside its place. -/
theorem width_le (i : Nat) :
    scale.width i = 2 ^ scale.unit ∨ 2 ^ scale.half * scale.width i ≤ scale.lower i := by
  cases octave : scale.octave i with
  | zero =>
      left
      rw [width, octave, Nat.zero_add]
  | succ k =>
      right
      have positive := Nat.two_pow_pos scale.half
      have quotient : i / 2 ^ scale.half = k + 2 := by
        unfold LogLinear.octave at octave
        omega
      have enough : (k + 2) * 2 ^ scale.half ≤ i := by
        rw [← quotient]
        exact Nat.div_mul_le_self i _
      rw [lower, octave]
      apply Nat.mul_le_mul_right
      rw [Nat.add_mul] at enough
      rw [Nat.add_mul]
      omega

/-! ## The interval of a number -/

/-- Shifted down by its octave a number is below two halves, and from the second octave on
above one. -/
theorem shifted_bounds (v : Nat) :
    v / 2 ^ (scale.octaveOf v + scale.unit) < 2 ^ (scale.half + 1) ∧
      (scale.octaveOf v = 0 ∨ 2 ^ scale.half ≤ v / 2 ^ (scale.octaveOf v + scale.unit)) := by
  have split : v / 2 ^ (scale.octaveOf v + scale.unit) < 2 ^ (scale.half + 1) ↔
      v / 2 ^ (scale.unit + scale.half) < 2 ^ (scale.octaveOf v + 1) := by
    rw [Nat.div_lt_iff_lt_mul (Nat.two_pow_pos _), Nat.div_lt_iff_lt_mul (Nat.two_pow_pos _),
      ← Nat.pow_add, ← Nat.pow_add]
    have same : scale.half + 1 + (scale.octaveOf v + scale.unit) =
        scale.octaveOf v + 1 + (scale.unit + scale.half) := by omega
    rw [same]
  refine ⟨split.mpr Nat.lt_log2_self, ?_⟩
  by_cases small : v / 2 ^ (scale.unit + scale.half) = 0
  · left
    rw [octaveOf, small]
    rfl
  · right
    have leading := Nat.log2_self_le small
    rw [Nat.le_div_iff_mul_le (Nat.two_pow_pos _), ← Nat.pow_add] at leading ⊢
    have same : scale.half + (scale.octaveOf v + scale.unit) =
        Nat.log2 (v / 2 ^ (scale.unit + scale.half)) + (scale.unit + scale.half) := by
      rw [octaveOf]
      omega
    rw [same]
    exact leading

theorem octave_index (v : Nat) : scale.octave (scale.index v) = scale.octaveOf v := by
  have positive := Nat.two_pow_pos scale.half
  obtain ⟨most, least⟩ := scale.shifted_bounds v
  rw [Nat.pow_succ] at most
  unfold octave index
  rw [Nat.add_comm, Nat.add_mul_div_right _ _ positive]
  have quotient : v / 2 ^ (scale.octaveOf v + scale.unit) / 2 ^ scale.half ≤ 1 := by
    apply Nat.le_of_lt_succ
    rw [Nat.div_lt_iff_lt_mul positive]
    omega
  rcases least with first | half
  · rw [first] at quotient ⊢
    omega
  · have one := (Nat.one_le_div_iff positive).mpr half
    omega

/-- A number lies in its interval. -/
theorem index_bracket (v : Nat) :
    scale.lower (scale.index v) ≤ v ∧
      v < scale.lower (scale.index v) + scale.width (scale.index v) := by
  have offset : scale.index v - scale.octaveOf v * 2 ^ scale.half =
      v / 2 ^ (scale.octaveOf v + scale.unit) := Nat.add_sub_cancel_left _ _
  have positive := Nat.two_pow_pos (scale.octaveOf v + scale.unit)
  rw [lower, width, octave_index, offset]
  refine ⟨Nat.div_mul_le_self _ _, ?_⟩
  have division := Nat.div_add_mod' v (2 ^ (scale.octaveOf v + scale.unit))
  have rest := Nat.mod_lt v positive
  omega

/-- The index of a number is the last interval that begins at or below it. -/
theorem gc_lower_index : GaloisConnection scale.lower scale.index := by
  intro i v
  obtain ⟨above, below⟩ := scale.index_bracket v
  constructor
  · intro begun
    by_contra later
    have next := scale.strictMono_lower.monotone (Nat.succ_le_of_lt (Nat.not_le.mp later))
    rw [Nat.succ_eq_add_one, lower_succ] at next
    omega
  · intro earlier
    exact Nat.le_trans (scale.strictMono_lower.monotone earlier) above

theorem index_mono : Monotone scale.index :=
  scale.gc_lower_index.monotone_u

/-- An interval has the index of its beginning. -/
@[simp] theorem index_lower (i : Nat) : scale.index (scale.lower i) = i := by
  apply Nat.le_antisymm
  · exact scale.strictMono_lower.le_iff_le.mp (scale.index_bracket _).1
  · exact (scale.gc_lower_index i _).mp (Nat.le_refl _)

theorem index_lt_iff {i v : Nat} : scale.index v < i ↔ v < scale.lower i := by
  rw [← Nat.not_le, ← Nat.not_le, not_iff_not]
  exact (scale.gc_lower_index i v).symm

end LogLinear
