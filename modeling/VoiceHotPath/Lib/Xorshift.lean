import Mathlib.Logic.Function.Basic
import Mathlib.Data.Nat.Notation

/-!
# Xorshift steps

A xorshift step folds a word onto itself three times, to the right, to the left
and to the right again.  Each fold is linear for exclusive or and keeps only
zero at zero, so that a step is injective on the words of any width.
-/

namespace Xorshift

variable {w : ℕ}

/-- A word folded onto itself to the right. -/
def foldRight (shift : ℕ) (x : BitVec w) : BitVec w :=
  x ^^^ x >>> shift

/-- A word folded onto itself to the left. -/
def foldLeft (shift : ℕ) (x : BitVec w) : BitVec w :=
  x ^^^ x <<< shift

/-- The shifts of a step; a fold by nothing would clear the word. -/
structure Shifts where
  first : ℕ
  second : ℕ
  third : ℕ
  first_pos : 0 < first
  second_pos : 0 < second
  third_pos : 0 < third

/-- One step of a xorshift generator. -/
def step (shifts : Shifts) (x : BitVec w) : BitVec w :=
  foldRight shifts.third (foldLeft shifts.second (foldRight shifts.first x))

/-! ## Linear maps -/

/-- A map of words that is linear for exclusive or. -/
def Linear (f : BitVec w → BitVec w) : Prop :=
  ∀ x y, f (x ^^^ y) = f x ^^^ f y

theorem linear_foldRight (shift : ℕ) : Linear (foldRight shift : BitVec w → BitVec w) := by
  intro x y
  unfold foldRight
  rw [BitVec.ushiftRight_xor_distrib]
  ac_rfl

theorem linear_foldLeft (shift : ℕ) : Linear (foldLeft shift : BitVec w → BitVec w) := by
  intro x y
  unfold foldLeft
  rw [BitVec.shiftLeft_xor_distrib]
  ac_rfl

/-- A linear map that sends only zero to zero is injective. -/
theorem Linear.injective {f : BitVec w → BitVec w} (linear : Linear f)
    (kernel : ∀ x, f x = 0#w → x = 0#w) : Function.Injective f := by
  intro x y same
  have vanishes : f (x ^^^ y) = 0#w := by
    rw [linear, same, BitVec.xor_self]
  exact BitVec.xor_eq_zero_iff.mp (kernel (x ^^^ y) vanishes)

/-! ## The folds -/

/-- A word that a shift to the right leaves alone has no bits. -/
theorem eq_zero_of_ushiftRight {shift : ℕ} (pos : 0 < shift) {x : BitVec w}
    (same : x = x >>> shift) : x = 0#w := by
  have divided : x.toNat = x.toNat / 2 ^ shift := by
    have values := congrArg BitVec.toNat same
    rwa [BitVec.toNat_ushiftRight, Nat.shiftRight_eq_div_pow] at values
  apply BitVec.eq_of_toNat_eq
  rw [BitVec.toNat_zero]
  rcases Nat.eq_zero_or_pos x.toNat with none | some
  · exact none
  · have smaller := Nat.div_lt_self some (Nat.one_lt_two_pow (Nat.ne_of_gt pos))
    omega

/-- A word that a shift to the left leaves alone has no bits: each bit is a lower one. -/
theorem eq_zero_of_shiftLeft {shift : ℕ} (pos : 0 < shift) {x : BitVec w}
    (same : x = x <<< shift) : x = 0#w := by
  have clear : ∀ i, x.getLsbD i = false := by
    intro i
    induction i using Nat.strongRecOn with
    | ind i ih =>
        rw [same, BitVec.getLsbD_shiftLeft]
        by_cases low : i < shift
        · simp [low]
        · simp [ih (i - shift) (by omega)]
  apply BitVec.eq_of_getLsbD_eq
  intro i _
  rw [clear i, BitVec.getLsbD_zero]

theorem foldRight_injective {shift : ℕ} (pos : 0 < shift) :
    Function.Injective (foldRight shift : BitVec w → BitVec w) :=
  (linear_foldRight shift).injective fun _ vanishes =>
    eq_zero_of_ushiftRight pos (BitVec.xor_eq_zero_iff.mp vanishes)

theorem foldLeft_injective {shift : ℕ} (pos : 0 < shift) :
    Function.Injective (foldLeft shift : BitVec w → BitVec w) :=
  (linear_foldLeft shift).injective fun _ vanishes =>
    eq_zero_of_shiftLeft pos (BitVec.xor_eq_zero_iff.mp vanishes)

/-! ## A step -/

/-- No two words step to the same word. -/
theorem step_injective (shifts : Shifts) :
    Function.Injective (step shifts : BitVec w → BitVec w) :=
  ((foldRight_injective shifts.third_pos).comp (foldLeft_injective shifts.second_pos)).comp
    (foldRight_injective shifts.first_pos)

@[simp] theorem step_zero (shifts : Shifts) : step shifts 0#w = 0#w := by
  simp [step, foldRight, foldLeft]

/-- Zero is stepped to from itself only. -/
theorem step_eq_zero_iff (shifts : Shifts) {x : BitVec w} : step shifts x = 0#w ↔ x = 0#w := by
  constructor
  · intro vanishes
    exact step_injective shifts (vanishes.trans (step_zero shifts).symm)
  · rintro rfl
    exact step_zero shifts

end Xorshift
