import Mathlib.Data.UInt
import VoiceHotPath.Lib.Generator
import VoiceHotPath.Lib.MaskedInt
import VoiceHotPath.Lib.Xorshift

/-!
# The random stream

The load generator shapes its noise with a xorshift64* on wrapping words.  The
golden vector is synthesised by a script that has only unbounded integers, and
replayed by a test with a generator of its own.
-/

namespace VoiceHotPath

/-! ## The load generator -/

/-- `Rng` of the load generator. -/
structure Rng where
  state : UInt64
  deriving DecidableEq, Repr

namespace Rng

/-- `Rng::Rng`; a seed of its own stands in for zero. -/
def make (seed : UInt64) : Rng :=
  ⟨if seed ≠ 0 then seed else 0x9E3779B97F4A7C15⟩

/-- `Rng::next`. -/
def next (rng : Rng) : UInt64 × Rng :=
  let state := rng.state ^^^ rng.state >>> 12
  let state := state ^^^ state <<< 25
  let state := state ^^^ state >>> 27
  (state * 0x2545F4914F6CDD1D, ⟨state⟩)

/-- The generator after a number of draws. -/
def after (rng : Rng) (n : ℕ) : Rng :=
  Generator.after Rng.next rng n

/-- The output drawn after `n` others. -/
def output (rng : Rng) (n : ℕ) : UInt64 :=
  Generator.output Rng.next rng n

end Rng

/-! ## The generator of the golden vector -/

namespace GenVadReference

/-- `MASK64`. -/
def mask64 : ℤ :=
  (1 : ℤ) <<< (64 : ℤ) - 1

/-- `Rng` of the script; its state is an unbounded integer. -/
structure Rng where
  state : ℤ
  deriving DecidableEq, Repr

namespace Rng

/-- The constructor of `Rng`. -/
def make (seed : ℤ) : Rng :=
  ⟨if seed = 0 then 0x9e3779b97f4a7c15 else seed⟩

/-- `next`. -/
def next (rng : Rng) : ℤ × Rng :=
  let s := rng.state
  let s := Int.xor s (s >>> (12 : ℤ))
  let s := Int.land s mask64
  let s := Int.xor s (Int.land (s <<< (25 : ℤ)) mask64)
  let s := Int.xor s (s >>> (27 : ℤ))
  (Int.land (s * 0x2545f4914f6cdd1d) mask64, ⟨s⟩)

/-- The generator after a number of draws. -/
def after (rng : Rng) (n : ℕ) : Rng :=
  Generator.after Rng.next rng n

/-- The output drawn after `n` others. -/
def output (rng : Rng) (n : ℕ) : ℤ :=
  Generator.output Rng.next rng n

end Rng

end GenVadReference

/-! ## Zero is never reached -/

namespace Rng

/-- The shifts of xorshift64*. -/
def shifts : Xorshift.Shifts :=
  ⟨12, 25, 27, by decide, by decide, by decide⟩

theorem toBitVec_next (rng : Rng) :
    rng.next.2.state.toBitVec = Xorshift.step shifts rng.state.toBitVec :=
  rfl

/-- Step lemma: only the zero state steps to the zero state. -/
theorem next_ne_zero {rng : Rng} (nonzero : rng.state ≠ 0) : rng.next.2.state ≠ 0 := by
  intro vanishes
  have stepped : Xorshift.step shifts rng.state.toBitVec = 0#64 := by
    rw [← toBitVec_next, vanishes]
    rfl
  apply nonzero
  exact UInt64.toBitVec_inj.mp ((Xorshift.step_eq_zero_iff shifts).mp stepped)

/-- Run lemma: a generator that does not start at zero never gets there. -/
theorem after_ne_zero {rng : Rng} (nonzero : rng.state ≠ 0) (n : ℕ) :
    (rng.after n).state ≠ 0 :=
  Generator.after_invariant Rng.next (fun rng => rng.state ≠ 0) (fun _ => next_ne_zero) nonzero n

theorem make_ne_zero (seed : UInt64) : (make seed).state ≠ 0 := by
  unfold make
  split
  · assumption
  · decide

theorem toBitVec_injective : Function.Injective fun rng : Rng => rng.state.toBitVec := by
  intro rng other same
  cases rng
  cases other
  exact congrArg Rng.mk (UInt64.toBitVec_inj.mp same)

/-- A draw permutes the `2 ^ 64` states. -/
theorem next_bijective : Function.Bijective fun rng : Rng => rng.next.2 := by
  have finite : Finite Rng := .of_injective _ (BitVec.toFin_injective.comp toBitVec_injective)
  apply Function.Injective.bijective_of_finite
  intro rng other same
  have stepped := congrArg (fun rng : Rng => rng.state.toBitVec) same
  exact toBitVec_injective (Xorshift.step_injective shifts stepped)

end Rng

/-! ## The two streams -/

namespace GenVadReference.Rng

open MaskedInt

/-- The script's generator holds the value of the load generator's word. -/
def Mirrors (script : Rng) (loader : VoiceHotPath.Rng) : Prop :=
  StandsFor script.state loader.state.toBitVec

/-- The two constructors agree on every seed. -/
theorem mirrors_make (seed : UInt64) :
    Mirrors (make (seed.toNat : ℤ)) (VoiceHotPath.Rng.make seed) := by
  by_cases zero : seed = 0
  · subst zero
    rfl
  · have nonzero : (seed.toNat : ℤ) ≠ 0 := by
      intro vanishes
      exact zero (UInt64.toNat_inj.mp (Int.ofNat_eq_zero.mp vanishes))
    simp only [Mirrors, make, VoiceHotPath.Rng.make, if_neg nonzero, if_pos zero]
    rfl

/-- Step lemma: line by line, the script computes the load generator's words. -/
theorem Mirrors.next {script : Rng} {loader : VoiceHotPath.Rng} (mirrors : Mirrors script loader) :
    script.next.1 = loader.next.1.toNat ∧ Mirrors script.next.2 loader.next.2 := by
  have first := (mirrors.xor (mirrors.shiftRight 12)).masked
  have second := first.xor (first.shiftLeft 25)
  have third := second.xor (second.shiftRight 27)
  have factor : StandsFor 0x2545f4914f6cdd1d (0x2545F4914F6CDD1D#64) := rfl
  exact ⟨third.mul factor, third⟩

/-- Run lemma: the generators mirror each other through any number of draws. -/
theorem Mirrors.draws {script : Rng} {loader : VoiceHotPath.Rng} (mirrors : Mirrors script loader)
    (n : ℕ) :
    script.output n = (loader.output n).toNat ∧ Mirrors (script.after n) (loader.after n) :=
  Generator.output_simulation Rng.next VoiceHotPath.Rng.next Mirrors
    (fun drawn word => drawn = word.toNat) (fun _ _ => Mirrors.next) mirrors n

/--
From the same seed the script and the load generator draw the same stream.  The
script's state stays within 64 bits, and neither state ever becomes zero.
-/
theorem streams_agree (seed : UInt64) (n : ℕ) :
    (make seed.toNat).output n = ((VoiceHotPath.Rng.make seed).output n).toNat ∧
      0 < ((make seed.toNat).after n).state ∧ ((make seed.toNat).after n).state < 2 ^ 64 ∧
      ((VoiceHotPath.Rng.make seed).after n).state ≠ 0 := by
  obtain ⟨same, mirrors⟩ := (mirrors_make seed).draws n
  have nonzero := VoiceHotPath.Rng.after_ne_zero (VoiceHotPath.Rng.make_ne_zero seed) n
  have positive : ((make seed.toNat).after n).state ≠ 0 := by
    intro vanishes
    exact nonzero (UInt64.toBitVec_inj.mp (mirrors.eq_zero_iff.mp vanishes))
  exact ⟨same, lt_of_le_of_ne mirrors.nonneg positive.symm, mirrors.lt, nonzero⟩

end GenVadReference.Rng

/-! ## The generator of the parity test -/

/-- `Rng::Rng` of the parity test, whose `next` is the load generator's; it takes any seed. -/
def TestVadParity.make (seed : UInt64) : Rng :=
  ⟨seed⟩

/-- The test replays the load generator's stream exactly for the seeds other than zero. -/
theorem TestVadParity.output_eq_iff (seed : UInt64) :
    (∀ n, (make seed).output n = (Rng.make seed).output n) ↔ seed ≠ 0 := by
  constructor
  · rintro same rfl
    exact absurd (same 0) (by decide)
  · intro nonzero n
    rw [make, Rng.make, if_pos nonzero]

end VoiceHotPath
