import Mathlib.Tactic.NormNum
import Mathlib.Tactic.Ring
import VoiceHotPath.Histogram.Layout

/-!
# The bucket index is a quantiser

On the 64-bit words, the index and the value of a bucket are those of a
log-linear quantiser on the naturals; no sum or shift of theirs loses a bit.
-/

namespace VoiceHotPath

/-! ## Words -/

theorem toNat_shiftCount {k : Nat} (small : k < 64) : (shiftCount k).toNat % 64 = k := by
  have nat : (shiftCount k).toNat = k := by
    rw [shiftCount, UInt64.ofInt, UInt64.toNat_ofNat']
    omega
  rw [nat]
  exact Nat.mod_eq_of_lt small

theorem toNat_shiftLeft_count (x : UInt64) {k : Nat} (small : k < 64) :
    (x <<< shiftCount k).toNat = x.toNat * 2 ^ k % 2 ^ 64 := by
  rw [UInt64.toNat_shiftLeft, toNat_shiftCount small, Nat.shiftLeft_eq]

theorem toNat_shiftRight_count (x : UInt64) {k : Nat} (small : k < 64) :
    (x >>> shiftCount k).toNat = x.toNat / 2 ^ k := by
  rw [UInt64.toNat_shiftRight, toNat_shiftCount small, Nat.shiftRight_eq_div_pow]

theorem toInt_toInt64 {x : UInt64} (small : x.toNat < 2 ^ 63) : x.toInt64.toInt = x.toNat := by
  change x.toBitVec.toInt = _
  rw [BitVec.toInt_eq_toNat_cond, if_pos (by change 2 * x.toNat < 2 ^ 64; omega)]
  rfl

/-- A difference that wraps, and a sum that wraps back. -/
theorem add_wrapping_sub {b s h : Nat} (small : h ≤ 2 ^ 63) (fits : b + s < 2 ^ 64) :
    ((b + h) % 2 ^ 64 + (2 ^ 64 - h + s) % 2 ^ 64) % 2 ^ 64 = b + s := by
  omega

theorem clzll_of_log2 {x : UInt64} {k : Nat} (leading : x.toNat.log2 = k) : clzll x = 63 - k := by
  rw [clzll, leading]

namespace BucketLayout

/-- The layout computes the intervals of the scale, whose first octave is a word. -/
structure Scaled (layout : BucketLayout) (scale : LogLinear) : Prop where
  narrow : scale.unit + scale.half + 1 ≤ 63
  subBucketCount : layout.subBucketCount.toNat = 2 ^ (scale.half + 1)
  subBucketHalfCount : layout.subBucketHalfCount.toNat = 2 ^ scale.half
  subBucketMask : layout.subBucketMask.toNat = (2 ^ (scale.half + 1) - 1) * 2 ^ scale.unit
  subBucketHalfMagnitude : layout.subBucketHalfMagnitude = scale.half
  unitMagnitude : layout.unitMagnitude = scale.unit
  leadingZeroBase : layout.leadingZeroBase = 63 - (scale.unit + scale.half : Nat)

variable {layout : BucketLayout} {scale : LogLinear}

/-! ## The index of a value -/

theorem Scaled.mask_bounds (scaled : layout.Scaled scale) :
    2 ^ (scale.unit + scale.half) ≤ layout.subBucketMask.toNat ∧
      layout.subBucketMask.toNat < 2 ^ (scale.unit + scale.half + 1) := by
  have unit := Nat.two_pow_pos scale.unit
  have half := Nat.two_pow_pos scale.half
  have low : 2 ^ scale.half ≤ 2 ^ (scale.half + 1) - 1 := by
    rw [Nat.pow_succ]
    omega
  have high : 2 ^ (scale.half + 1) - 1 < 2 ^ (scale.half + 1) :=
    Nat.sub_lt (Nat.two_pow_pos _) Nat.one_pos
  have same : scale.unit + scale.half + 1 = scale.half + 1 + scale.unit := by omega
  rw [scaled.subBucketMask, same, Nat.pow_add, Nat.pow_add 2 (scale.half + 1), Nat.mul_comm]
  exact ⟨Nat.mul_le_mul_right _ low, Nat.mul_lt_mul_of_pos_right high unit⟩

/-- The leading bit of a value, once the mask has filled the first octave. -/
theorem Scaled.log2_masked (scaled : layout.Scaled scale) (value : UInt64) :
    (value ||| layout.subBucketMask).toNat.log2 =
      scale.octaveOf value.toNat + (scale.unit + scale.half) := by
  obtain ⟨low, high⟩ := scaled.mask_bounds
  have positive := Nat.two_pow_pos (scale.unit + scale.half)
  have masked := Nat.right_le_or (n := value.toNat) (m := layout.subBucketMask.toNat)
  have kept := Nat.left_le_or (n := value.toNat) (m := layout.subBucketMask.toNat)
  rw [UInt64.toNat_or, Nat.log2_eq_iff (by omega)]
  constructor
  · by_cases small : value.toNat / 2 ^ (scale.unit + scale.half) = 0
    · rw [LogLinear.octaveOf, small]
      exact Nat.le_trans (by simp) (Nat.le_trans low masked)
    · have leading := Nat.log2_self_le small
      rw [Nat.le_div_iff_mul_le positive, ← Nat.pow_add] at leading
      exact Nat.le_trans leading kept
  · have leading := Nat.lt_log2_self (n := value.toNat / 2 ^ (scale.unit + scale.half))
    rw [Nat.div_lt_iff_lt_mul positive, ← Nat.pow_add] at leading
    have same : scale.octaveOf value.toNat + (scale.unit + scale.half) + 1 =
        scale.octaveOf value.toNat + 1 + (scale.unit + scale.half) := by omega
    rw [same]
    apply Nat.or_lt_two_pow leading
    exact Nat.lt_of_lt_of_le high (Nat.pow_le_pow_right Nat.two_pos (by omega))

/-- The octaves of the 64-bit words. -/
theorem Scaled.octaveOf_le (scaled : layout.Scaled scale) (value : UInt64) :
    scale.octaveOf value.toNat + (scale.unit + scale.half) ≤ 63 := by
  rw [← scaled.log2_masked]
  by_cases zero : (value ||| layout.subBucketMask).toNat = 0
  · rw [zero]
    decide
  · apply Nat.le_of_lt_succ
    exact (Nat.log2_lt zero).mpr (UInt64.toNat_lt _)

theorem Scaled.bucketIndex_eq (scaled : layout.Scaled scale) (value : UInt64) :
    layout.bucketIndex value = scale.octaveOf value.toNat := by
  have octave := scaled.octaveOf_le value
  rw [bucketIndex, scaled.leadingZeroBase, clzll_of_log2 (scaled.log2_masked value)]
  omega

/-- The intervals up to an octave that begins at a word are fewer than the words. -/
theorem Scaled.octaves_lt (scaled : layout.Scaled scale) {n : Nat}
    (inside : scale.unit + scale.half + 1 + n ≤ 64) : (n + 2) * 2 ^ scale.half < 2 ^ 64 := by
  have narrow := scaled.narrow
  cases n with
  | zero =>
      rw [Nat.zero_add, ← Nat.pow_succ']
      exact Nat.pow_lt_pow_right Nat.one_lt_two (by omega)
  | succ n =>
      have octaves : n + 1 < 2 ^ (n + 1) := Nat.lt_two_pow_self
      have fewer : n + 1 + 2 < 2 ^ (n + 2) := by
        rw [Nat.pow_succ]
        omega
      have split : 2 ^ (n + 2 + scale.half) ≤ 2 ^ 64 :=
        Nat.pow_le_pow_right Nat.two_pos (by omega)
      rw [Nat.pow_add] at split
      exact Nat.lt_of_lt_of_le (Nat.mul_lt_mul_of_pos_right fewer (Nat.two_pow_pos _)) split

/-- Every index fits in a word. -/
theorem Scaled.index_lt (scaled : layout.Scaled scale) (value : UInt64) :
    scale.index value.toNat < 2 ^ 64 := by
  have narrow := scaled.narrow
  obtain ⟨k, whole⟩ : ∃ k, scale.unit + scale.half + 1 + k = 64 := ⟨63 - (scale.unit + scale.half),
    by omega⟩
  have most := UInt64.toNat_lt value
  rw [← whole, ← scale.lower_octave, ← scale.index_lt_iff] at most
  exact Nat.lt_trans most (scaled.octaves_lt (Nat.le_of_eq whole))

theorem Scaled.toNat_countsIndex (scaled : layout.Scaled scale) (value : UInt64) :
    (layout.countsIndex value).toNat = scale.index value.toNat := by
  have narrow := scaled.narrow
  have octave := scaled.octaveOf_le value
  have fits := scaled.index_lt value
  have half := Nat.two_pow_pos scale.half
  have word : 2 ^ scale.half ≤ 2 ^ 63 := Nat.pow_le_pow_right Nat.two_pos (by omega)
  have shift : shiftCount (layout.bucketIndex value + layout.unitMagnitude) =
      shiftCount (scale.octaveOf value.toNat + scale.unit : Nat) := by
    rw [scaled.bucketIndex_eq, scaled.unitMagnitude, Nat.cast_add]
  have bucket : (UInt64.ofInt (layout.bucketIndex value) + 1).toNat =
      scale.octaveOf value.toNat + 1 := by
    rw [scaled.bucketIndex_eq, UInt64.toNat_add, UInt64.ofInt, UInt64.toNat_ofNat']
    have one : (1 : UInt64).toNat = 1 := rfl
    omega
  rw [countsIndex, shift, UInt64.toNat_add, UInt64.toNat_sub, scaled.subBucketHalfCount,
    toNat_shiftRight_count _ (by omega), scaled.subBucketHalfMagnitude,
    toNat_shiftLeft_count _ (by omega), bucket, Nat.add_mul, Nat.one_mul]
  rw [LogLinear.index] at fits ⊢
  exact add_wrapping_sub word fits

/-- The index does not decrease. -/
theorem Scaled.countsIndex_mono (scaled : layout.Scaled scale) {v w : UInt64} (le : v ≤ w) :
    layout.countsIndex v ≤ layout.countsIndex w := by
  rw [UInt64.le_iff_toNat_le, scaled.toNat_countsIndex, scaled.toNat_countsIndex]
  exact scale.index_mono (UInt64.le_iff_toNat_le.mp le)

/-! ## The value of an index -/

/-- An interval that begins at a word has no more octaves than there are bits. -/
theorem Scaled.octave_of_lower_lt (scaled : layout.Scaled scale) {i : Nat}
    (word : scale.lower i < 2 ^ 64) : scale.octave i + (scale.unit + scale.half) ≤ 63 := by
  have here := scaled.octaveOf_le (UInt64.ofNat (scale.lower i))
  rw [UInt64.toNat_ofNat_of_lt' word, ← scale.octave_index, scale.index_lower] at here
  exact here

theorem Scaled.toNat_valueFromIndex (scaled : layout.Scaled scale) {index : UInt64}
    (word : scale.lower index.toNat < 2 ^ 64) :
    (layout.valueFromIndex index).toNat = scale.lower index.toNat := by
  have narrow := scaled.narrow
  have octave := scaled.octave_of_lower_lt word
  have half := Nat.two_pow_pos scale.half
  have halfWord : 2 ^ scale.half ≤ 2 ^ 62 := Nat.pow_le_pow_right Nat.two_pos (by omega)
  have most := UInt64.toNat_lt index
  have quotient : (index >>> shiftCount layout.subBucketHalfMagnitude).toNat =
      index.toNat / 2 ^ scale.half := by
    rw [scaled.subBucketHalfMagnitude, toNat_shiftRight_count _ (by omega)]
  have bucket : (index >>> shiftCount layout.subBucketHalfMagnitude).toInt64.toInt =
      (index.toNat / 2 ^ scale.half : Nat) := by
    rw [LogLinear.octave] at octave
    rw [toInt_toInt64 (by omega), quotient]
  have one : (1 : UInt64).toNat = 1 := rfl
  have low : (index &&& (layout.subBucketHalfCount - 1)).toNat = index.toNat % 2 ^ scale.half := by
    have mask : (layout.subBucketHalfCount - 1).toNat = 2 ^ scale.half - 1 := by
      rw [UInt64.toNat_sub_of_le, scaled.subBucketHalfCount, one]
      rw [UInt64.le_iff_toNat_le, scaled.subBucketHalfCount]
      exact half
    rw [UInt64.toNat_and, mask, Nat.and_two_pow_sub_one_eq_mod]
  have rest := Nat.mod_lt index.toNat half
  have division := Nat.div_add_mod' index.toNat (2 ^ scale.half)
  have sub : ((index &&& (layout.subBucketHalfCount - 1)) + layout.subBucketHalfCount).toNat =
      index.toNat % 2 ^ scale.half + 2 ^ scale.half := by
    rw [UInt64.toNat_add, low, scaled.subBucketHalfCount]
    omega
  unfold valueFromIndex
  dsimp only
  rw [bucket]
  cases first : index.toNat / 2 ^ scale.half with
  | zero =>
      have below : ((0 : Nat) : Int) - 1 < 0 := by decide
      have unshifted : ((index &&& (layout.subBucketHalfCount - 1)) + layout.subBucketHalfCount -
          layout.subBucketHalfCount).toNat = index.toNat := by
        rw [UInt64.toNat_sub_of_le, sub, scaled.subBucketHalfCount]
        · rw [first] at division
          omega
        · rw [UInt64.le_iff_toNat_le, sub, scaled.subBucketHalfCount]
          omega
      have begun : scale.lower index.toNat = index.toNat * 2 ^ scale.unit := by
        have none : scale.octave index.toNat = 0 := by
          rw [LogLinear.octave, first]
        rw [LogLinear.lower, LogLinear.width, none, Nat.zero_mul, Nat.zero_add, Nat.sub_zero]
      rw [if_pos below, Int.zero_add, scaled.unitMagnitude, toNat_shiftLeft_count _ (by omega),
        unshifted, begun]
      exact Nat.mod_eq_of_lt (begun ▸ word)
  | succ k =>
      have notBelow : ¬ ((k + 1 : Nat) : Int) - 1 < 0 := by omega
      have same : scale.octave index.toNat = k := by
        rw [LogLinear.octave, first]
        rfl
      have shift : ((k + 1 : Nat) : Int) - 1 + layout.unitMagnitude = (k + scale.unit : Nat) := by
        rw [scaled.unitMagnitude]
        omega
      have offset : index.toNat - k * 2 ^ scale.half =
          index.toNat % 2 ^ scale.half + 2 ^ scale.half := by
        rw [first, Nat.succ_mul] at division
        omega
      have begun : scale.lower index.toNat =
          (index.toNat % 2 ^ scale.half + 2 ^ scale.half) * 2 ^ (k + scale.unit) := by
        rw [LogLinear.lower, LogLinear.width, same, offset]
      rw [if_neg notBelow, shift, toNat_shiftLeft_count _ (by omega), sub, begun]
      exact Nat.mod_eq_of_lt (begun ▸ word)

/-- The value of the index of a value is where its interval begins. -/
theorem Scaled.toNat_lowest (scaled : layout.Scaled scale) (value : UInt64) :
    (layout.valueFromIndex (layout.countsIndex value)).toNat =
      scale.lower (scale.index value.toNat) := by
  have below := Nat.lt_of_le_of_lt (scale.index_bracket value.toNat).1 (UInt64.toNat_lt value)
  rw [← scaled.toNat_countsIndex] at below ⊢
  exact scaled.toNat_valueFromIndex below

/-! ## The interval of a value -/

theorem Scaled.toNat_equivalentRange (scaled : layout.Scaled scale) (value : UInt64) :
    (layout.equivalentRange value).toNat = scale.width (scale.index value.toNat) := by
  have octave := scaled.octaveOf_le value
  have shift : shiftCount (layout.unitMagnitude + layout.bucketIndex value) =
      shiftCount (scale.octaveOf value.toNat + scale.unit : Nat) := by
    rw [scaled.bucketIndex_eq, scaled.unitMagnitude, Nat.cast_add, Int.add_comm]
  have word : 2 ^ (scale.octaveOf value.toNat + scale.unit) < 2 ^ 64 :=
    Nat.pow_lt_pow_right Nat.one_lt_two (by omega)
  have one : (1 : UInt64).toNat = 1 := rfl
  rw [equivalentRange, shift, toNat_shiftLeft_count _ (by omega), LogLinear.width,
    LogLinear.octave_index, one, Nat.one_mul]
  exact Nat.mod_eq_of_lt word

/-- The interval of a word ends at a word. -/
theorem Scaled.lower_succ_le (scaled : layout.Scaled scale) {i : Nat}
    (word : scale.lower i < 2 ^ 64) : scale.lower (i + 1) ≤ 2 ^ 64 := by
  have narrow := scaled.narrow
  obtain ⟨k, whole⟩ : ∃ k, scale.unit + scale.half + 1 + k = 64 := ⟨63 - (scale.unit + scale.half),
    by omega⟩
  rw [← whole, ← scale.lower_octave] at word ⊢
  exact scale.strictMono_lower.monotone (scale.strictMono_lower.lt_iff_lt.mp word)

variable {value : UInt64} {i : Nat}

/-- Of the beginning of an interval, the sum and the difference are those of the naturals. -/
theorem Scaled.toNat_highestEquivalent (scaled : layout.Scaled scale)
    (begins : value.toNat = scale.lower i) :
    (layout.highestEquivalent value).toNat + 1 = scale.lower (i + 1) ∧
      value.toNat + (layout.equivalentRange value).toNat = scale.lower (i + 1) := by
  have word : scale.lower i < 2 ^ 64 := begins ▸ UInt64.toNat_lt value
  have ends := scaled.lower_succ_le word
  have range : (layout.equivalentRange value).toNat = scale.width i := by
    rw [scaled.toNat_equivalentRange, begins, scale.index_lower]
  have positive := scale.width_pos i
  have one : (1 : UInt64).toNat = 1 := rfl
  rw [highestEquivalent, UInt64.toNat_sub, UInt64.toNat_add, range, begins, one]
  rw [scale.lower_succ] at ends ⊢
  refine ⟨?_, rfl⟩
  omega

theorem Scaled.toNat_medianEquivalent (scaled : layout.Scaled scale)
    (begins : value.toNat = scale.lower i) :
    (layout.medianEquivalent value).toNat = scale.lower i + scale.width i / 2 := by
  have word : scale.lower i < 2 ^ 64 := begins ▸ UInt64.toNat_lt value
  have ends := scaled.lower_succ_le word
  have range : (layout.equivalentRange value >>> 1).toNat = scale.width i / 2 := by
    rw [UInt64.toNat_shiftRight, scaled.toNat_equivalentRange, begins, scale.index_lower]
    rfl
  have positive := scale.width_pos i
  rw [medianEquivalent, UInt64.toNat_add, range, begins]
  rw [scale.lower_succ] at ends
  omega

/-! ## The constructor -/

theorem subBucketMagnitudeOf_natCast (digits : Nat) :
    subBucketMagnitudeOf digits = Nat.clog 2 (2 * 10 ^ digits) := by
  have cast : (2 * 10 ^ (digits : Int) : ℚ) = ((2 * 10 ^ digits : Nat) : ℚ) := by
    push_cast
    rw [zpow_natCast]
  rw [subBucketMagnitudeOf, cast, Int.clog_natCast]

/-- The scale of the constructor's arguments, for digits that are not negative. -/
def scaleOf (digits : Nat) (lowestDiscernible : UInt64) : LogLinear where
  unit := unitMagnitudeOf lowestDiscernible
  half := Nat.clog 2 (2 * 10 ^ digits) - 1

theorem clog_digits_pos (digits : Nat) : 1 ≤ Nat.clog 2 (2 * 10 ^ digits) := by
  have positive : 0 < 10 ^ digits := Nat.pow_pos (by decide)
  exact Nat.clog_pos Nat.one_lt_two (by omega)

/-- A half octave resolves the digits. -/
theorem digits_le_half (digits : Nat) (lowestDiscernible : UInt64) :
    10 ^ digits ≤ 2 ^ (scaleOf digits lowestDiscernible).half := by
  have enough := Nat.le_pow_clog Nat.one_lt_two (2 * 10 ^ digits)
  have split : 2 ^ Nat.clog 2 (2 * 10 ^ digits) =
      2 * 2 ^ (scaleOf digits lowestDiscernible).half := by
    rw [← Nat.pow_succ', scaleOf, Nat.succ_eq_add_one, Nat.sub_add_cancel (clog_digits_pos digits)]
  rw [split] at enough
  exact Nat.le_of_mul_le_mul_left enough Nat.two_pos

theorem scaled_make (digits : Nat) (lowestDiscernible : UInt64)
    (narrow : unitMagnitudeOf lowestDiscernible + subBucketMagnitudeOf digits ≤ 63) :
    (make digits lowestDiscernible).Scaled (scaleOf digits lowestDiscernible) := by
  have some := clog_digits_pos digits
  have magnitude := subBucketMagnitudeOf_natCast digits
  rw [magnitude] at narrow
  have within : unitMagnitudeOf lowestDiscernible + Nat.clog 2 (2 * 10 ^ digits) ≤ 63 := by omega
  have exact_half : (scaleOf digits lowestDiscernible).half + 1 = Nat.clog 2 (2 * 10 ^ digits) :=
    Nat.sub_add_cancel some
  have one : (1 : UInt64).toNat = 1 := rfl
  have count : (1 <<< shiftCount (subBucketMagnitudeOf digits) : UInt64).toNat =
      2 ^ ((scaleOf digits lowestDiscernible).half + 1) := by
    have word : 2 ^ Nat.clog 2 (2 * 10 ^ digits) < 2 ^ 64 :=
      Nat.pow_lt_pow_right Nat.one_lt_two (by omega)
    rw [magnitude, toNat_shiftLeft_count _ (by omega), one, Nat.one_mul, exact_half]
    exact Nat.mod_eq_of_lt word
  refine ⟨?_, count, ?_, ?_, ?_, rfl, ?_⟩
  · rw [Nat.add_assoc, exact_half]
    exact within
  · have halved : (2 : UInt64).toNat = 2 := rfl
    change ((1 <<< shiftCount (subBucketMagnitudeOf digits) : UInt64) / 2).toNat = _
    rw [UInt64.toNat_div, count, halved, Nat.pow_succ, Nat.mul_div_cancel _ Nat.two_pos]
  · change (((1 <<< shiftCount (subBucketMagnitudeOf digits) : UInt64) - 1) <<<
      shiftCount (unitMagnitudeOf lowestDiscernible : Nat)).toNat = _
    have positive := Nat.two_pow_pos ((scaleOf digits lowestDiscernible).half + 1)
    have less : 2 ^ ((scaleOf digits lowestDiscernible).half + 1) - 1 <
        2 ^ ((scaleOf digits lowestDiscernible).half + 1) := by omega
    have word : (2 ^ ((scaleOf digits lowestDiscernible).half + 1) - 1) *
        2 ^ unitMagnitudeOf lowestDiscernible < 2 ^ 64 := by
      apply Nat.lt_of_lt_of_le (Nat.mul_lt_mul_of_pos_right less (Nat.two_pow_pos _))
      rw [← Nat.pow_add, exact_half]
      exact Nat.pow_le_pow_right Nat.two_pos (by omega)
    rw [toNat_shiftLeft_count _ (by omega), UInt64.toNat_sub_of_le, count, one]
    · exact Nat.mod_eq_of_lt word
    · rw [UInt64.le_iff_toNat_le, count, one]
      exact positive
  · change subBucketMagnitudeOf digits - 1 = _
    rw [magnitude]
    omega
  · change 64 - (unitMagnitudeOf lowestDiscernible : Int) - subBucketMagnitudeOf digits = _
    rw [magnitude, ← exact_half]
    change _ = 63 - ((unitMagnitudeOf lowestDiscernible + _ : Nat) : Int)
    omega

/-- The sizing loop ends, at the first power of two above the range or at the last word. -/
theorem sizing_spec (highestTrackable : UInt64) (fuel buckets : Nat) {k : Nat} {smallest : UInt64}
    (power : smallest.toNat = 2 ^ k) (enough : 64 ≤ k + fuel) (within : k ≤ 63)
    (left : 0 < fuel) :
    ∃ n, sizing highestTrackable fuel smallest buckets = some (buckets + n) ∧
      highestTrackable.toNat < 2 ^ (k + n) ∧ k + n ≤ 64 := by
  induction fuel generalizing k buckets smallest with
  | zero => cases left
  | succ fuel ih =>
      have most := UInt64.toNat_lt highestTrackable
      rw [sizing]
      by_cases covered : smallest ≤ highestTrackable
      · rw [if_pos covered]
        by_cases last : 0xFFFFFFFFFFFFFFFF / 2 < smallest
        · have bound : 2 ^ 63 ≤ 2 ^ k := by
            rw [UInt64.lt_iff_toNat_lt, power] at last
            exact last
          have top : 63 ≤ k := (Nat.pow_le_pow_iff_right Nat.one_lt_two).mp bound
          have same : k = 63 := by omega
          rw [if_pos last, same]
          exact ⟨1, rfl, most, Nat.le_refl _⟩
        · have bound : 2 ^ k < 2 ^ 63 := by
            rw [UInt64.lt_iff_toNat_lt, power] at last
            exact Nat.not_le.mp last
          have below : k < 63 := (Nat.pow_lt_pow_iff_right Nat.one_lt_two).mp bound
          have doubled : (smallest <<< 1).toNat = 2 ^ (k + 1) := by
            rw [UInt64.toNat_shiftLeft, power, Nat.shiftLeft_eq]
            change 2 ^ k * 2 ^ 1 % 2 ^ 64 = _
            rw [Nat.mod_eq_of_lt (by omega), ← Nat.pow_add]
          obtain ⟨n, sized, above, inside⟩ := ih (buckets + 1) doubled (by omega) (by omega)
            (by omega)
          rw [if_neg last, sized]
          refine ⟨n + 1, by rw [Nat.add_assoc, Nat.add_comm 1 n], ?_, by omega⟩
          have same : k + (n + 1) = k + 1 + n := by omega
          rw [same]
          exact above
      · rw [if_neg covered]
        rw [UInt64.not_le, UInt64.lt_iff_toNat_lt, power] at covered
        exact ⟨0, rfl, covered, by omega⟩

/-- The tallies reach from the first octave over the whole range, and no further than the words. -/
theorem Scaled.countsSize_spec (scaled : layout.Scaled scale) (highestTrackable : UInt64) :
    ∃ size, layout.countsSize highestTrackable = some size ∧
      highestTrackable.toNat < scale.lower size ∧ scale.lower size ≤ 2 ^ 64 := by
  have narrow := scaled.narrow
  have power : (layout.subBucketCount <<< shiftCount layout.unitMagnitude).toNat =
      2 ^ (scale.unit + scale.half + 1) := by
    have same : scale.half + 1 + scale.unit = scale.unit + scale.half + 1 := by omega
    rw [scaled.unitMagnitude, toNat_shiftLeft_count _ (by omega), scaled.subBucketCount,
      ← Nat.pow_add, same]
    exact Nat.mod_eq_of_lt (Nat.pow_lt_pow_right Nat.one_lt_two (by omega))
  obtain ⟨n, sized, above, inside⟩ := sizing_spec highestTrackable 65 1 power (by omega) narrow
    (by decide)
  have size : (UInt64.ofNat (1 + n + 1) * layout.subBucketHalfCount).toNat =
      (n + 2) * 2 ^ scale.half := by
    have word := scaled.octaves_lt inside
    have small : 1 + n + 1 < 2 ^ 64 := by omega
    have same : 1 + n + 1 = n + 2 := by omega
    rw [UInt64.toNat_mul, UInt64.toNat_ofNat_of_lt' small, scaled.subBucketHalfCount, same]
    exact Nat.mod_eq_of_lt word
  refine ⟨(n + 2) * 2 ^ scale.half, ?_, ?_, ?_⟩
  · rw [countsSize, sized, Option.map_some, size]
  · rw [scale.lower_octave]
    exact above
  · rw [scale.lower_octave]
    exact Nat.pow_le_pow_right Nat.two_pos inside

end BucketLayout

end VoiceHotPath
