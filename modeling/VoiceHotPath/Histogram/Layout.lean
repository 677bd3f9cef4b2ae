import Mathlib.Data.Int.Log
import Mathlib.Data.Rat.Floor
import VoiceHotPath.Lib.LogLinear

/-!
# The bucket layout of a histogram

HdrHistogram's bucketing on 64-bit words: a count of leading zeros finds the
bucket, a shift the sub-bucket.  Logarithms and powers of the constructor are
exact.
-/

namespace VoiceHotPath

/-- A shift count; those outside `0..63`, undefined in the source, are taken modulo 64. -/
def shiftCount (k : Int) : UInt64 :=
  UInt64.ofInt k

/-- `__builtin_clzll`, of a word that is not zero. -/
def clzll (x : UInt64) : Nat :=
  63 - x.toNat.log2

/-- The layout fields of `Histogram`. -/
structure BucketLayout where
  subBucketCount : UInt64
  subBucketHalfCount : UInt64
  subBucketMask : UInt64
  subBucketMagnitude : Int
  subBucketHalfMagnitude : Int
  unitMagnitude : Int
  leadingZeroBase : Int
  deriving DecidableEq, Repr

namespace BucketLayout

/-- `floor(log2(lowest_discernible))`, with zero read as one. -/
def unitMagnitudeOf (lowestDiscernible : UInt64) : Nat :=
  (if lowestDiscernible = 0 then 1 else lowestDiscernible).toNat.log2

/-- `ceil(log2(2 * 10 ^ significant_digits))`. -/
def subBucketMagnitudeOf (significantDigits : Int) : Int :=
  Int.clog 2 (2 * 10 ^ significantDigits : ℚ)

/-- What the constructor derives before its sizing loop. -/
def make (significantDigits : Int) (lowestDiscernible : UInt64) : BucketLayout :=
  let unitMagnitude : Int := unitMagnitudeOf lowestDiscernible
  let subBucketMagnitude := subBucketMagnitudeOf significantDigits
  let subBucketCount : UInt64 := 1 <<< shiftCount subBucketMagnitude
  { subBucketCount := subBucketCount
    subBucketHalfCount := subBucketCount / 2
    subBucketMask := (subBucketCount - 1) <<< shiftCount unitMagnitude
    subBucketMagnitude := subBucketMagnitude
    subBucketHalfMagnitude := subBucketMagnitude - 1
    unitMagnitude := unitMagnitude
    leadingZeroBase := 64 - unitMagnitude - subBucketMagnitude }

variable (layout : BucketLayout)

def bucketIndex (value : UInt64) : Int :=
  layout.leadingZeroBase - clzll (value ||| layout.subBucketMask)

def countsIndex (value : UInt64) : UInt64 :=
  let bucketIndex := layout.bucketIndex value
  let subBucketIndex := value >>> shiftCount (bucketIndex + layout.unitMagnitude)
  ((UInt64.ofInt bucketIndex + 1) <<< shiftCount layout.subBucketHalfMagnitude) +
    (subBucketIndex - layout.subBucketHalfCount)

def valueFromIndex (index : UInt64) : UInt64 :=
  let bucketIndex := (index >>> shiftCount layout.subBucketHalfMagnitude).toInt64.toInt - 1
  let subBucketIndex := (index &&& (layout.subBucketHalfCount - 1)) + layout.subBucketHalfCount
  if bucketIndex < 0 then
    (subBucketIndex - layout.subBucketHalfCount) <<< shiftCount (0 + layout.unitMagnitude)
  else subBucketIndex <<< shiftCount (bucketIndex + layout.unitMagnitude)

def equivalentRange (value : UInt64) : UInt64 :=
  1 <<< shiftCount (layout.unitMagnitude + layout.bucketIndex value)

def highestEquivalent (value : UInt64) : UInt64 :=
  value + layout.equivalentRange value - 1

def medianEquivalent (value : UInt64) : UInt64 :=
  value + (layout.equivalentRange value >>> 1)

/-- The sizing loop of the constructor; nothing if it is not over after so many rounds. -/
def sizing (highestTrackable : UInt64) : Nat → UInt64 → Nat → Option Nat
  | 0, _, _ => none
  | fuel + 1, smallestUntrackable, buckets =>
      if smallestUntrackable ≤ highestTrackable then
        if 0xFFFFFFFFFFFFFFFF / 2 < smallestUntrackable then some (buckets + 1)
        else sizing highestTrackable fuel (smallestUntrackable <<< 1) (buckets + 1)
      else some buckets

/-- `counts_.size()`; a word that is not zero has left the range after 64 doublings. -/
def countsSize (highestTrackable : UInt64) : Option Nat :=
  (sizing highestTrackable 65 (layout.subBucketCount <<< shiftCount layout.unitMagnitude) 1).map
    fun buckets => (UInt64.ofNat (buckets + 1) * layout.subBucketHalfCount).toNat

end BucketLayout

end VoiceHotPath
