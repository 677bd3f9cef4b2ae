import VoiceHotPath.Histogram.Percentiles

/-!
# The mean

The samples of a tally are averaged at the median of its interval, which is half
a width from each of them at most.
-/

namespace VoiceHotPath

namespace Histogram

open BucketLayout OrderStatistic

/-- The median of the values that an index counts. -/
def medianAt (h : Histogram) (i : Nat) : UInt64 :=
  h.layout.medianEquivalent (h.layout.valueFromIndex (UInt64.ofNat i))

/-- The loop of `mean`, over the counts from an index on. -/
def weigh (h : Histogram) : List Nat → Nat → Nat → Nat
  | [], _, sum => sum
  | count :: counts, i, sum =>
      h.weigh counts (i + 1) (if count ≠ 0 then sum + count * (h.medianAt i).toNat else sum)

def weightedSum (h : Histogram) : Nat :=
  h.weigh h.counts 0 0

/-- `mean`, in exact arithmetic. -/
def mean (h : Histogram) : ℚ :=
  if h.total = 0 then 0 else h.weightedSum / h.total

/-! ## The weighted sum is one over the samples -/

section

variable {h : Histogram} {scale : LogLinear} {values : List UInt64}

theorem weigh_eq (h : Histogram) (counts : List Nat) (i sum : Nat) :
    h.weigh counts i sum =
      sum + ∑ j ∈ Finset.range counts.length, counts.getD j 0 * (h.medianAt (i + j)).toNat := by
  induction counts generalizing i sum with
  | nil => rfl
  | cons count counts ih =>
      have added : (if count ≠ 0 then sum + count * (h.medianAt i).toNat else sum) =
          sum + count * (h.medianAt i).toNat := by
        by_cases empty : count = 0
        · rw [if_neg (not_not_intro empty), empty, Nat.zero_mul, Nat.add_zero]
        · exact if_pos empty
      rw [weigh, ih, added, List.length_cons, Finset.sum_range_succ', Nat.add_assoc]
      simp only [List.getD_cons_succ, List.getD_cons_zero, Nat.add_zero, Nat.add_assoc,
        Nat.add_comm 1, Nat.add_comm (count * _)]

/-- Half way through the interval of a value. -/
def medianOf (scale : LogLinear) (v : Nat) : Nat :=
  scale.lower (scale.index v) + scale.width (scale.index v) / 2

theorem Holds.weightedSum_eq (holds : h.Holds scale values) :
    h.weightedSum = (values.map fun value => medianOf scale value.toNat).sum := by
  have inside : ∀ v ∈ values.map UInt64.toNat, scale.index v < h.counts.length := by
    intro v member
    obtain ⟨value, recorded, rfl⟩ := List.mem_map.mp member
    exact holds.inside value recorded
  have medians : ∀ v ∈ values.map UInt64.toNat,
      (h.medianAt (scale.index v)).toNat = medianOf scale v := fun v member =>
    holds.scaled.toNat_medianEquivalent (holds.toNat_valueFromIndex (inside v member))
  rw [weightedSum, weigh_eq, Nat.zero_add]
  simp only [Nat.zero_add]
  rw [holds.tallies.sum_weights inside fun i => (h.medianAt i).toNat, List.map_congr_left medians,
    List.map_map]
  rfl

/-! ## The error of a median -/

/-- The median is a fraction of a value away from it. -/
theorem medianOf_error (unit : scale.unit = 0) (v : Nat) :
    2 * 2 ^ scale.half * ((medianOf scale v : Int) - v).natAbs ≤ v := by
  obtain ⟨above, below⟩ := scale.index_bracket v
  have apart : 2 * ((medianOf scale v : Int) - v).natAbs ≤ scale.width (scale.index v) := by
    unfold medianOf
    omega
  rcases scale.width_le (scale.index v) with first | later
  · rw [unit, Nat.pow_zero] at first
    have none : ((medianOf scale v : Int) - v).natAbs = 0 := by
      rw [medianOf]
      omega
    rw [none, Nat.mul_zero]
    exact Nat.zero_le v
  · calc
      2 * 2 ^ scale.half * ((medianOf scale v : Int) - v).natAbs =
          2 ^ scale.half * (2 * ((medianOf scale v : Int) - v).natAbs) := by
        rw [Nat.mul_comm 2, Nat.mul_assoc]
      _ ≤ 2 ^ scale.half * scale.width (scale.index v) := Nat.mul_le_mul_left _ apart
      _ ≤ v := later.trans above

/-- The errors of the medians add up to a fraction of the sum. -/
theorem sum_medianOf_error (unit : scale.unit = 0) (vs : List Nat) :
    2 * 2 ^ scale.half * (((vs.map (medianOf scale)).sum : Int) - vs.sum).natAbs ≤ vs.sum := by
  induction vs with
  | nil => exact Nat.le_refl 0
  | cons v vs ih =>
      have here := medianOf_error unit v
      have split : ((((v :: vs).map (medianOf scale)).sum : Nat) : Int) - ((v :: vs).sum : Nat) =
          ((medianOf scale v : Int) - v) +
            (((vs.map (medianOf scale)).sum : Nat) - (vs.sum : Nat)) := by
        rw [List.map_cons, List.sum_cons, List.sum_cons]
        push_cast
        ring
      rw [split, List.sum_cons]
      calc
        _ ≤ 2 * 2 ^ scale.half * (((medianOf scale v : Int) - v).natAbs +
            ((((vs.map (medianOf scale)).sum : Nat) : Int) - (vs.sum : Nat)).natAbs) :=
          Nat.mul_le_mul_left _ (Int.natAbs_add_le _ _)
        _ ≤ v + vs.sum := by
          rw [Nat.mul_add]
          exact Nat.add_le_add here ih

/-! ## The mean is accurate -/

/-- What the mean promises for the values recorded. -/
structure AccurateMean (h : Histogram) (values : List UInt64) (digits : Int) : Prop where
  divided : h.mean = h.weightedSum / h.count
  count : h.count = values.length
  fraction : |(h.weightedSum : ℚ) - (values.map UInt64.toNat).sum| ≤
    (values.map UInt64.toNat).sum / (2 * h.layout.subBucketHalfCount.toNat)
  resolved : |(h.weightedSum : ℚ) - (values.map UInt64.toNat).sum| ≤
    (values.map UInt64.toNat).sum * 10 ^ (-digits) / 2

theorem mean_eq (h : Histogram) : h.mean = h.weightedSum / h.count := by
  unfold mean count
  split
  · rename_i none
    rw [none, Nat.cast_zero, div_zero]
  · rfl

theorem Holds.accurateMean {d : Nat} (holds : h.Holds scale values) (unit : scale.unit = 0)
    (resolved : 10 ^ d ≤ 2 ^ scale.half) : h.AccurateMean values d := by
  have error := sum_medianOf_error unit (values.map UInt64.toNat)
  rw [List.map_map] at error
  have cast : |(h.weightedSum : ℚ) - (values.map UInt64.toNat).sum| =
      (((h.weightedSum : Int) - (values.map UInt64.toNat).sum).natAbs : ℚ) := by
    rw [Nat.cast_natAbs, Int.cast_abs, Int.cast_sub, Int.cast_natCast, Int.cast_natCast]
  have scaled : 2 * 2 ^ scale.half * |(h.weightedSum : ℚ) - (values.map UInt64.toNat).sum| ≤
      (values.map UInt64.toNat).sum := by
    rw [cast, holds.weightedSum_eq]
    exact_mod_cast error
  refine ⟨h.mean_eq, holds.total, ?_, ?_⟩
  · have positive : (0 : ℚ) < 2 * 2 ^ scale.half := by positivity
    rw [holds.scaled.subBucketHalfCount, Nat.cast_pow, Nat.cast_ofNat, le_div_iff₀ positive,
      mul_comm]
    exact scaled
  · have power : (0 : ℚ) < 10 ^ d := by positivity
    have digits : (10 : ℚ) ^ d ≤ 2 ^ scale.half := by exact_mod_cast resolved
    have coarser := mul_le_mul_of_nonneg_right digits
      (abs_nonneg ((h.weightedSum : ℚ) - (values.map UInt64.toNat).sum))
    rw [zpow_neg, zpow_natCast, ← div_eq_mul_inv, le_div_iff₀ two_pos, le_div_iff₀ power]
    linarith

end

/-- What the constructor builds averages its values within half the promised error, those of the
range and any other it counts. -/
theorem make_accurateMean (highestTrackable : UInt64) {digits : Int} (defined : 0 ≤ digits)
    (narrow : subBucketMagnitudeOf digits ≤ 63) :
    ∃ h, make highestTrackable digits 1 = some h ∧
      (∀ value ≤ highestTrackable, h.indexOf value < h.counts.length) ∧
      ∀ values, (∀ value ∈ values, h.indexOf value < h.counts.length) →
        (h.recordAll values).AccurateMean values digits := by
  obtain ⟨d, rfl⟩ := Int.eq_ofNat_of_zero_le defined
  obtain ⟨h, made, covered, holds⟩ := make_holds highestTrackable d narrow
  refine ⟨h, made, covered, fun values inRange => ?_⟩
  exact (holds values inRange).accurateMean (scaleOf_unit d) (digits_le_half d 1)

/-- The default histogram, which reaches a minute in nanoseconds. -/
theorem make_accurateMean_default :
    ∃ h, make 60000000000 3 1 = some h ∧
      (h.recordAll [1500, 41, 2049]).AccurateMean [1500, 41, 2049] 3 := by
  have defined : (0 : Int) ≤ 3 := by decide
  obtain ⟨h, made, covered, promised⟩ :=
    make_accurateMean 60000000000 defined (by decide +kernel)
  have small :
      [1500, 41, 2049].all (fun value => decide (value ≤ (60000000000 : UInt64))) = true := by
    decide
  exact ⟨h, made, promised _ fun value member =>
    covered value (of_decide_eq_true (List.all_eq_true.mp small value member))⟩

end Histogram

end VoiceHotPath
