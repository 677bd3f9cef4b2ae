import VoiceHotPath.Histogram.Percentiles

/-!
# The report of the Node producer

The Node producer keeps every lateness, in milliseconds, and reads its percentiles
off the sorted list.  A histogram of the same samples in nanoseconds reads the same
percentiles, within the error of its digits.
-/

namespace VoiceHotPath

namespace NodeProducer

/-- `percentile`, with the rank computed exactly. -/
def percentile (sorted : List ℚ) (p : ℚ) : ℚ :=
  if sorted.length = 0 then 0
  else
    let index := min ((sorted.length : Int) - 1) (⌈p / 100 * sorted.length⌉ - 1)
    sorted.getD (max 0 index).toNat 0

/-- What `finish` sorts: the latenesses in milliseconds. -/
def sortedMs (latenessNs : List UInt64) : List ℚ :=
  (latenessNs.map fun ns => (ns.toNat : ℚ) / 10 ^ 6).insertionSort (· ≤ ·)

end NodeProducer

namespace Histogram

open BucketLayout OrderStatistic NodeProducer

/-- The scan for rank none stops where that for the first rank does. -/
theorem scan_zero (h : Histogram) : h.scan 0 = h.scan 1 := by
  have each : ∀ counts i running,
      h.scanFrom 0 counts i running = h.scanFrom 1 counts i running := by
    intro counts
    induction counts with
    | nil => exact fun _ _ => rfl
    | cons count counts ih =>
        intro i running
        have same : (0 ≤ running + count ∧ count ≠ 0) ↔ (1 ≤ running + count ∧ count ≠ 0) := by
          omega
        rw [scanFrom, scanFrom, ih]
        simp only [same]
  exact each h.counts 0 0

/-- The rank a percentile of some samples stands for, in both programs. -/
def rankOf (percentile : ℚ) (n : Nat) : Nat :=
  max 1 ⌈max 0 (min percentile 100) / 100 * n⌉₊

section

variable {h : Histogram} {scale : LogLinear} {values : List UInt64} {percentile : ℚ} {n : Nat}

theorem rankOf_bounds (percentile : ℚ) (some : 0 < n) :
    1 ≤ rankOf percentile n ∧ rankOf percentile n ≤ n := by
  have count : (0 : ℚ) < n := by exact_mod_cast some
  have high : max 0 (min percentile 100) / 100 ≤ 1 := by
    have clamped : max 0 (min percentile 100) ≤ 100 := max_le (by norm_num) (min_le_right _ _)
    linarith
  refine ⟨le_max_left _ _, max_le some ?_⟩
  rw [Nat.ceil_le]
  exact mul_le_of_le_one_left count.le high

/-- `value_at_percentile` scans for the rank. -/
theorem Holds.valueAtPercentile_rank (holds : h.Holds scale values) (recorded : values ≠ []) :
    h.valueAtPercentile percentile = h.scan (rankOf percentile values.length) := by
  have some : 0 < values.length := List.length_pos_iff.mpr recorded
  have unfolded : h.valueAtPercentile percentile =
      h.scan ⌈max 0 (min percentile 100) / 100 * h.total⌉₊ :=
    if_neg (by rw [holds.total]; omega)
  rw [unfolded, holds.total, rankOf]
  rcases Nat.eq_zero_or_pos ⌈max 0 (min percentile 100) / 100 * (values.length : ℚ)⌉₊ with
    none | some
  · rw [none]
    exact scan_zero h
  · rw [Nat.max_eq_right some]

/-- The index Node reads is one less than the rank. -/
theorem index_eq_rank (some : 0 < n) :
    (max 0 (min ((n : Int) - 1) (⌈percentile / 100 * n⌉ - 1))).toNat = rankOf percentile n - 1 := by
  have count : (0 : ℚ) < n := by exact_mod_cast some
  rcases le_or_gt percentile 0 with none | positive
  · have clamped : max 0 (min percentile 100) = 0 := max_eq_left ((min_le_left _ _).trans none)
    have negative : ⌈percentile / 100 * n⌉ ≤ 0 := by
      rw [Int.ceil_le, Int.cast_zero]
      exact mul_nonpos_of_nonpos_of_nonneg (by linarith) count.le
    have first : rankOf percentile n = 1 := by
      rw [rankOf, clamped, zero_div, zero_mul, Nat.ceil_zero]
      rfl
    rw [first]
    omega
  · rcases le_or_gt percentile 100 with inside | beyond
    · have clamped : max 0 (min percentile 100) = percentile := by
        rw [min_eq_left inside, max_eq_right positive.le]
      have ceiling : ((⌈percentile / 100 * n⌉₊ : Nat) : Int) = ⌈percentile / 100 * n⌉ :=
        Int.natCast_ceil_eq_ceil (mul_nonneg (by linarith) count.le)
      have least : 1 ≤ ⌈percentile / 100 * n⌉₊ :=
        Nat.ceil_pos.mpr (mul_pos (by linarith) count)
      have most := (rankOf_bounds percentile some).2
      rw [rankOf, clamped] at most ⊢
      omega
    · have clamped : max 0 (min percentile 100) = 100 := by
        rw [min_eq_right beyond.le]
        norm_num
      have last : rankOf percentile n = n := by
        rw [rankOf, clamped, div_self (by norm_num), one_mul, Nat.ceil_natCast]
        omega
      have ceiling : (n : Int) ≤ ⌈percentile / 100 * n⌉ := by
        have more : (n : ℚ) ≤ percentile / 100 * n :=
          le_mul_of_one_le_left count.le (by linarith)
        exact_mod_cast more.trans (Int.le_ceil _)
      rw [last]
      omega

/-- Node reads the sample of the rank. -/
theorem percentile_sortedMs (recorded : values ≠ []) {v : Nat}
    (here : nthSmallest (values.map UInt64.toNat) (rankOf percentile values.length) = some v) :
    NodeProducer.percentile (sortedMs values) percentile = (v : ℚ) / 10 ^ 6 := by
  have some : 0 < values.length := List.length_pos_iff.mpr recorded
  have scaled : sortedMs values =
      ((values.map UInt64.toNat).insertionSort (· ≤ ·)).map fun ns : Nat => (ns : ℚ) / 10 ^ 6 := by
    rw [List.map_insertionSort (r := (· ≤ ·)) (s := (· ≤ ·)), List.map_map]
    · rfl
    · intro a _ b _
      rw [div_le_div_iff_of_pos_right (by positivity)]
      exact Nat.cast_le.symm
  have length : (sortedMs values).length = values.length := by
    rw [scaled, List.length_map, List.length_insertionSort, List.length_map]
  rw [NodeProducer.percentile, if_neg (by omega)]
  dsimp only
  rw [length, index_eq_rank some, scaled, List.getD_eq_getElem?_getD, List.getElem?_map]
  rw [nthSmallest] at here
  rw [here]
  rfl

end

/-- For whatever percentile, in range or not, of whatever samples the histogram tracks: Node's
reading is one of the samples, and the histogram's is that or above it, by no more than the error
of its digits. -/
theorem percentiles_agree (highestTrackable : UInt64) {digits : Int} (defined : 0 ≤ digits)
    (narrow : subBucketMagnitudeOf digits ≤ 63) :
    ∃ h, make highestTrackable digits 1 = some h ∧
      ∀ values, values ≠ [] → (∀ value ∈ values, value ≤ highestTrackable) → ∀ p : ℚ,
        let node : ℚ := NodeProducer.percentile (sortedMs values) p * 10 ^ 6
        let reading : ℚ := ((h.recordAll values).valueAtPercentile p).toNat
        (∃ value ∈ values, node = value.toNat) ∧ node ≤ reading ∧
          reading - node ≤ node * 10 ^ (-digits) := by
  obtain ⟨d, rfl⟩ := Int.eq_ofNat_of_zero_le defined
  obtain ⟨h, made, covered, holds⟩ := make_holds highestTrackable d narrow
  refine ⟨h, made, fun values recorded tracked p => ?_⟩
  have held := holds values fun value member => covered value (tracked value member)
  have some : 0 < values.length := List.length_pos_iff.mpr recorded
  obtain ⟨positive, within⟩ := rankOf_bounds p some
  obtain ⟨v, here, least, -, error⟩ :=
    (held.orderStatistics (scaleOf_unit d) (digits_le_half d 1)).within _ positive within
  intro node reading
  have exactly : node = v := by
    change NodeProducer.percentile (sortedMs values) p * 10 ^ 6 = v
    rw [percentile_sortedMs recorded here]
    exact div_mul_cancel₀ _ (by positivity)
  have read : reading = ((h.recordAll values).scan (rankOf p values.length)).toNat := by
    change ((h.recordAll values).valueAtPercentile p).toNat = (_ : ℚ)
    rw [held.valueAtPercentile_rank recorded]
  obtain ⟨value, member, same⟩ := List.mem_map.mp (mem_of_nthSmallest here)
  rw [exactly, read]
  exact ⟨⟨value, member, by rw [same]⟩, by exact_mod_cast least, error⟩

/-- Both read the median of three samples. -/
theorem percentiles_agree_median :
    ∃ h, make 1000000000 3 1 = some h ∧
      NodeProducer.percentile (sortedMs [1500, 41, 2049]) 50 * 10 ^ 6 = 1500 ∧
      (1500 : ℚ) ≤ ((h.recordAll [1500, 41, 2049]).valueAtPercentile 50).toNat ∧
      (((h.recordAll [1500, 41, 2049]).valueAtPercentile 50).toNat : ℚ) - 1500 ≤
        1500 * 10 ^ (-(3 : Int)) := by
  have defined : (0 : Int) ≤ 3 := by decide
  obtain ⟨h, made, agree⟩ := percentiles_agree 1000000000 defined (by decide +kernel)
  have small :
      [1500, 41, 2049].all (fun value => decide (value ≤ (1000000000 : UInt64))) = true := by
    decide
  obtain ⟨-, least, error⟩ := agree [1500, 41, 2049] (List.cons_ne_nil _ _)
    (fun value member => of_decide_eq_true (List.all_eq_true.mp small value member)) 50
  have median : NodeProducer.percentile (sortedMs [1500, 41, 2049]) 50 * 10 ^ 6 = 1500 := by
    decide +kernel
  rw [median] at least error
  exact ⟨h, made, median, least, error⟩

end Histogram

end VoiceHotPath
