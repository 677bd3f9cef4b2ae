import VoiceHotPath.Histogram.ExactIndex
import VoiceHotPath.Lib.OrderStatistic

/-!
# Percentiles are order statistics

The running total of the scan first reaches a rank in the interval of the
sample of that rank, and the upper end of this interval, clamped to the maximum,
is within the promised error of the sample.
-/

namespace VoiceHotPath

namespace Histogram

open BucketLayout OrderStatistic

/-- The highest value of a tally, but none above the maximum. -/
def reading (h : Histogram) (i : Nat) : UInt64 :=
  let highest := h.layout.highestEquivalent (h.layout.valueFromIndex (UInt64.ofNat i))
  if h.maxValue < highest then h.maxValue else highest

/-- The scan of `value_at_percentile`, over the counts from an index on. -/
def scanFrom (h : Histogram) (target : Nat) : List Nat → Nat → Nat → UInt64
  | [], _, _ => h.maxValue
  | count :: counts, i, running =>
      if target ≤ running + count ∧ count ≠ 0 then h.reading i
      else h.scanFrom target counts (i + 1) (running + count)

def scan (h : Histogram) (target : Nat) : UInt64 :=
  h.scanFrom target h.counts 0 0

/-- `value_at_percentile`, with the rank computed exactly. -/
def valueAtPercentile (h : Histogram) (percentile : ℚ) : UInt64 :=
  if h.total = 0 then 0
  else h.scan ⌈max 0 (min percentile 100) / 100 * h.total⌉₊

/-! ## The counts and the maximum of a run -/

section

variable {h : Histogram} {value : UInt64} {values : List UInt64}

theorem getElem?_counts_record (h : Histogram) (value : UInt64) (i : Nat) :
    (h.record value).counts[i]? =
      h.counts[i]?.map (· + if h.indexOf value = i then 1 else 0) := by
  rcases h.record_cases value with ⟨beyond, same⟩ | ⟨-, same⟩
  · rw [same]
    dsimp only
    by_cases here : i < h.counts.length
    · have apart : ¬ h.indexOf value = i := by omega
      simp [apart]
    · rw [List.getElem?_eq_none (Nat.not_lt.mp here)]
      rfl
  · rw [same]
    dsimp only
    rw [List.getElem?_modify]
    by_cases here : h.indexOf value = i
    · simp [here]
    · cases h.counts[i]? <;> simp [here]

theorem getElem?_counts_recordAll (h : Histogram) (values : List UInt64) (i : Nat) :
    (h.recordAll values).counts[i]? =
      h.counts[i]?.map (· + values.countP fun value => h.indexOf value == i) := by
  induction values generalizing h with
  | nil => simp
  | cons value values ih =>
      rw [recordAll_cons, ih, getElem?_counts_record, Option.map_map, List.countP_cons]
      simp only [indexOf_record, beq_iff_eq]
      congr 1
      funext count
      exact (Nat.add_right_comm _ _ _).trans (Nat.add_assoc _ _ _)

/-- Values in range are all counted. -/
theorem total_recordAll (inRange : ∀ value ∈ values, h.indexOf value < h.counts.length) :
    (h.recordAll values).total = h.total + values.length := by
  induction values generalizing h with
  | nil => rfl
  | cons value values ih =>
      obtain ⟨first, rest⟩ := List.forall_mem_cons.mp inRange
      have counted : (h.record value).total = h.total + 1 := by
        rcases h.record_cases value with ⟨beyond, -⟩ | ⟨-, same⟩
        · exact absurd first (Nat.not_lt.mpr beyond)
        · rw [same]
      rw [recordAll_cons, ih, counted, List.length_cons, Nat.add_assoc, Nat.add_comm 1]
      simpa using rest

theorem maxValue_le_record (h : Histogram) (value : UInt64) :
    h.maxValue ≤ (h.record value).maxValue := by
  rcases h.record_cases value with ⟨-, same⟩ | ⟨-, same⟩
  · rw [same]
    exact UInt64.le_refl _
  · rw [same]
    dsimp only
    split
    · exact UInt64.le_of_lt ‹_›
    · exact UInt64.le_refl _

theorem maxValue_le_recordAll (h : Histogram) (values : List UInt64) :
    h.maxValue ≤ (h.recordAll values).maxValue := by
  induction values generalizing h with
  | nil => exact UInt64.le_refl _
  | cons value values ih => exact UInt64.le_trans (h.maxValue_le_record value) (ih _)

theorem le_maxValue_of_recorded (member : value ∈ values)
    (inRange : h.indexOf value < h.counts.length) : value ≤ (h.recordAll values).maxValue := by
  induction values generalizing h with
  | nil => cases member
  | cons first values ih =>
      rw [recordAll_cons]
      rcases List.mem_cons.mp member with rfl | later
      · exact UInt64.le_trans (le_maxValue_record inRange) (maxValue_le_recordAll _ _)
      · apply ih later
        rw [indexOf_record, length_counts_record]
        exact inRange

end

/-- The tallies of a scale hold these values and no others, all of them in their range. -/
structure Holds (h : Histogram) (scale : LogLinear) (values : List UInt64) : Prop where
  scaled : h.layout.Scaled scale
  words : scale.lower h.counts.length ≤ 2 ^ 64
  tallies : Tallies scale.index (values.map UInt64.toNat) h.counts
  inside : ∀ value ∈ values, scale.index value.toNat < h.counts.length
  total : h.total = values.length
  most : ∀ value ∈ values, value ≤ h.maxValue

section

variable {h : Histogram} {scale : LogLinear} {highestTrackable : UInt64} {values : List UInt64}

/-- From an unused histogram on, values in range are all held. -/
theorem Tallied.holds (tallied : h.Tallied scale highestTrackable)
    (unused : h.counts = List.replicate h.counts.length 0) (total : h.total = 0)
    (inRange : ∀ value ∈ values, h.indexOf value < h.counts.length) :
    (h.recordAll values).Holds scale values := by
  refine ⟨?_, ?_, ?_, ?_, ?_, ?_⟩
  · rw [layout_recordAll]
    exact tallied.scaled
  · rw [length_counts_recordAll]
    exact tallied.words
  · intro i count here
    rw [getElem?_counts_recordAll, unused, List.getElem?_replicate, Option.map_eq_some_iff] at here
    obtain ⟨none, empty, rfl⟩ := here
    split at empty
    · cases empty
      rw [List.countP_map, Nat.zero_add]
      apply List.countP_congr
      intro value _
      rw [tallied.indexOf_eq]
      rfl
    · cases empty
  · intro value member
    rw [length_counts_recordAll, ← tallied.indexOf_eq]
    exact inRange value member
  · rw [total_recordAll inRange, total, Nat.zero_add]
  · intro value member
    exact le_maxValue_of_recorded member (inRange value member)

theorem Holds.sum_counts (holds : h.Holds scale values) : h.counts.sum = values.length := by
  have all := holds.tallies.sum_take (Nat.le_refl _)
  rw [List.take_length] at all
  rw [all, List.countP_eq_length.mpr, List.length_map]
  intro x member
  obtain ⟨value, recorded, rfl⟩ := List.mem_map.mp member
  exact decide_eq_true (holds.inside value recorded)

/-- The value of an index is where its interval begins. -/
theorem Holds.toNat_valueFromIndex (holds : h.Holds scale values) {i : Nat}
    (inside : i < h.counts.length) :
    (h.layout.valueFromIndex (UInt64.ofNat i)).toNat = scale.lower i := by
  have word : scale.lower i < 2 ^ 64 :=
    Nat.lt_of_lt_of_le (scale.strictMono_lower inside) holds.words
  have small : (UInt64.ofNat i).toNat = i :=
    UInt64.toNat_ofNat_of_lt' (Nat.lt_of_le_of_lt scale.strictMono_lower.le_apply word)
  rw [← small] at word
  rw [holds.scaled.toNat_valueFromIndex word, small]

theorem Holds.toNat_reading (holds : h.Holds scale values) {i : Nat}
    (inside : i < h.counts.length) :
    (h.reading i).toNat = min (scale.lower (i + 1) - 1) h.maxValue.toNat := by
  obtain ⟨highest, -⟩ := holds.scaled.toNat_highestEquivalent (holds.toNat_valueFromIndex inside)
  rw [← highest, Nat.add_sub_cancel]
  unfold reading
  dsimp only
  split
  · rename_i above
    exact (Nat.min_eq_right (Nat.le_of_lt (UInt64.lt_iff_toNat_lt.mp above))).symm
  · rename_i below
    exact (Nat.min_eq_left (UInt64.le_iff_toNat_le.mp (UInt64.not_lt.mp below))).symm

/-! ## The scan -/

/-- The scan stops where the running total first reaches the rank. -/
theorem scanFrom_eq (h : Histogram) {target : Nat} {counts : List Nat} (i : Nat) {running : Nat}
    (before : running < target) (enough : target ≤ running + counts.sum) :
    ∃ j, j < counts.length ∧ running + (counts.take j).sum < target ∧
      target ≤ running + (counts.take (j + 1)).sum ∧
      h.scanFrom target counts i running = h.reading (i + j) := by
  induction counts generalizing i running with
  | nil =>
      rw [List.sum_nil] at enough
      omega
  | cons count counts ih =>
      rw [scanFrom]
      by_cases reached : target ≤ running + count
      · refine ⟨0, Nat.succ_pos _, before, ?_, if_pos ⟨reached, by omega⟩⟩
        simpa using reached
      · rw [List.sum_cons, ← Nat.add_assoc] at enough
        obtain ⟨j, inside, below, above, same⟩ := ih (i + 1) (Nat.not_le.mp reached) enough
        refine ⟨j + 1, Nat.succ_lt_succ inside, ?_, ?_, ?_⟩
        · rw [List.take_succ_cons, List.sum_cons, ← Nat.add_assoc]
          exact below
        · rw [List.take_succ_cons, List.sum_cons, ← Nat.add_assoc]
          exact above
        · rw [if_neg fun stop => reached stop.1, same, Nat.add_right_comm]
          rfl

/-- The scan reads the tally of the sample of the rank. -/
theorem Holds.scan_eq (holds : h.Holds scale values) {t : Nat} (positive : 1 ≤ t)
    (within : t ≤ values.length) :
    ∃ v, nthSmallest (values.map UInt64.toNat) t = some v ∧
      scale.index v < h.counts.length ∧ h.scan t = h.reading (scale.index v) := by
  have ranked : t ≤ (values.map UInt64.toNat).length := by
    rw [List.length_map]
    exact within
  obtain ⟨v, here⟩ := exists_nthSmallest positive ranked
  rw [← holds.sum_counts] at within
  obtain ⟨j, inside, before, reached, same⟩ := h.scanFrom_eq 0 positive
    (within.trans (Nat.zero_add _).ge)
  rw [Nat.zero_add] at before reached same
  have rank := holds.tallies.index_nthSmallest (fun _ _ le => scale.index_mono le) positive here
    inside before reached
  refine ⟨v, here, ?_, ?_⟩
  · rw [rank]
    exact inside
  · rw [rank]
    exact same

/-! ## Percentiles are order statistics within the promised error -/

/-- What the scan promises for the values recorded. -/
structure OrderStatistics (h : Histogram) (values : List UInt64) (digits : Int) : Prop where
  within : ∀ t, 1 ≤ t → t ≤ values.length →
    ∃ v, nthSmallest (values.map UInt64.toNat) t = some v ∧
      v ≤ (h.scan t).toNat ∧ h.scan t ≤ h.max ∧
      ((h.scan t).toNat : ℚ) - v ≤ v * 10 ^ (-digits)
  monotone : ∀ s t, 1 ≤ s → s ≤ t → t ≤ values.length → h.scan s ≤ h.scan t

/-- Beyond a sample, its interval is a fraction of it. -/
theorem reach_le {d v reach : Nat} (unit : scale.unit = 0) (resolved : 10 ^ d ≤ 2 ^ scale.half)
    (least : v ≤ reach) (most : reach < scale.lower (scale.index v + 1)) :
    ((reach : ℚ) - v) ≤ v * 10 ^ (-(d : Int)) := by
  obtain ⟨above, -⟩ := scale.index_bracket v
  rw [scale.lower_succ] at most
  have power : (0 : ℚ) < 10 ^ d := by positivity
  rw [zpow_neg, zpow_natCast, ← div_eq_mul_inv, le_div_iff₀ power, ← Nat.cast_sub least]
  rcases scale.width_le (scale.index v) with first | later
  · rw [unit, Nat.pow_zero] at first
    have none : reach - v = 0 := by omega
    rw [none]
    simp
  · have fraction : (reach - v) * 10 ^ d ≤ v := by
      calc
        (reach - v) * 10 ^ d ≤ scale.width (scale.index v) * 2 ^ scale.half :=
          Nat.mul_le_mul (by omega) resolved
        _ ≤ v := by
          rw [Nat.mul_comm]
          exact later.trans above
    exact_mod_cast fraction

theorem Holds.orderStatistics {d : Nat} (holds : h.Holds scale values) (unit : scale.unit = 0)
    (resolved : 10 ^ d ≤ 2 ^ scale.half) : h.OrderStatistics values d where
  within := by
    intro t positive within
    obtain ⟨v, here, inside, same⟩ := holds.scan_eq positive within
    obtain ⟨value, recorded, rfl⟩ := List.mem_map.mp (mem_of_nthSmallest here)
    have reading := holds.toNat_reading inside
    have below := (scale.index_bracket value.toNat).2
    rw [← scale.lower_succ] at below
    have most := UInt64.le_iff_toNat_le.mp (holds.most value recorded)
    have least : value.toNat ≤ (h.scan t).toNat := by
      rw [same, reading]
      omega
    refine ⟨value.toNat, here, least, ?_, reach_le unit resolved least ?_⟩
    · rw [same, UInt64.le_iff_toNat_le, reading]
      exact Nat.min_le_right _ _
    · rw [same, reading]
      omega
  monotone := by
    intro s t positive earlier within
    obtain ⟨v, first, insideV, scanV⟩ := holds.scan_eq positive (earlier.trans within)
    obtain ⟨w, second, insideW, scanW⟩ := holds.scan_eq (positive.trans earlier) within
    have ranks := scale.index_mono (nthSmallest_mono earlier first second)
    have ends := scale.strictMono_lower.monotone (Nat.succ_le_succ ranks)
    rw [scanV, scanW, UInt64.le_iff_toNat_le, holds.toNat_reading insideV,
      holds.toNat_reading insideW]
    exact min_le_min_right _ (Nat.sub_le_sub_right ends 1)

end

/-- What the constructor builds for units of one holds every list of values in range. -/
theorem make_holds (highestTrackable : UInt64) (digits : Nat)
    (narrow : subBucketMagnitudeOf digits ≤ 63) :
    ∃ h, make highestTrackable digits 1 = some h ∧
      (∀ value ≤ highestTrackable, h.indexOf value < h.counts.length) ∧
      ∀ values, (∀ value ∈ values, h.indexOf value < h.counts.length) →
        (h.recordAll values).Holds (scaleOf digits 1) values := by
  have unit : unitMagnitudeOf 1 = 0 := by decide
  have built : ∃ h, make highestTrackable digits 1 = some h ∧
      h.Tallied (scaleOf digits 1) highestTrackable := make_tallied digits (by omega)
  obtain ⟨h, made, tallied⟩ := built
  obtain ⟨unused, total, -⟩ := make_unused made
  exact ⟨h, made, fun _ tracked => tallied.inRange tracked,
    fun _ inRange => tallied.holds unused total inRange⟩

/-- The widths of units of one begin at one. -/
theorem scaleOf_unit (digits : Nat) : (scaleOf digits 1).unit = 0 :=
  (by decide : unitMagnitudeOf 1 = 0)

/-- What the constructor builds reads every rank within the promised error. -/
theorem make_orderStatistics (highestTrackable : UInt64) {digits : Int} (defined : 0 ≤ digits)
    (narrow : subBucketMagnitudeOf digits ≤ 63) :
    ∃ h, make highestTrackable digits 1 = some h ∧
      ∀ values, (∀ value ∈ values, value ≤ highestTrackable) →
        (h.recordAll values).OrderStatistics values digits := by
  obtain ⟨d, rfl⟩ := Int.eq_ofNat_of_zero_le defined
  obtain ⟨h, made, covered, holds⟩ := make_holds highestTrackable d narrow
  refine ⟨h, made, fun values tracked => ?_⟩
  have held := holds values fun value member => covered value (tracked value member)
  exact held.orderStatistics (scaleOf_unit d) (digits_le_half d 1)

/-- The default histogram, which reaches a minute in nanoseconds. -/
theorem make_orderStatistics_default :
    ∃ h, make 60000000000 3 1 = some h ∧
      (h.recordAll [1500, 41, 2049]).OrderStatistics [1500, 41, 2049] 3 := by
  have defined : (0 : Int) ≤ 3 := by decide
  obtain ⟨h, made, promised⟩ := make_orderStatistics 60000000000 defined (by decide +kernel)
  have small :
      [1500, 41, 2049].all (fun value => decide (value ≤ (60000000000 : UInt64))) = true := by
    decide
  exact ⟨h, made, promised _ fun value member =>
    of_decide_eq_true (List.all_eq_true.mp small value member)⟩

end Histogram

end VoiceHotPath
