import VoiceHotPath.Histogram.Mean
import VoiceHotPath.Lib.FormattedText

/-!
# The CSV of a histogram

`to_csv` writes the buckets that are not empty.  Recording every value of the text
as often as it says fills the same buckets again, so the text keeps everything that
is computed from them; of the maximum it keeps the bucket alone.
-/

namespace VoiceHotPath

namespace Histogram

open BucketLayout FormattedText

/-- The loop of `to_csv`, over the counts from an index on. -/
def csvRowsFrom (h : Histogram) : List Nat → Nat → List (UInt64 × Nat)
  | [], _ => []
  | count :: counts, i =>
      if count = 0 then h.csvRowsFrom counts (i + 1)
      else (h.layout.valueFromIndex (UInt64.ofNat i), count) :: h.csvRowsFrom counts (i + 1)

def csvRows (h : Histogram) : List (UInt64 × Nat) :=
  h.csvRowsFrom h.counts 0

/-- `"%llu,%llu"`. -/
def csvLine (row : UInt64 × Nat) : List Char :=
  fill [",".toList, []] [Nat.toDigits 10 row.1.toNat, Nat.toDigits 10 row.2]

def csvHeader : List Char :=
  "value,count".toList

/-- `to_csv`. -/
def toCsv (h : Histogram) : List Char :=
  unlines '\n' (csvHeader :: h.csvRows.map csvLine)

/-- The value of each row, as often as it says. -/
def valuesOf (rows : List (UInt64 × Nat)) : List UInt64 :=
  rows.flatMap fun row => List.replicate row.2 row.1

/-! ## The text gives its rows back -/

theorem csvLine_eq (row : UInt64 × Nat) :
    csvLine row = Nat.toDigits 10 row.1.toNat ++ ',' :: Nat.toDigits 10 row.2 := by
  simp [csvLine, fill]

theorem csvLine_injective : Function.Injective csvLine := by
  rintro ⟨value, count⟩ ⟨other, count'⟩ same
  rw [csvLine_eq, csvLine_eq] at same
  obtain ⟨values, counts⟩ := append_cons_inj (notMem_toDigits rfl _) (notMem_toDigits rfl _) same
  obtain rfl := UInt64.toNat_inj.mp (toDigits_injective values)
  obtain rfl := toDigits_injective counts
  rfl

theorem newline_notMem_csv (h : Histogram) : ∀ line ∈ csvHeader :: h.csvRows.map csvLine,
    '\n' ∉ line := by
  intro line member
  rcases List.mem_cons.mp member with rfl | row
  · decide
  · obtain ⟨row, -, rfl⟩ := List.mem_map.mp row
    rw [csvLine_eq, List.mem_append, List.mem_cons]
    rintro (value | comma | count)
    · exact notMem_toDigits rfl _ value
    · cases comma
    · exact notMem_toDigits rfl _ count

theorem toCsv_inj_iff (h other : Histogram) :
    h.toCsv = other.toCsv ↔ h.csvRows = other.csvRows := by
  constructor
  · intro same
    have lines := unlines_inj h.newline_notMem_csv other.newline_notMem_csv same
    exact List.map_injective_iff.mpr csvLine_injective (List.tail_eq_of_cons_eq lines)
  · intro same
    rw [toCsv, toCsv, same]

/-! ## The rows give the counts back -/

section

variable {h : Histogram} {scale : LogLinear} {highestTrackable : UInt64}

theorem Tallied.indexOf_valueFromIndex (tallied : h.Tallied scale highestTrackable) {i : Nat}
    (inside : i < h.counts.length) :
    h.indexOf (h.layout.valueFromIndex (UInt64.ofNat i)) = i := by
  have word := tallied.lower_lt inside
  have small : (UInt64.ofNat i).toNat = i :=
    UInt64.toNat_ofNat_of_lt' (Nat.lt_of_le_of_lt scale.strictMono_lower.le_apply word)
  have exact := tallied.exactIndex.inverse (UInt64.ofNat i) (small.symm ▸ inside)
  rw [indexOf, exact, small]

/-- The rows depend on the layout and the counts alone. -/
theorem csvRowsFrom_congr {a : Histogram} (layout : a.layout = h.layout) (counts : List Nat)
    (i : Nat) : a.csvRowsFrom counts i = h.csvRowsFrom counts i := by
  induction counts generalizing i with
  | nil => rfl
  | cons count counts ih => rw [csvRowsFrom, csvRowsFrom, ih, layout]

/-- A bucket contributes its value as often as it was counted, an empty one not at all. -/
theorem valuesOf_csvRowsFrom_cons (h : Histogram) (count : Nat) (counts : List Nat) (i : Nat) :
    valuesOf (h.csvRowsFrom (count :: counts) i) =
      List.replicate count (h.layout.valueFromIndex (UInt64.ofNat i)) ++
        valuesOf (h.csvRowsFrom counts (i + 1)) := by
  rw [csvRowsFrom]
  split
  · rename_i empty
    rw [empty]
    rfl
  · rfl

/-- The values of the rows are those of buckets that are not empty. -/
theorem mem_valuesOf (h : Histogram) {counts : List Nat} {i : Nat} {value : UInt64}
    (member : value ∈ valuesOf (h.csvRowsFrom counts i)) :
    ∃ j count, counts[j]? = some count ∧ count ≠ 0 ∧
      value = h.layout.valueFromIndex (UInt64.ofNat (i + j)) := by
  induction counts generalizing i with
  | nil => cases member
  | cons count counts ih =>
      rw [valuesOf_csvRowsFrom_cons, List.mem_append, List.mem_replicate] at member
      rcases member with ⟨counted, here⟩ | later
      · exact ⟨0, count, rfl, counted, here⟩
      · obtain ⟨j, count, there, counted, same⟩ := ih later
        refine ⟨j + 1, count, there, counted, ?_⟩
        rw [same, Nat.add_assoc, Nat.add_comm 1]

/-- Of the values of the rows, those of an index are as many as were counted there. -/
theorem Tallied.countP_valuesOf (tallied : h.Tallied scale highestTrackable) (counts : List Nat)
    {i : Nat} (inside : i + counts.length ≤ h.counts.length) (j : Nat) :
    (valuesOf (h.csvRowsFrom counts i)).countP (fun value => h.indexOf value == j) =
      if i ≤ j then counts.getD (j - i) 0 else 0 := by
  induction counts generalizing i with
  | nil => simp [csvRowsFrom, valuesOf]
  | cons count counts ih =>
      rw [List.length_cons] at inside
      have later := ih (i := i + 1) (by omega)
      have here := tallied.indexOf_valueFromIndex (show i < h.counts.length by omega)
      rw [valuesOf_csvRowsFrom_cons, List.countP_append, later, List.countP_replicate, here]
      rcases Nat.lt_trichotomy j i with before | rfl | after
      · have apart : ¬ i ≤ j := by omega
        have apart' : ¬ i + 1 ≤ j := by omega
        have other : ¬ i = j := by omega
        simp [apart, apart', other]
      · simp
      · obtain ⟨k, rfl⟩ : ∃ k, j = i + 1 + k := ⟨j - (i + 1), by omega⟩
        have past : i + 1 + k - i = k + 1 := by omega
        have other : ¬ i = i + 1 + k := by omega
        have reached : i ≤ i + 1 + k := by omega
        simp [past, other, reached]

/-- Recording the values of the rows fills the buckets of an unused histogram as they were. -/
theorem Tallied.counts_replay (tallied : h.Tallied scale highestTrackable)
    (unused : h.counts = List.replicate h.counts.length 0) {a : Histogram}
    (layout : a.layout = h.layout) (sized : a.counts.length = h.counts.length) :
    (h.recordAll (valuesOf a.csvRows)).counts = a.counts := by
  apply List.ext_getElem?
  intro j
  rw [getElem?_counts_recordAll, csvRows, csvRowsFrom_congr layout,
    tallied.countP_valuesOf a.counts (by omega), if_pos (Nat.zero_le j), Nat.sub_zero, unused,
    List.getElem?_replicate]
  by_cases inside : j < h.counts.length
  · rw [if_pos inside, Option.map_some, Nat.zero_add]
    rw [← sized] at inside
    rw [List.getD_eq_getElem?_getD, List.getElem?_eq_getElem inside, Option.getD_some]
  · rw [if_neg inside, Option.map_none]
    rw [← sized] at inside
    exact (List.getElem?_eq_none (Nat.not_lt.mp inside)).symm

/-! ## What is computed from the counts -/

theorem sum_modify_succ {counts : List Nat} {i : Nat} (inside : i < counts.length) :
    (counts.modify i (· + 1)).sum = counts.sum + 1 := by
  induction counts generalizing i with
  | nil => cases inside
  | cons count counts ih =>
      cases i with
      | zero => exact Nat.add_right_comm count 1 counts.sum
      | succ i =>
          rw [List.modify_succ_cons, List.sum_cons, ih (Nat.lt_of_succ_lt_succ inside),
            List.sum_cons, Nat.add_assoc]

/-- The total of a histogram is that of its counts. -/
theorem total_recordAll_eq_sum (values : List UInt64) (summed : h.total = h.counts.sum) :
    (h.recordAll values).total = (h.recordAll values).counts.sum := by
  induction values generalizing h with
  | nil => exact summed
  | cons value values ih =>
      rw [recordAll_cons]
      apply ih
      rcases h.record_cases value with ⟨-, same⟩ | ⟨inside, same⟩
      · rw [same]
        exact summed
      · rw [same]
        dsimp only
        rw [summed, sum_modify_succ inside]

theorem toNat_reading_eq_min (h : Histogram) (i : Nat) :
    (h.reading i).toNat =
      min (h.layout.highestEquivalent (h.layout.valueFromIndex (UInt64.ofNat i))).toNat
        h.maxValue.toNat := by
  unfold reading
  dsimp only
  split
  · exact (Nat.min_eq_right (Nat.le_of_lt (UInt64.lt_iff_toNat_lt.mp ‹_›))).symm
  · exact (Nat.min_eq_left (UInt64.le_iff_toNat_le.mp (UInt64.not_lt.mp ‹_›))).symm

/-- The scan over the same counts with a smaller maximum is clamped to it. -/
theorem scanFrom_of_le {a : Histogram} (layout : h.layout = a.layout)
    (most : h.maxValue ≤ a.maxValue) (target : Nat) (counts : List Nat) (i running : Nat) :
    (h.scanFrom target counts i running).toNat =
      min (a.scanFrom target counts i running).toNat h.maxValue.toNat := by
  have order := UInt64.le_iff_toNat_le.mp most
  induction counts generalizing i running with
  | nil => exact (Nat.min_eq_right order).symm
  | cons count counts ih =>
      rw [scanFrom, scanFrom]
      split
      · rw [toNat_reading_eq_min, toNat_reading_eq_min, layout, Nat.min_assoc,
          Nat.min_eq_right order]
      · exact ih _ _

/-- With the same counts and a maximum no larger, percentiles are clamped to the maximum. -/
theorem valueAtPercentile_of_counts {a : Histogram} (layout : h.layout = a.layout)
    (counts : h.counts = a.counts) (total : h.total = a.total) (most : h.maxValue ≤ a.maxValue)
    (percentile : ℚ) :
    (h.valueAtPercentile percentile).toNat =
      min (a.valueAtPercentile percentile).toNat h.maxValue.toNat := by
  rw [valueAtPercentile, valueAtPercentile, total]
  split
  · exact (Nat.min_eq_left (Nat.zero_le _)).symm
  · rw [scan, scan, counts]
    exact scanFrom_of_le layout most _ _ _ _

theorem mean_of_counts {a : Histogram} (layout : h.layout = a.layout)
    (counts : h.counts = a.counts) (total : h.total = a.total) : h.mean = a.mean := by
  have sums : h.weightedSum = a.weightedSum := by
    rw [weightedSum, weightedSum, weigh_eq, weigh_eq, counts]
    simp only [medianAt, layout]
  rw [mean, mean, total, sums]

/-- What replaying the rows of `a` into `h` gives back. -/
structure Replays (h a : Histogram) : Prop where
  counts : h.counts = a.counts
  count : h.count = a.count
  overflow : h.overflowCount = 0
  mean : h.mean = a.mean
  max : h.max ≤ a.max
  percentiles : ∀ percentile, (h.valueAtPercentile percentile).toNat =
    min (a.valueAtPercentile percentile).toNat h.max.toNat

theorem maxValue_recordAll_le {values : List UInt64} {most : UInt64} (start : h.maxValue ≤ most)
    (small : ∀ value ∈ values, value ≤ most) : (h.recordAll values).maxValue ≤ most := by
  induction values generalizing h with
  | nil => exact start
  | cons value values ih =>
      obtain ⟨first, rest⟩ := List.forall_mem_cons.mp small
      rw [recordAll_cons]
      apply ih _ rest
      rcases h.record_cases value with ⟨-, same⟩ | ⟨-, same⟩
      · rw [same]
        exact start
      · rw [same]
        dsimp only
        split
        · exact first
        · exact start

/-- Nothing recorded is above the maximum, so neither is the lower end of its bucket. -/
theorem Tallied.lowest_le_max (tallied : h.Tallied scale highestTrackable)
    (unused : h.counts = List.replicate h.counts.length 0) (values : List UInt64) {i count : Nat}
    (here : (h.recordAll values).counts[i]? = some count) (counted : count ≠ 0) :
    h.layout.valueFromIndex (UInt64.ofNat i) ≤ (h.recordAll values).maxValue := by
  rw [getElem?_counts_recordAll, unused, List.getElem?_replicate] at here
  split at here
  · rename_i inside
    rw [Option.map_some, Nat.zero_add] at here
    obtain rfl := Option.some.inj here
    obtain ⟨value, member, index⟩ := List.countP_pos_iff.mp (Nat.pos_of_ne_zero counted)
    rw [beq_iff_eq] at index
    have recorded := le_maxValue_of_recorded member (index.symm ▸ inside)
    refine UInt64.le_trans ?_ recorded
    obtain ⟨lowest, -, -⟩ := tallied.exactIndex.bracket value _ (index.symm ▸ inside) rfl
    have same : h.layout.countsIndex value = UInt64.ofNat i := by
      rw [← index, indexOf, UInt64.ofNat_toNat]
    rw [same] at lowest
    exact lowest
  · cases here

theorem Tallied.replays (tallied : h.Tallied scale highestTrackable)
    (unused : h.counts = List.replicate h.counts.length 0) (total : h.total = 0)
    (overflow : h.overflow = 0) (maxValue : h.maxValue = 0) (values : List UInt64) :
    (h.recordAll (valuesOf (h.recordAll values).csvRows)).Replays (h.recordAll values) := by
  have sized := length_counts_recordAll h values
  have layout := layout_recordAll h values
  have summed : h.total = h.counts.sum := by
    rw [total, unused]
    simp
  have counts := tallied.counts_replay unused layout sized
  have count : (h.recordAll (valuesOf (h.recordAll values).csvRows)).total =
      (h.recordAll values).total := by
    rw [total_recordAll_eq_sum _ summed, total_recordAll_eq_sum _ summed, counts]
  have layouts : (h.recordAll (valuesOf (h.recordAll values).csvRows)).layout =
      (h.recordAll values).layout := by
    rw [layout_recordAll, layout]
  have within : ∀ value ∈ valuesOf (h.recordAll values).csvRows,
      h.indexOf value < h.counts.length ∧ value ≤ (h.recordAll values).maxValue := by
    intro value member
    rw [csvRows, csvRowsFrom_congr layout] at member
    obtain ⟨j, count, here, counted, rfl⟩ := h.mem_valuesOf member
    obtain ⟨inside, -⟩ := List.getElem?_eq_some_iff.mp here
    rw [sized] at inside
    rw [Nat.zero_add]
    refine ⟨?_, tallied.lowest_le_max unused values here counted⟩
    rw [tallied.indexOf_valueFromIndex inside]
    exact inside
  have most : (h.recordAll (valuesOf (h.recordAll values).csvRows)).maxValue ≤
      (h.recordAll values).maxValue := by
    apply maxValue_recordAll_le
    · rw [maxValue]
      exact UInt64.le_iff_toNat_le.mpr (Nat.zero_le _)
    · exact fun value member => (within value member).2
  refine ⟨counts, count, ?_, mean_of_counts layouts counts count, most,
    valueAtPercentile_of_counts layouts counts count most⟩
  have both := counted_recordAll h (valuesOf (h.recordAll values).csvRows)
  rw [total_recordAll fun value member => (within value member).1] at both
  rw [overflowCount]
  omega

/--
The CSV of a histogram tells its counts and nothing else: two runs of one
histogram have the same text exactly if they have the same counts.  Recording the
rows of the text into a new histogram gives the counts, the mean and, up to the
bucket of the maximum, all percentiles back.
-/
theorem csv_replays (highestTrackable lowestDiscernible : UInt64) {digits : Int}
    (defined : 0 ≤ digits)
    (narrow : unitMagnitudeOf lowestDiscernible + subBucketMagnitudeOf digits ≤ 63) :
    ∃ h, make highestTrackable digits lowestDiscernible = some h ∧
      ∀ samples others,
        ((h.enterAll samples).toCsv = (h.enterAll others).toCsv ↔
          (h.enterAll samples).counts = (h.enterAll others).counts) ∧
        (h.recordAll (valuesOf (h.enterAll samples).csvRows)).Replays (h.enterAll samples) := by
  obtain ⟨d, rfl⟩ := Int.eq_ofNat_of_zero_le defined
  obtain ⟨h, made, tallied⟩ : ∃ h, make highestTrackable d lowestDiscernible = some h ∧
      h.Tallied (scaleOf d lowestDiscernible) highestTrackable := make_tallied d narrow
  obtain ⟨unused, total, overflow, maxValue, -⟩ := make_unused made
  have replays : ∀ samples,
      (h.recordAll (valuesOf (h.enterAll samples).csvRows)).Replays (h.enterAll samples) := by
    intro samples
    rw [enterAll_eq]
    exact tallied.replays unused total overflow maxValue _
  refine ⟨h, made, fun samples others => ⟨?_, replays samples⟩⟩
  rw [toCsv_inj_iff]
  constructor
  · intro rows
    rw [← (replays samples).counts, ← (replays others).counts, rows]
  · intro counts
    have layout : (h.enterAll samples).layout = (h.enterAll others).layout := by
      rw [enterAll_eq, enterAll_eq, layout_recordAll, layout_recordAll]
    rw [csvRows, csvRows, csvRowsFrom_congr layout, counts]

/-- The histogram of the transport, which reaches a second in nanoseconds. -/
theorem csv_replays_second :
    ∃ h, make 1000000000 3 1 = some h ∧
      ∀ samples others,
        ((h.enterAll samples).toCsv = (h.enterAll others).toCsv ↔
          (h.enterAll samples).counts = (h.enterAll others).counts) ∧
        (h.recordAll (valuesOf (h.enterAll samples).csvRows)).Replays (h.enterAll samples) :=
  csv_replays 1000000000 1 (by decide) (by decide +kernel)

end

end Histogram

end VoiceHotPath
