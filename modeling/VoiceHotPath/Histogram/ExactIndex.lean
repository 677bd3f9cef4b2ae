import VoiceHotPath.Histogram.Merge
import VoiceHotPath.Histogram.Quantiser

/-!
# The index of every sample

What the constructor builds counts every value of its range, in a bucket whose
ends bracket it, and every sample either there or as an overflow.
-/

namespace VoiceHotPath

namespace Histogram

open BucketLayout

/-- The tallies are those of the intervals of a scale, over a range of values. -/
structure Tallied (h : Histogram) (scale : LogLinear) (highestTrackable : UInt64) : Prop where
  scaled : h.layout.Scaled scale
  covers : highestTrackable.toNat < scale.lower h.counts.length
  words : scale.lower h.counts.length ≤ 2 ^ 64

variable {h : Histogram} {scale : LogLinear} {highestTrackable lowestDiscernible : UInt64}

/-- The constructor's loop ends, and what it builds is tallied. -/
theorem make_tallied (digits : Nat)
    (narrow : unitMagnitudeOf lowestDiscernible + subBucketMagnitudeOf digits ≤ 63) :
    ∃ h, make highestTrackable digits lowestDiscernible = some h ∧
      h.Tallied (scaleOf digits lowestDiscernible) highestTrackable := by
  have scaled := scaled_make digits lowestDiscernible narrow
  obtain ⟨size, sized, covers, words⟩ := scaled.countsSize_spec highestTrackable
  refine ⟨_, make_of_countsSize sized, scaled, ?_, ?_⟩
  · rw [List.length_replicate]
    exact covers
  · rw [List.length_replicate]
    exact words

theorem Tallied.enterAll (tallied : h.Tallied scale highestTrackable) (samples : List Sample) :
    (h.enterAll samples).Tallied scale highestTrackable := by
  obtain ⟨scaled, covers, words⟩ := tallied
  rw [enterAll_eq]
  refine ⟨?_, ?_, ?_⟩
  · rw [layout_recordAll]
    exact scaled
  · rw [length_counts_recordAll]
    exact covers
  · rw [length_counts_recordAll]
    exact words

theorem Tallied.indexOf_eq (tallied : h.Tallied scale highestTrackable) (value : UInt64) :
    h.indexOf value = scale.index value.toNat :=
  tallied.scaled.toNat_countsIndex value

/-- A value of the range has an index. -/
theorem Tallied.inRange (tallied : h.Tallied scale highestTrackable) {value : UInt64}
    (tracked : value ≤ highestTrackable) : h.indexOf value < h.counts.length := by
  rw [tallied.indexOf_eq, scale.index_lt_iff]
  exact Nat.lt_of_le_of_lt (UInt64.le_iff_toNat_le.mp tracked) tallied.covers

/-- The interval of an index is one of words. -/
theorem Tallied.lower_lt (tallied : h.Tallied scale highestTrackable) {i : Nat}
    (inside : i < h.counts.length) : scale.lower i < 2 ^ 64 :=
  Nat.lt_of_lt_of_le (scale.strictMono_lower inside) tallied.words

/-- What the index promises for every value and every count. -/
structure ExactIndex (h : Histogram) (highestTrackable : UInt64) : Prop where
  monotone : ∀ v w, v ≤ w → h.layout.countsIndex v ≤ h.layout.countsIndex w
  inverse : ∀ i : UInt64, i.toNat < h.counts.length →
    h.layout.countsIndex (h.layout.valueFromIndex i) = i
  bracket : ∀ v lowest, h.indexOf v < h.counts.length →
    lowest = h.layout.valueFromIndex (h.layout.countsIndex v) →
      lowest ≤ v ∧ v ≤ h.layout.highestEquivalent lowest ∧
        -- In the integers the upper end is what the words make it.
        (h.layout.highestEquivalent lowest).toNat =
          lowest.toNat + (h.layout.equivalentRange lowest).toNat - 1
  covers : ∀ v ≤ highestTrackable, h.indexOf v < h.counts.length
  counted : ∀ samples v, let g := h.enterAll samples
    ((g.record v).count = g.count + 1 ∧ (g.record v).overflowCount = g.overflowCount) ∨
      ((g.record v).count = g.count ∧ (g.record v).overflowCount = g.overflowCount + 1 ∧
        highestTrackable < v)

theorem Tallied.exactIndex (tallied : h.Tallied scale highestTrackable) :
    h.ExactIndex highestTrackable where
  monotone := fun _ _ le => tallied.scaled.countsIndex_mono le
  inverse := by
    intro i inside
    apply UInt64.toNat_inj.mp
    rw [tallied.scaled.toNat_countsIndex, tallied.scaled.toNat_valueFromIndex
      (tallied.lower_lt inside), scale.index_lower]
  bracket := by
    rintro v lowest inside rfl
    have begins := tallied.scaled.toNat_lowest v
    obtain ⟨highest, range⟩ := tallied.scaled.toNat_highestEquivalent begins
    obtain ⟨above, below⟩ := scale.index_bracket v.toNat
    rw [← scale.lower_succ] at below
    refine ⟨?_, ?_, ?_⟩
    · rw [UInt64.le_iff_toNat_le, begins]
      exact above
    · rw [UInt64.le_iff_toNat_le]
      omega
    · omega
  covers := fun _ tracked => tallied.inRange tracked
  counted := by
    intro samples v
    have after := tallied.enterAll samples
    rcases (h.enterAll samples).record_cases v with ⟨beyond, same⟩ | ⟨-, same⟩
    · right
      rw [same]
      refine ⟨rfl, rfl, UInt64.not_le.mp fun tracked => ?_⟩
      exact Nat.not_lt.mpr beyond (after.inRange tracked)
    · left
      rw [same]
      exact ⟨rfl, rfl⟩

/-- For arguments whose first octave fits in a word, the constructor returns, and its index is
exact.  Digits that are negative shift by a negative count, which the source leaves undefined.  In
the last bucket of all words the sum of `highest_equivalent` wraps to zero, and taking one off it
gives the highest word, which is what the integers give. -/
theorem make_exactIndex (highestTrackable lowestDiscernible : UInt64) {digits : Int}
    (defined : 0 ≤ digits)
    (narrow : unitMagnitudeOf lowestDiscernible + subBucketMagnitudeOf digits ≤ 63) :
    ∃ h, make highestTrackable digits lowestDiscernible = some h ∧
      h.ExactIndex highestTrackable := by
  obtain ⟨d, rfl⟩ := Int.eq_ofNat_of_zero_le defined
  obtain ⟨h, made, tallied⟩ := make_tallied d narrow
  exact ⟨h, made, tallied.exactIndex⟩

/-- A histogram that reaches the highest word, the upper end of its last bucket. -/
theorem make_exactIndex_everyWord :
    ∃ h, make 18446744073709551615 3 1 = some h ∧ h.ExactIndex 18446744073709551615 ∧
      let lowest := h.layout.valueFromIndex (h.layout.countsIndex 18446744073709551615)
      lowest + h.layout.equivalentRange lowest = 0 ∧
        h.layout.highestEquivalent lowest = 18446744073709551615 := by
  obtain ⟨h, made, exact⟩ :=
    make_exactIndex 18446744073709551615 1 (by decide : (0 : Int) ≤ 3) (by decide +kernel)
  have layout : h.layout = .make 3 1 := by
    obtain ⟨size, -, rfl⟩ := Option.map_eq_some_iff.mp made
    rfl
  refine ⟨h, made, exact, ?_⟩
  rw [layout]
  decide +kernel

end Histogram

end VoiceHotPath
