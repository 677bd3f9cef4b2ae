import VoiceHotPath.Histogram.Backfill

/-!
# Merging histograms

Merging is recording the union when the layouts are the same.  The guard of
`merge` compares sizes alone, and lets histograms of other layouts through.
-/

namespace VoiceHotPath

/-- A call of one of the two recording functions. -/
inductive Sample where
  | record (value : UInt64)
  | recordWithExpectedInterval (value interval : UInt64)
  deriving DecidableEq, Repr

namespace Histogram

def enter (h : Histogram) : Sample → Histogram
  | .record value => h.record value
  | .recordWithExpectedInterval value interval => h.recordWithExpectedInterval value interval

def enterAll (h : Histogram) (samples : List Sample) : Histogram :=
  samples.foldl enter h

/-- The layouts agree, and so do the sizes of the tallies. -/
def SameLayout (h other : Histogram) : Prop :=
  h.layout = other.layout ∧ h.counts.length = other.counts.length

end Histogram

/-- The values a call records. -/
def Sample.values : Sample → List UInt64
  | .record value => [value]
  | .recordWithExpectedInterval value interval =>
      if interval = 0 then [value] else Histogram.withMissed value interval

theorem Sample.values_ne_nil (sample : Sample) : sample.values ≠ [] := by
  cases sample with
  | record value => exact List.cons_ne_nil _ _
  | recordWithExpectedInterval value interval =>
      rw [values]
      split
      · exact List.cons_ne_nil _ _
      · exact List.cons_ne_nil _ _

namespace Histogram

theorem enter_eq (h : Histogram) (sample : Sample) :
    h.enter sample = h.recordAll sample.values := by
  cases sample with
  | record value => rfl
  | recordWithExpectedInterval value interval =>
      rw [enter, Sample.values, recordWithExpectedInterval_eq]
      split
      · rename_i zero
        rw [zero, withMissed_zero]
      · rfl

theorem enterAll_eq (h : Histogram) (samples : List Sample) :
    h.enterAll samples = h.recordAll (samples.flatMap Sample.values) := by
  induction samples generalizing h with
  | nil => rfl
  | cons sample samples ih =>
      rw [List.flatMap_cons, recordAll_append, ← enter_eq, ← ih]
      rfl

/-! ## Recording commutes with merging -/

theorem zipWith_add_modify (xs ys : List Nat) (i : Nat) :
    List.zipWith (· + ·) xs (ys.modify i (· + 1)) =
      (List.zipWith (· + ·) xs ys).modify i (· + 1) := by
  induction xs generalizing ys i with
  | nil => rw [List.zipWith_nil_left, List.zipWith_nil_left, List.modify_nil]
  | cons x xs ih =>
      cases ys with
      | nil => rw [List.modify_nil, List.zipWith_nil_right, List.modify_nil]
      | cons y ys =>
          cases i with
          | zero => rfl
          | succ i => exact congrArg _ (ih ys i)

theorem zipWith_add_replicate (xs : List Nat) :
    List.zipWith (· + ·) xs (List.replicate xs.length 0) = xs := by
  induction xs with
  | nil => rfl
  | cons x xs ih => exact congrArg _ ih

section

variable {h other : Histogram}

/-- The maximum of no samples is zero. -/
def Grounded (h : Histogram) : Prop :=
  h.total = 0 → h.maxValue = 0

theorem Grounded.record (grounded : h.Grounded) (value : UInt64) : (h.record value).Grounded := by
  rcases h.record_cases value with ⟨-, same⟩ | ⟨-, same⟩
  · rw [same]
    exact grounded
  · rw [same]
    exact fun none => absurd none (Nat.succ_ne_zero _)

theorem merge_of_sameSize (sized : other.counts.length = h.counts.length) :
    (h.merge other).layout = h.layout ∧
      (h.merge other).counts = List.zipWith (· + ·) h.counts other.counts ∧
      (h.merge other).total = h.total + other.total ∧
      (h.merge other).overflow = h.overflow + other.overflow ∧
      (h.merge other).maxValue =
        (if other.total = 0 then h.maxValue
        else if h.maxValue < other.maxValue then other.maxValue else h.maxValue) ∧
      (h.merge other).minValue =
        (if other.total = 0 then h.minValue
        else if h.total + other.total = other.total then other.minValue
        else if other.minValue < h.minValue then other.minValue else h.minValue) := by
  unfold merge
  rw [if_neg (not_not_intro sized)]
  dsimp only
  split
  · exact ⟨rfl, rfl, rfl, rfl, rfl, rfl⟩
  · exact ⟨rfl, rfl, rfl, rfl, rfl, rfl⟩

/-- Of three values, the least is the same whichever two are compared first. -/
theorem least_assoc (a b v : UInt64) :
    (if (if v < b then v else b) < a then (if v < b then v else b) else a) =
      if v < (if b < a then b else a) then v else if b < a then b else a := by
  simp only [UInt64.lt_iff_toNat_lt]
  grind

theorem greatest_assoc (a b v : UInt64) :
    (if a < (if b < v then v else b) then (if b < v then v else b) else a) =
      if (if a < b then b else a) < v then v else if a < b then b else a := by
  simp only [UInt64.lt_iff_toNat_lt]
  grind

/-- The minimum of a merge and one more sample. -/
theorem merged_min (m n : Nat) (a b v : UInt64) :
    (if m + (n + 1) = n + 1 then (if n + 1 = 1 ∨ v < b then v else b)
      else if (if n + 1 = 1 ∨ v < b then v else b) < a then (if n + 1 = 1 ∨ v < b then v else b)
      else a) =
      if m + n + 1 = 1 ∨ v < (if n = 0 then a else if m + n = n then b else if b < a then b else a)
      then v else if n = 0 then a else if m + n = n then b else if b < a then b else a := by
  by_cases first : n = 0
  · subst first
    by_cases none : m = 0
    · simp [none]
    · simp [none]
  · by_cases none : m = 0
    · simp [none, first]
    · simpa [none, first] using least_assoc a b v

/-- Step lemma: a sample of the other histogram is one of the merged histogram. -/
theorem merge_record (same : h.SameLayout other) (grounded : other.Grounded) (value : UInt64) :
    h.merge (other.record value) = (h.merge other).record value := by
  obtain ⟨layout, sized⟩ := same
  obtain ⟨layout', counts', total', overflow', maxValue', minValue'⟩ := merge_of_sameSize sized.symm
  have after := merge_of_sameSize ((length_counts_record other value).trans sized.symm)
  have index : (h.merge other).indexOf value = other.indexOf value := by
    rw [indexOf, layout', layout]
    rfl
  have length : (h.merge other).counts.length = other.counts.length := by
    rw [counts', List.length_zipWith, sized, Nat.min_self]
  have merged := (h.merge other).record_cases value
  rw [index, length] at merged
  rcases other.record_cases value with ⟨beyond, recorded⟩ | ⟨inside, recorded⟩
  · obtain ⟨-, merged⟩ := merged.resolve_right fun inside => Nat.not_lt.mpr beyond inside.1
    rw [merged]
    rw [recorded] at after ⊢
    obtain ⟨layoutA, countsA, totalA, overflowA, maxValueA, minValueA⟩ := after
    apply Histogram.ext
    · exact layoutA.trans layout'.symm
    · exact countsA.trans counts'.symm
    · exact totalA.trans total'.symm
    · rw [overflowA, overflow']
      exact (Nat.add_assoc _ _ _).symm
    · exact minValueA.trans minValue'.symm
    · exact maxValueA.trans maxValue'.symm
  · obtain ⟨-, merged⟩ := merged.resolve_left fun beyond => Nat.not_lt.mpr beyond.1 inside
    rw [merged]
    rw [recorded] at after ⊢
    obtain ⟨layoutA, countsA, totalA, overflowA, maxValueA, minValueA⟩ := after
    rw [if_neg (Nat.succ_ne_zero _)] at maxValueA minValueA
    apply Histogram.ext
    · exact layoutA.trans layout'.symm
    · rw [countsA, counts']
      exact zipWith_add_modify _ _ _
    · rw [totalA, total']
      exact (Nat.add_assoc _ _ _).symm
    · exact overflowA.trans overflow'.symm
    · rw [minValueA, minValue', total']
      exact merged_min h.total other.total h.minValue other.minValue value
    · rw [maxValueA, maxValue']
      by_cases none : other.total = 0
      · rw [if_pos none, grounded none]
        have zero : (if 0 < value then value else 0) = value := by
          split
          · rfl
          · rename_i notPos
            exact (UInt64.le_zero_iff.mp (UInt64.not_lt.mp notPos)).symm
        rw [zero]
      · rw [if_neg none]
        exact greatest_assoc h.maxValue other.maxValue value

/-- Run lemma: the samples of the other histogram are samples of the merged histogram. -/
theorem merge_recordAll (same : h.SameLayout other) (grounded : other.Grounded)
    (values : List UInt64) :
    h.merge (other.recordAll values) = (h.merge other).recordAll values := by
  induction values generalizing other with
  | nil => rfl
  | cons value values ih =>
      have kept : h.SameLayout (other.record value) := by
        refine ⟨?_, ?_⟩
        · rw [layout_record]
          exact same.1
        · rw [length_counts_record]
          exact same.2
      rw [recordAll_cons, recordAll_cons, ih kept (grounded.record value),
        merge_record same grounded]

/-- The constructor leaves nothing recorded. -/
theorem make_unused {highestTrackable lowestDiscernible : UInt64} {significantDigits : Int}
    (made : make highestTrackable significantDigits lowestDiscernible = some h) :
    h.counts = List.replicate h.counts.length 0 ∧ h.total = 0 ∧ h.overflow = 0 ∧
      h.maxValue = 0 ∧ h.minValue = 0 := by
  obtain ⟨size, -, rfl⟩ := Option.map_eq_some_iff.mp made
  exact ⟨by rw [List.length_replicate], rfl, rfl, rfl, rfl⟩

/-- Merging nothing changes nothing. -/
theorem merge_unused (unused : other.counts = List.replicate h.counts.length 0)
    (total : other.total = 0) (overflow : other.overflow = 0) : h.merge other = h := by
  have sized : other.counts.length = h.counts.length := by
    rw [unused, List.length_replicate]
  obtain ⟨layout', counts', total', overflow', maxValue', minValue'⟩ := merge_of_sameSize sized
  rw [if_pos total] at maxValue' minValue'
  apply Histogram.ext
  · exact layout'
  · rw [counts', unused]
    exact zipWith_add_replicate _
  · rw [total', total]
    rfl
  · rw [overflow', overflow]
    rfl
  · exact minValue'
  · exact maxValue'

theorem sameLayout_enterAll (h other : Histogram) (samples samples' : List Sample) :
    (h.enterAll samples).SameLayout (other.enterAll samples') ↔ h.SameLayout other := by
  rw [enterAll_eq, enterAll_eq, SameLayout, SameLayout, layout_recordAll, layout_recordAll,
    length_counts_recordAll, length_counts_recordAll]

/-- The merge is the union of the samples, or the layouts differ and it is refused. -/
def Merges (h other : Histogram) (samples : List Sample) : Prop :=
  (h.SameLayout other ∧ h.merge other = h.enterAll samples) ∨
    (¬ h.SameLayout other ∧ h.merge other = h)

section

variable {highestTrackable lowestDiscernible : UInt64} {significantDigits : Int}
  (made : make highestTrackable significantDigits lowestDiscernible = some other)

include made

/-- In one layout the merge is the union. -/
theorem merge_of_sameLayout (samples : List Sample) (same : h.SameLayout other) :
    h.merge (other.enterAll samples) = h.enterAll samples := by
  obtain ⟨unused, total, overflow, maxValue, -⟩ := make_unused made
  rw [← same.2] at unused
  rw [enterAll_eq, enterAll_eq, merge_recordAll same (fun _ => maxValue),
    merge_unused unused total overflow]

/-- In another layout of the same size every sample is added all the same. -/
theorem merge_ne_of_sameSize {samples : List Sample} (sized : h.counts.length = other.counts.length)
    (some : samples ≠ []) : h.merge (other.enterAll samples) ≠ h := by
  obtain ⟨-, total, overflow, -⟩ := make_unused made
  intro kept
  have length : (other.enterAll samples).counts.length = h.counts.length := by
    rw [enterAll_eq, length_counts_recordAll]
    exact sized.symm
  obtain ⟨-, -, total', overflow', -, -⟩ := merge_of_sameSize length
  have counted := counted_recordAll other (samples.flatMap Sample.values)
  rw [← enterAll_eq, total, overflow] at counted
  rw [kept] at total' overflow'
  have none : (samples.flatMap Sample.values).length = 0 := by omega
  cases samples with
  | nil => exact some rfl
  | cons sample samples =>
      rw [List.flatMap_cons, List.length_append] at none
      have empty := List.length_eq_zero_iff.mp (Nat.eq_zero_of_add_eq_zero_right none)
      exact sample.values_ne_nil empty

/-- The merge is the union or refused, unless the layouts differ but their sizes do not. -/
theorem merges_iff (h : Histogram) (samples : List Sample) :
    Merges h (other.enterAll samples) samples ↔
      h.SameLayout other ∨ h.counts.length ≠ other.counts.length ∨ samples = [] := by
  have layouts : h.SameLayout (other.enterAll samples) ↔ h.SameLayout other :=
    sameLayout_enterAll h other [] samples
  have length : (other.enterAll samples).counts.length = other.counts.length := by
    rw [enterAll_eq, length_counts_recordAll]
  constructor
  · rintro (⟨same, -⟩ | ⟨differ, kept⟩)
    · exact .inl (layouts.mp same)
    · by_cases sized : h.counts.length = other.counts.length
      · right
        right
        by_contra some
        exact merge_ne_of_sameSize made sized some kept
      · exact .inr (.inl sized)
  · intro condition
    by_cases same : h.SameLayout other
    · exact .inl ⟨layouts.mpr same, merge_of_sameLayout made samples same⟩
    · refine .inr ⟨fun together => same (layouts.mp together), ?_⟩
      by_cases sized : h.counts.length = other.counts.length
      · -- Nothing has been recorded, so nothing is added.
        obtain ⟨unused, total, overflow, -⟩ := make_unused made
        rw [← sized] at unused
        rw [(condition.resolve_left same).resolve_left (not_not_intro sized)]
        exact merge_unused unused total overflow
      · refine if_pos fun equal => sized ?_
        rw [← length, equal]

end

theorem make_of_countsSize {highestTrackable lowestDiscernible : UInt64} {digits : Int} {size : Nat}
    (sized : (BucketLayout.make digits lowestDiscernible).countsSize highestTrackable = some size) :
    make highestTrackable digits lowestDiscernible =
      some { layout := BucketLayout.make digits lowestDiscernible
             counts := List.replicate size 0 } := by
  rw [make, sized, Option.map_some]

/-- Two histograms of one layout, built for different ranges. -/
theorem merges_iff_sameLayout : ∃ h other, make 1000 1 1 = some h ∧ make 1023 1 1 = some other ∧
    Merges h (other.enterAll [.record 900]) [.record 900] := by
  have sized : (BucketLayout.make 1 1).countsSize 1000 = some 112 := by decide +kernel
  have sizedOther : (BucketLayout.make 1 1).countsSize 1023 = some 112 := by decide +kernel
  have other := make_of_countsSize sizedOther
  exact ⟨_, _, make_of_countsSize sized, other, (merges_iff other _ _).mpr (.inl ⟨rfl, rfl⟩)⟩

/-- A histogram counted in units of two is added to one counted in units of one. -/
theorem merged_other_unit : ∃ h other, make 1000 1 1 = some h ∧ make 2000 1 2 = some other ∧
    ¬ Merges h (other.enterAll [.record 1500]) [.record 1500] := by
  have sized : (BucketLayout.make 1 1).countsSize 1000 = some 112 := by decide +kernel
  have sizedOther : (BucketLayout.make 1 2).countsSize 2000 = some 112 := by decide +kernel
  have other := make_of_countsSize sizedOther
  refine ⟨_, _, make_of_countsSize sized, other, ?_⟩
  rintro (⟨same, -⟩ | ⟨-, kept⟩)
  · have units := congrArg BucketLayout.unitMagnitude same.1
    rw [enterAll_eq, layout_recordAll] at units
    have differ :
        (BucketLayout.make 1 1).unitMagnitude ≠ (BucketLayout.make 1 2).unitMagnitude := by
      decide +kernel
    exact differ units
  · refine merge_ne_of_sameSize other ?_ (List.cons_ne_nil _ _) kept
    rfl

end

end Histogram

end VoiceHotPath
