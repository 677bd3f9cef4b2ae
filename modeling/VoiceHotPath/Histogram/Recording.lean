import VoiceHotPath.Histogram.Layout

/-!
# Recording into a histogram

The counts and the summary fields after `record`, its coordinated-omission
variant and `merge`.  Samples are counted without a bound: a word would not
wrap in the lifetime of the process.
-/

namespace VoiceHotPath

@[ext] structure Histogram where
  layout : BucketLayout
  counts : List Nat
  total : Nat := 0
  overflow : Nat := 0
  minValue : UInt64 := 0
  maxValue : UInt64 := 0
  deriving DecidableEq, Repr

namespace Histogram

/-- The constructor; nothing if its sizing loop does not end. -/
def make (highestTrackable : UInt64) (significantDigits : Int) (lowestDiscernible : UInt64) :
    Option Histogram :=
  let layout := BucketLayout.make significantDigits lowestDiscernible
  (layout.countsSize highestTrackable).map fun size =>
    { layout := layout, counts := List.replicate size 0 }

/-- Where a value is counted. -/
def indexOf (h : Histogram) (value : UInt64) : Nat :=
  (h.layout.countsIndex value).toNat

def record (h : Histogram) (value : UInt64) : Histogram :=
  if h.counts.length ≤ h.indexOf value then { h with overflow := h.overflow + 1 }
  else
    { h with
      counts := h.counts.modify (h.indexOf value) (· + 1)
      total := h.total + 1
      maxValue := if h.maxValue < value then value else h.maxValue
      minValue := if h.total + 1 = 1 ∨ value < h.minValue then value else h.minValue }

def recordAll (h : Histogram) (values : List UInt64) : Histogram :=
  values.foldl record h

/-- The loop of `record_with_expected_interval`, which runs for an interval that is not zero. -/
def backfill (interval : UInt64) (positive : 0 < interval) (h : Histogram) (missing : UInt64) :
    Histogram :=
  if interval ≤ missing then backfill interval positive (h.record missing) (missing - interval)
  else h
termination_by missing.toNat
decreasing_by
  rename_i enough
  have some := UInt64.lt_iff_toNat_lt.mp positive
  have within := UInt64.le_iff_toNat_le.mp enough
  have none : (0 : UInt64).toNat = 0 := rfl
  rw [UInt64.toNat_sub_of_le _ _ enough]
  omega

def recordWithExpectedInterval (h : Histogram) (value interval : UInt64) : Histogram :=
  if stop : interval = 0 ∨ value ≤ interval then h.record value
  else
    backfill interval (UInt64.pos_iff_ne_zero.mpr fun zero => stop (.inl zero)) (h.record value)
      (value - interval)

def count (h : Histogram) : Nat :=
  h.total

protected def min (h : Histogram) : UInt64 :=
  if h.total = 0 then 0 else h.minValue

protected def max (h : Histogram) : UInt64 :=
  h.maxValue

def overflowCount (h : Histogram) : Nat :=
  h.overflow

def merge (h other : Histogram) : Histogram :=
  if other.counts.length ≠ h.counts.length then h
  else
    let total := h.total + other.total
    let merged :=
      { h with
        counts := List.zipWith (· + ·) h.counts other.counts
        total := total
        overflow := h.overflow + other.overflow }
    if other.total = 0 then merged
    else
      { merged with
        maxValue := if h.maxValue < other.maxValue then other.maxValue else h.maxValue
        minValue :=
          if total = other.total then other.minValue
          else if other.minValue < h.minValue then other.minValue else h.minValue }

/-! ## What a sample does -/

section

variable (h : Histogram) (value : UInt64)

/-- A sample is counted, or it overflows. -/
theorem record_cases :
    (h.counts.length ≤ h.indexOf value ∧ h.record value = { h with overflow := h.overflow + 1 }) ∨
    (h.indexOf value < h.counts.length ∧
      h.record value =
        { h with
          counts := h.counts.modify (h.indexOf value) (· + 1)
          total := h.total + 1
          maxValue := if h.maxValue < value then value else h.maxValue
          minValue := if h.total + 1 = 1 ∨ value < h.minValue then value else h.minValue }) := by
  unfold record
  by_cases beyond : h.counts.length ≤ h.indexOf value
  · exact .inl ⟨beyond, if_pos beyond⟩
  · exact .inr ⟨Nat.not_le.mp beyond, if_neg beyond⟩

@[simp] theorem layout_record : (h.record value).layout = h.layout := by
  unfold record
  split <;> rfl

@[simp] theorem length_counts_record : (h.record value).counts.length = h.counts.length := by
  unfold record
  split
  · rfl
  · exact List.length_modify _ _ _

@[simp] theorem indexOf_record (other : UInt64) :
    (h.record value).indexOf other = h.indexOf other := by
  rw [indexOf, layout_record]
  rfl

/-- Every sample raises one of the two counts by one. -/
theorem counted_record : (h.record value).total + (h.record value).overflow =
    h.total + h.overflow + 1 := by
  rcases h.record_cases value with ⟨-, same⟩ | ⟨-, same⟩
  · rw [same]
    rfl
  · rw [same]
    exact Nat.add_right_comm _ _ _

end

section

variable {h : Histogram} {value : UInt64} {values : List UInt64}

theorem recordAll_cons (h : Histogram) (value : UInt64) (values : List UInt64) :
    h.recordAll (value :: values) = (h.record value).recordAll values :=
  rfl

theorem recordAll_append (h : Histogram) (values later : List UInt64) :
    h.recordAll (values ++ later) = (h.recordAll values).recordAll later :=
  List.foldl_append

@[simp] theorem recordAll_nil (h : Histogram) : h.recordAll [] = h :=
  rfl

@[simp] theorem layout_recordAll (h : Histogram) (values : List UInt64) :
    (h.recordAll values).layout = h.layout := by
  induction values generalizing h with
  | nil => rfl
  | cons value values ih => rw [recordAll_cons, ih, layout_record]

@[simp] theorem length_counts_recordAll (h : Histogram) (values : List UInt64) :
    (h.recordAll values).counts.length = h.counts.length := by
  induction values generalizing h with
  | nil => rfl
  | cons value values ih => rw [recordAll_cons, ih, length_counts_record]

theorem counted_recordAll (h : Histogram) (values : List UInt64) :
    (h.recordAll values).total + (h.recordAll values).overflow =
      h.total + h.overflow + values.length := by
  induction values generalizing h with
  | nil => rfl
  | cons value values ih =>
      rw [recordAll_cons, ih, counted_record, List.length_cons]
      omega

end

end Histogram

end VoiceHotPath
