import Mathlib.Algebra.Order.Group.Nat
import VoiceHotPath.Histogram.Recording

/-!
# The coordinated-omission backfill

The countdown of `record_with_expected_interval` records the samples a stall has
swallowed, an interval apart down to the last that is no shorter than one.
-/

namespace VoiceHotPath

namespace Histogram

/-- The multiples of the interval a stall of this length has swallowed. -/
def missed (value interval : UInt64) : List Nat :=
  List.range' 1 (value.toNat / interval.toNat - 1)

/-- The value and the samples it has swallowed. -/
def withMissed (value interval : UInt64) : List UInt64 :=
  value :: (missed value interval).map fun k => UInt64.ofNat (value.toNat - k * interval.toNat)

section

variable {value interval : UInt64}

theorem mem_missed (positive : 1 ≤ interval.toNat) {k : Nat} :
    k ∈ missed value interval ↔
      1 ≤ k ∧ (interval.toNat : Int) ≤ value.toNat - k * interval.toNat := by
  have quotient := Nat.le_div_iff_mul_le (x := k + 1) (y := value.toNat) positive
  rw [Nat.succ_mul] at quotient
  rw [missed, List.mem_range'_1]
  omega

theorem length_withMissed (value interval : UInt64) :
    (withMissed value interval).length = max 1 (value.toNat / interval.toNat) := by
  rw [withMissed, List.length_cons, List.length_map, missed, List.length_range']
  omega

/-- The countdown from what is left of the value. -/
theorem backfill_eq (positive : 0 < interval) (h : Histogram) (missing : UInt64) :
    backfill interval positive h missing =
      h.recordAll ((List.range (missing.toNat / interval.toNat)).map fun k =>
        UInt64.ofNat (missing.toNat - k * interval.toNat)) := by
  have some : 0 < interval.toNat := UInt64.lt_iff_toNat_lt.mp positive
  induction h, missing using backfill.induct interval positive with
  | case1 h missing enough ih =>
      have within := UInt64.le_iff_toNat_le.mp enough
      rw [backfill, if_pos enough, ih, UInt64.toNat_sub_of_le _ _ enough,
        Nat.div_eq_sub_div some within, List.range_succ_eq_map, List.map_cons, recordAll_cons,
        List.map_map, Nat.zero_mul, Nat.sub_zero, UInt64.ofNat_toNat]
      congr 1
      apply List.map_congr_left
      intro k _
      rw [Function.comp_apply, Nat.succ_mul, Nat.sub_sub, Nat.add_comm]
  | case2 h missing short =>
      have below := UInt64.lt_iff_toNat_lt.mp (UInt64.not_le.mp short)
      rw [backfill, if_neg short, Nat.div_eq_of_lt below]
      rfl

theorem withMissed_zero (value : UInt64) : withMissed value 0 = [value] := by
  rw [withMissed, missed, show (0 : UInt64).toNat = 0 from rfl, Nat.div_zero]
  rfl

/-- Step lemma: the value and the samples it has swallowed are recorded, in this order. -/
theorem recordWithExpectedInterval_eq (h : Histogram) (value interval : UInt64) :
    h.recordWithExpectedInterval value interval = h.recordAll (withMissed value interval) := by
  by_cases zero : interval = 0
  · rw [zero, withMissed_zero]
    exact dif_pos (.inl rfl)
  have positive := UInt64.pos_iff_ne_zero.mpr zero
  have some : 0 < interval.toNat := UInt64.lt_iff_toNat_lt.mp positive
  unfold recordWithExpectedInterval withMissed missed
  rw [recordAll_cons]
  split
  · rename_i stop
    have short := UInt64.le_iff_toNat_le.mp (stop.resolve_left zero)
    have once : value.toNat / interval.toNat ≤ 1 :=
      (Nat.div_le_div_right short).trans (Nat.div_self some).le
    rw [Nat.sub_eq_zero_of_le once]
    rfl
  · rename_i go
    have long := UInt64.le_of_lt (UInt64.not_le.mp fun short => go (.inr short))
    rw [backfill_eq, UInt64.toNat_sub_of_le _ _ long, List.range'_eq_map_range, List.map_map,
      Nat.div_eq_sub_div some (UInt64.le_iff_toNat_le.mp long), Nat.add_sub_cancel]
    congr 1
    apply List.map_congr_left
    intro k _
    rw [Function.comp_apply, Nat.sub_sub, Nat.add_mul, Nat.one_mul]

/-- Samples up to the maximum do not move it. -/
theorem maxValue_recordAll_of_le {h : Histogram} {values : List UInt64}
    (small : ∀ value ∈ values, value ≤ h.maxValue) :
    (h.recordAll values).maxValue = h.maxValue := by
  induction values generalizing h with
  | nil => rfl
  | cons value values ih =>
      obtain ⟨first, rest⟩ := List.forall_mem_cons.mp small
      have kept : (h.record value).maxValue = h.maxValue := by
        rcases h.record_cases value with ⟨-, same⟩ | ⟨-, same⟩
        · rw [same]
        · rw [same]
          exact if_neg (UInt64.not_lt.mpr first)
      rw [recordAll_cons, ih (kept ▸ rest), kept]

/-- A value in range is at most the maximum once it is recorded. -/
theorem le_maxValue_record {h : Histogram} (inRange : h.indexOf value < h.counts.length) :
    value ≤ (h.record value).maxValue := by
  rcases h.record_cases value with ⟨beyond, -⟩ | ⟨-, same⟩
  · exact absurd inRange (Nat.not_lt.mpr beyond)
  · rw [same]
    dsimp only
    split
    · exact UInt64.le_refl value
    · rename_i above
      exact UInt64.not_lt.mp above

/-- The backfill records the value and then exactly the samples that an interval apart are still
an interval long, and no word of the countdown wraps. -/
theorem backfill_exact (h : Histogram) (value interval : UInt64) (positive : 1 ≤ interval) :
    h.recordWithExpectedInterval value interval =
        h.recordAll (value :: (missed value interval).map fun k =>
          UInt64.ofNat (value.toNat - k * interval.toNat)) ∧
      (missed value interval).Pairwise (· < ·) ∧
      (∀ k, k ∈ missed value interval ↔
        1 ≤ k ∧ (interval.toNat : Int) ≤ value.toNat - k * interval.toNat) ∧
      (h.recordWithExpectedInterval value interval).count +
          (h.recordWithExpectedInterval value interval).overflowCount =
        h.count + h.overflowCount + max 1 (value.toNat / interval.toNat) ∧
      (h.indexOf value < h.counts.length →
        (h.recordWithExpectedInterval value interval).max = (h.record value).max) := by
  have same := h.recordWithExpectedInterval_eq value interval
  refine ⟨same, List.pairwise_lt_range', fun k => mem_missed (UInt64.le_iff_toNat_le.mp positive),
    ?_, fun inRange => ?_⟩
  · rw [same]
    exact (counted_recordAll h _).trans (congrArg _ (length_withMissed value interval))
  · rw [same]
    change (h.recordAll (withMissed value interval)).maxValue = _
    rw [withMissed, recordAll_cons]
    apply maxValue_recordAll_of_le
    intro sample member
    obtain ⟨k, -, rfl⟩ := List.mem_map.mp member
    apply UInt64.le_trans _ (le_maxValue_record inRange)
    rw [UInt64.le_iff_toNat_le, UInt64.toNat_ofNat']
    exact Nat.le_trans (Nat.mod_le _ _) (Nat.sub_le _ _)

end

/-- A stall of ten intervals is ten samples. -/
theorem backfill_exact_stall :
    let h : Histogram := { layout := .make 3 1, counts := List.replicate 20480 0 }
    (h.recordWithExpectedInterval 200000000 20000000).count +
      (h.recordWithExpectedInterval 200000000 20000000).overflowCount = 10 :=
  (backfill_exact _ 200000000 20000000 (by decide)).2.2.2.1

end Histogram

end VoiceHotPath
