import Mathlib.Algebra.GroupWithZero.Nat
import Mathlib.Algebra.BigOperators.Group.Finset.Piecewise
import Mathlib.Data.List.Basic

/-!
# Sequences with losses

Items numbered one after the other are kept or lost, and a first part of those
kept is delivered.  Between the first and the last number delivered, the numbers
that are missing are those that were lost.
-/

namespace LossySequence

theorem countP_range_between (k first last : Nat) :
    (List.range k).countP (fun n => first ≤ n ∧ n ≤ last) = min k (last + 1) - first := by
  induction k with
  | zero => simp
  | succ k ih =>
      rw [List.range_succ, List.countP_append, ih, List.countP_singleton]
      split
      · rename_i inside
        have bounds := of_decide_eq_true inside
        omega
      · rename_i outside
        have bounds : ¬ (first ≤ k ∧ k ≤ last) := fun inside => outside (decide_eq_true inside)
        omega

section

variable {kept lost delivered : List Nat} {k first last : Nat}

/-- The numbers delivered lie between the first and the last of them. -/
theorem delivered_between (ascending : delivered.Pairwise (· < ·))
    (front : delivered.head? = some first) (back : delivered.getLast? = some last) :
    ∀ n ∈ delivered, first ≤ n ∧ n ≤ last := by
  intro n member
  constructor
  · obtain ⟨rest, rfl⟩ := List.head?_eq_some_iff.mp front
    rcases List.mem_cons.mp member with rfl | later
    · exact Nat.le_refl _
    · exact Nat.le_of_lt ((List.pairwise_cons.mp ascending).1 n later)
  · obtain ⟨rest, rfl⟩ := List.getLast?_eq_some_iff.mp back
    rcases List.mem_append.mp member with earlier | same
    · exact Nat.le_of_lt ((List.pairwise_append.mp ascending).2.2 n earlier last
        (List.mem_singleton_self _))
    · exact Nat.le_of_eq (List.mem_singleton.mp same)

/-- Later than some number delivered is later than the first. -/
theorem exists_lt_iff (ascending : delivered.Pairwise (· < ·))
    (front : delivered.head? = some first) {n : Nat} : (∃ m ∈ delivered, m < n) ↔ first < n := by
  constructor
  · rintro ⟨m, member, earlier⟩
    obtain ⟨last, back⟩ := Option.ne_none_iff_exists'.mp
      (List.getLast?_eq_none_iff.not.mpr (List.ne_nil_of_mem member))
    exact Nat.lt_of_le_of_lt (delivered_between ascending front back m member).1 earlier
  · intro later
    exact ⟨first, List.mem_of_mem_head? front, later⟩

/-- Earlier than some number delivered is earlier than the last. -/
theorem exists_gt_iff (ascending : delivered.Pairwise (· < ·))
    (back : delivered.getLast? = some last) {n : Nat} : (∃ m ∈ delivered, n < m) ↔ n < last := by
  constructor
  · rintro ⟨m, member, later⟩
    obtain ⟨first, front⟩ := Option.ne_none_iff_exists'.mp
      (List.head?_eq_none_iff.not.mpr (List.ne_nil_of_mem member))
    exact Nat.lt_of_lt_of_le later (delivered_between ascending front back m member).2
  · intro earlier
    exact ⟨last, List.mem_of_getLast? back, earlier⟩

/-- The numbers lost between the first and the last number delivered, and those
delivered, are all the numbers from the first to the last. -/
theorem lost_between (all : (kept ++ lost).Perm (List.range k))
    (ascending : kept.Pairwise (· < ·)) (early : delivered <+: kept)
    (front : delivered.head? = some first) (back : delivered.getLast? = some last) :
    lost.countP (fun n => first < n ∧ n < last) + delivered.length + first = last + 1 := by
  obtain ⟨later, rfl⟩ := early
  obtain ⟨sorted, -, apart⟩ := List.pairwise_append.mp ascending
  have between := delivered_between sorted front back
  have firstIn := List.mem_of_mem_head? front
  have lastIn := List.mem_of_getLast? back
  have order : first ≤ last := (between first firstIn).2
  have sent : last < k := by
    apply List.mem_range.mp
    apply all.subset
    exact List.mem_append_left _ (List.mem_append_left _ lastIn)
  have distinct := all.nodup_iff.mpr List.nodup_range
  have fresh : ∀ n ∈ lost, n ∉ delivered := fun n isLost isKept =>
    (List.nodup_append'.mp distinct).2.2 (List.mem_append_left _ isKept) isLost
  have total := all.countP_eq (fun n => decide (first ≤ n ∧ n ≤ last))
  rw [countP_range_between, List.countP_append, List.countP_append] at total
  have inside : delivered.countP (fun n => first ≤ n ∧ n ≤ last) = delivered.length :=
    List.countP_eq_length.mpr fun n member => decide_eq_true (between n member)
  have beyond : later.countP (fun n => first ≤ n ∧ n ≤ last) = 0 := by
    apply List.countP_eq_zero.mpr
    intro n member covered
    have after := apart last lastIn n member
    have bounds := of_decide_eq_true covered
    omega
  have strict : lost.countP (fun n => first ≤ n ∧ n ≤ last) =
      lost.countP (fun n => first < n ∧ n < last) := by
    apply List.countP_congr
    intro n isLost
    have notFirst : n ≠ first := fun same => fresh n isLost (same ▸ firstIn)
    have notLast : n ≠ last := fun same => fresh n isLost (same ▸ lastIn)
    rw [decide_eq_true_iff, decide_eq_true_iff]
    omega
  omega

end

/-- A sum over a list, taken key by key. -/
theorem sum_by_key {α κ : Type} [DecidableEq κ] (key : α → κ) (weight : α → Nat) {keys : Finset κ}
    {items : List α} (keyed : ∀ item ∈ items, key item ∈ keys) :
    (items.map weight).sum =
      ∑ k ∈ keys, ((items.filter fun item => key item = k).map weight).sum := by
  induction items with
  | nil => simp
  | cons item rest ih =>
      obtain ⟨here, later⟩ := List.forall_mem_cons.mp keyed
      have step : ∀ k, (((item :: rest).filter fun item => key item = k).map weight).sum =
          (if key item = k then weight item else 0) +
            ((rest.filter fun item => key item = k).map weight).sum := by
        intro k
        rw [List.filter_cons]
        by_cases same : key item = k
        · simp [same]
        · simp [same]
      simp only [step]
      rw [Finset.sum_add_distrib, Finset.sum_ite_eq, if_pos here, ← ih later, List.map_cons,
        List.sum_cons]

end LossySequence
