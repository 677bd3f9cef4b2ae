import Mathlib.Algebra.GroupWithZero.Nat
import Mathlib.Algebra.BigOperators.Group.Finset.Basic
import Mathlib.Data.List.Sort

/-!
# Order statistics from tallies

A list is tallied by an index of its elements.  Sums weighted by index can be
taken over the tallies; and where the index does not decrease with the elements,
the tally in which the running total first reaches a rank is that of the element
of this rank.
-/

namespace OrderStatistic

section

variable {α : Type} [LinearOrder α]

/-- The `t`-th smallest element, counted from one. -/
def nthSmallest (xs : List α) (t : Nat) : Option α :=
  (xs.insertionSort (· ≤ ·))[t - 1]?

theorem exists_nthSmallest {xs : List α} {t : Nat} (positive : 1 ≤ t) (within : t ≤ xs.length) :
    ∃ v, nthSmallest xs t = some v := by
  have inside : t - 1 < (xs.insertionSort (· ≤ ·)).length := by
    rw [List.length_insertionSort]
    omega
  exact ⟨_, List.getElem?_eq_getElem inside⟩

theorem mem_of_nthSmallest {xs : List α} {t : Nat} {v : α} (here : nthSmallest xs t = some v) :
    v ∈ xs :=
  (List.mem_insertionSort (· ≤ ·)).mp (List.mem_of_getElem? here)

/-- In a sorted list, the elements below a cut come first. -/
theorem below_iff_lt_countP {xs : List α} (sorted : xs.Pairwise (· ≤ ·)) {below : α → Bool}
    (down : ∀ x y, x ≤ y → below y = true → below x = true) {j : Nat} {v : α}
    (here : xs[j]? = some v) : below v = true ↔ j < xs.countP below := by
  induction xs generalizing j with
  | nil => cases here
  | cons x xs ih =>
      obtain ⟨least, rest⟩ := List.pairwise_cons.mp sorted
      cases first : below x with
      | true =>
          rw [List.countP_cons_of_pos first]
          cases j with
          | zero =>
              cases here
              exact ⟨fun _ => Nat.succ_pos _, fun _ => first⟩
          | succ j => exact (ih rest here).trans Nat.succ_lt_succ_iff.symm
      | false =>
          -- Nothing after an element above the cut is below it.
          have above : ∀ y ∈ x :: xs, ¬ below y = true := by
            intro y member
            rcases List.mem_cons.mp member with rfl | later
            · rw [first]
              exact Bool.false_ne_true
            · intro low
              have high := down x y (least y later) low
              rw [first] at high
              cases high
          rw [List.countP_eq_zero.mpr above]
          exact ⟨fun low => absurd low (above v (List.mem_of_getElem? here)),
            fun absent => absurd absent (Nat.not_lt_zero j)⟩

/-- The element of a rank is below a cut exactly when the cut leaves that many below. -/
theorem nthSmallest_below_iff {xs : List α} {t : Nat} {v : α} (positive : 1 ≤ t)
    (here : nthSmallest xs t = some v) {below : α → Bool}
    (down : ∀ x y, x ≤ y → below y = true → below x = true) :
    below v = true ↔ t ≤ xs.countP below := by
  have sorted := List.pairwise_insertionSort (· ≤ ·) xs
  rw [below_iff_lt_countP sorted down here,
    (List.perm_insertionSort (· ≤ ·) xs).countP_eq below]
  omega

theorem nthSmallest_mono {xs : List α} {s t : Nat} {v w : α} (earlier : s ≤ t)
    (first : nthSmallest xs s = some v) (second : nthSmallest xs t = some w) : v ≤ w := by
  have sorted := List.pairwise_insertionSort (· ≤ ·) xs
  obtain ⟨i, rfl⟩ := List.getElem?_eq_some_iff.mp first
  obtain ⟨j, rfl⟩ := List.getElem?_eq_some_iff.mp second
  rcases Nat.lt_or_eq_of_le (Nat.sub_le_sub_right earlier 1) with less | same
  · exact List.pairwise_iff_getElem.mp sorted _ _ _ _ less
  · simp only [same]
    exact le_refl _

end

section

variable {α : Type} {index : α → Nat} {xs : List α} {counts : List Nat}

/-- The counts are those of the elements with each index. -/
def Tallies (index : α → Nat) (xs : List α) (counts : List Nat) : Prop :=
  ∀ (i : Nat) count, counts[i]? = some count → count = xs.countP fun x => index x == i

theorem countP_lt_succ (index : α → Nat) (xs : List α) (k : Nat) :
    xs.countP (fun x => index x < k + 1) =
      xs.countP (fun x => index x < k) + xs.countP fun x => index x == k := by
  induction xs with
  | nil => rfl
  | cons x xs ih =>
      simp only [List.countP_cons, decide_eq_true_eq, beq_iff_eq]
      rw [ih]
      rcases Nat.lt_trichotomy (index x) k with less | same | more
      · simp [less, Nat.ne_of_lt less, Nat.lt_succ_of_lt less]
        omega
      · simp [same]
        omega
      · have above : ¬ index x < k + 1 := by omega
        simp [above, Nat.ne_of_gt more, Nat.lt_asymm more]

/-- The running total counts the elements with a smaller index. -/
theorem Tallies.sum_take (tallies : Tallies index xs counts) {k : Nat}
    (within : k ≤ counts.length) :
    (counts.take k).sum = xs.countP fun x => index x < k := by
  induction k with
  | zero =>
      rw [List.take_zero, List.sum_nil, eq_comm, List.countP_eq_zero]
      simp
  | succ k ih =>
      have inside : k < counts.length := within
      have here := List.getElem?_eq_getElem inside
      rw [List.take_add_one, here, List.sum_append, ih (Nat.le_of_lt inside), Option.toList_some,
        List.sum_singleton, tallies k _ here, countP_lt_succ]

/-- The counts weighted by index are the weights of the elements. -/
theorem Tallies.sum_weights (tallies : Tallies index xs counts)
    (inside : ∀ x ∈ xs, index x < counts.length) (weight : Nat → Nat) :
    ∑ i ∈ Finset.range counts.length, counts.getD i 0 * weight i =
      (xs.map fun x => weight (index x)).sum := by
  have covered : (xs.map index).toFinset ⊆ Finset.range counts.length := by
    intro i member
    obtain ⟨x, belongs, rfl⟩ := List.mem_map.mp (List.mem_toFinset.mp member)
    exact Finset.mem_range.mpr (inside x belongs)
  have counted : ∀ i ∈ Finset.range counts.length, counts.getD i 0 = (xs.map index).count i := by
    intro i member
    have here := List.getElem?_eq_getElem (Finset.mem_range.mp member)
    rw [List.getD_eq_getElem?_getD, here, Option.getD_some, tallies i _ here, List.count,
      List.countP_map]
    rfl
  calc
    ∑ i ∈ Finset.range counts.length, counts.getD i 0 * weight i =
        ∑ i ∈ Finset.range counts.length, (xs.map index).count i * weight i :=
      Finset.sum_congr rfl fun i member => by rw [counted i member]
    _ = ∑ i ∈ (xs.map index).toFinset, (xs.map index).count i * weight i := by
      refine (Finset.sum_subset covered fun i _ absent => ?_).symm
      rw [List.count_eq_zero.mpr fun member => absent (List.mem_toFinset.mpr member), Nat.zero_mul]
    _ = ((xs.map index).map weight).sum := (Finset.sum_list_map_count _ _).symm
    _ = (xs.map fun x => weight (index x)).sum := by
      rw [List.map_map]
      rfl

variable [LinearOrder α]

/-- The first tally at which the running total reaches a rank is that of the rank. -/
theorem Tallies.index_nthSmallest (tallies : Tallies index xs counts)
    (monotone : ∀ x y, x ≤ y → index x ≤ index y) {t i : Nat} {v : α} (positive : 1 ≤ t)
    (here : nthSmallest xs t = some v) (inside : i < counts.length)
    (before : (counts.take i).sum < t) (reached : t ≤ (counts.take (i + 1)).sum) :
    index v = i := by
  have cut : ∀ k ≤ counts.length, index v < k ↔ t ≤ (counts.take k).sum := by
    intro k within
    rw [tallies.sum_take within]
    have down : ∀ x y, x ≤ y → decide (index y < k) = true → decide (index x < k) = true := by
      intro x y le less
      exact decide_eq_true (Nat.lt_of_le_of_lt (monotone x y le) (of_decide_eq_true less))
    rw [← nthSmallest_below_iff positive here down, decide_eq_true_iff]
  have most := (cut (i + 1) inside).mpr reached
  have least := (not_congr (cut i (Nat.le_of_lt inside))).mpr (Nat.not_le.mpr before)
  omega

end

end OrderStatistic
