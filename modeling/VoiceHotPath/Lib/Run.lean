import Mathlib.Data.List.DropRight
import Mathlib.Data.List.TakeDrop

/-!
# Trailing runs

A counter that is incremented on every element with a property and cleared on
every other one holds the length of the trailing run of the elements read so
far.  The run is compared with a bound by looking at the elements themselves.
-/

namespace Run

variable {α : Type*}

/-- The length of the longest suffix whose elements all satisfy `p`. -/
def trailing (p : α → Bool) (xs : List α) : Nat :=
  (xs.rtakeWhile p).length

@[simp] theorem trailing_nil (p : α → Bool) : trailing p [] = 0 :=
  rfl

theorem trailing_snoc_of_pos {p : α → Bool} {x : α} (holds : p x = true) (xs : List α) :
    trailing p (xs ++ [x]) = trailing p xs + 1 := by
  simp [trailing, holds]

theorem trailing_snoc_of_neg {p : α → Bool} {x : α} (fails : p x = false) (xs : List α) :
    trailing p (xs ++ [x]) = 0 := by
  simp [trailing, fails]

theorem trailing_le_length (p : α → Bool) (xs : List α) : trailing p xs ≤ xs.length :=
  (List.rtakeWhile_suffix p xs).length_le

/-- A trailing run reaches a bound exactly when that many last elements satisfy `p`. -/
theorem le_trailing_iff (p : α → Bool) (xs : List α) (k : Nat) :
    k ≤ trailing p xs ↔
      k ≤ xs.length ∧ ∀ i x, xs.length ≤ i + k → xs[i]? = some x → p x = true := by
  induction xs using List.reverseRecOn generalizing k with
  | nil => simp
  | append_singleton xs last ih =>
      cases k with
      | zero =>
          simp only [Nat.zero_le, true_and, true_iff]
          intro i x beyond here
          obtain ⟨inside, -⟩ := List.getElem?_eq_some_iff.mp here
          omega
      | succ k =>
          have here : (xs ++ [last])[xs.length]? = some last := by simp
          cases holds : p last with
          | false =>
              rw [trailing_snoc_of_neg holds]
              constructor
              · intro absent
                cases absent
              · rintro ⟨-, every⟩
                have contrary := every xs.length last (by simp) here
                rw [holds] at contrary
                cases contrary
          | true =>
              rw [trailing_snoc_of_pos holds, Nat.add_le_add_iff_right, ih k]
              simp only [List.length_append, List.length_singleton, Nat.add_le_add_iff_right]
              refine and_congr_right fun short => ?_
              constructor
              · intro every i x beyond there
                rcases Nat.lt_or_ge i xs.length with inside | outside
                · rw [List.getElem?_append_left inside] at there
                  exact every i x (by omega) there
                · obtain ⟨bound, -⟩ := List.getElem?_eq_some_iff.mp there
                  obtain rfl : i = xs.length := by simp at bound; omega
                  obtain rfl := Option.some.inj (here.symm.trans there)
                  exact holds
              · intro every i x beyond there
                obtain ⟨inside, -⟩ := List.getElem?_eq_some_iff.mp there
                exact every i x (by omega) (by rw [List.getElem?_append_left inside, there])

end Run
