import Mathlib.Data.List.DropRight
import Mathlib.Data.Nat.ModEq

/-!
# Overwriting rings

A ring of fixed capacity that overwrites its oldest element.  Its contents are
the last `cap` elements pushed since it was last cleared.
-/

structure OverwriteRing (α : Type) where
  slots : Array α
  head : Nat := 0
  deriving DecidableEq, Repr

namespace OverwriteRing

variable {α : Type}

/-- A ring whose slots hold a filler that is never read back. -/
def empty (filler : α) (cap : Nat) : OverwriteRing α :=
  { slots := Array.replicate cap filler }

def cap (ring : OverwriteRing α) : Nat :=
  ring.slots.size

def push (ring : OverwriteRing α) (x : α) : OverwriteRing α :=
  if ring.cap = 0 then ring
  else
    { slots := ring.slots.setIfInBounds (ring.head % ring.cap) x
      head := ring.head + 1 }

def size (ring : OverwriteRing α) : Nat :=
  if ring.head < ring.cap then ring.head else ring.cap

/-- The `i`-th oldest element. -/
def at? (ring : OverwriteRing α) (i : Nat) : Option α :=
  let start := if ring.head < ring.cap then 0 else ring.head - ring.cap
  ring.slots[(start + i) % ring.cap]?

def clear (ring : OverwriteRing α) : OverwriteRing α :=
  { ring with head := 0 }

/-- The elements read back from oldest to newest. -/
def contents (ring : OverwriteRing α) : List α :=
  (List.range ring.size).filterMap ring.at?

@[simp] theorem cap_empty (filler : α) (cap : Nat) : (empty filler cap).cap = cap := by
  simp [empty, OverwriteRing.cap]

@[simp] theorem cap_clear (ring : OverwriteRing α) : ring.clear.cap = ring.cap :=
  rfl

theorem push_flat {ring : OverwriteRing α} (flat : ring.cap = 0) (x : α) :
    ring.push x = ring := by
  simp [push, flat]

theorem push_eq {ring : OverwriteRing α} (roomy : ring.cap ≠ 0) (x : α) :
    ring.push x =
      { slots := ring.slots.setIfInBounds (ring.head % ring.cap) x
        head := ring.head + 1 } := by
  simp [push, roomy]

@[simp] theorem cap_push (ring : OverwriteRing α) (x : α) : (ring.push x).cap = ring.cap := by
  by_cases flat : ring.cap = 0
  · rw [push_flat flat]
  · simp [push_eq flat, cap]

/-- `xs` are the elements pushed since the ring was last cleared. -/
structure Holds (ring : OverwriteRing α) (xs : List α) : Prop where
  head_eq : ring.cap ≠ 0 → ring.head = xs.length
  head_zero : ring.cap = 0 → ring.head = 0
  slot : ∀ j, j < xs.length → xs.length ≤ j + ring.cap →
    ring.slots[j % ring.cap]? = xs[j]?

theorem holds_empty (filler : α) (cap : Nat) : (empty filler cap).Holds [] :=
  ⟨fun _ => rfl, fun _ => rfl, fun j below => absurd below (Nat.not_lt_zero j)⟩

theorem holds_clear (ring : OverwriteRing α) : ring.clear.Holds [] :=
  ⟨fun _ => rfl, fun _ => rfl, fun j below => absurd below (Nat.not_lt_zero j)⟩

/-- Two live positions share a slot only if they are the same position. -/
theorem slot_injective {cap i j : Nat} (order : i ≤ j) (near : j < i + cap)
    (same : i % cap = j % cap) : i = j := by
  obtain ⟨q, hq⟩ := (Nat.modEq_iff_dvd' order).mp same
  have small : cap * q < cap * 1 := by omega
  have zero : q < 1 := Nat.lt_of_mul_lt_mul_left small
  have flat : q = 0 := by omega
  subst flat
  omega

theorem Holds.push {ring : OverwriteRing α} {xs : List α} (holds : ring.Holds xs) (x : α) :
    (ring.push x).Holds (xs ++ [x]) := by
  by_cases flat : ring.cap = 0
  · rw [push_flat flat]
    refine ⟨fun h => absurd flat h, holds.head_zero, ?_⟩
    intro j below live
    simp at below live
    omega
  · have head := holds.head_eq flat
    refine ⟨fun _ => by simp [push_eq flat, head], fun h => absurd (by simpa using h) flat, ?_⟩
    intro j below live
    have inside : xs.length % ring.cap < ring.slots.size := Nat.mod_lt _ (by omega)
    rw [cap_push] at live ⊢
    simp only [List.length_append, List.length_cons, List.length_nil] at below live
    rw [push_eq flat, head]
    by_cases last : j = xs.length
    · subst last
      simp [inside]
    · have other : xs.length % ring.cap ≠ j % ring.cap := fun same =>
        last (slot_injective (by omega) (by omega) same.symm)
      rw [Array.getElem?_setIfInBounds_ne other, holds.slot j (by omega) (by omega),
        List.getElem?_append_left (by omega)]

theorem Holds.size_eq {ring : OverwriteRing α} {xs : List α} (holds : ring.Holds xs) :
    ring.size = min ring.cap xs.length := by
  unfold OverwriteRing.size
  by_cases flat : ring.cap = 0
  · simp [holds.head_zero flat, flat]
  · rw [holds.head_eq flat]
    split <;> omega

theorem Holds.at?_eq {ring : OverwriteRing α} {xs : List α} (holds : ring.Holds xs)
    {i : Nat} (below : i < ring.size) :
    ring.at? i = xs[xs.length - ring.size + i]? := by
  have size := holds.size_eq
  have head := holds.head_eq (by omega)
  have start : (if ring.head < ring.cap then 0 else ring.head - ring.cap) =
      xs.length - ring.size := by
    split <;> omega
  unfold OverwriteRing.at?
  simp only [start]
  exact holds.slot _ (by omega) (by omega)

/-- Reading every position of a list in turn reads the list. -/
theorem filterMap_range_getElem? (xs : List α) :
    (List.range xs.length).filterMap (fun i => xs[i]?) = xs := by
  induction xs with
  | nil => rfl
  | cons x rest ih =>
      rw [List.length_cons, List.range_succ_eq_map]
      simpa [List.filterMap_map] using ih

/-- Reading a ring back yields the most recent `cap` elements, oldest first. -/
theorem Holds.contents_eq {ring : OverwriteRing α} {xs : List α} (holds : ring.Holds xs) :
    ring.contents = xs.rtake ring.cap := by
  have size := holds.size_eq
  have recent : xs.rtake ring.cap = xs.drop (xs.length - ring.size) := by
    unfold List.rtake
    congr 1
    omega
  have width : (xs.drop (xs.length - ring.size)).length = ring.size := by
    rw [List.length_drop]
    omega
  have reads : ring.contents =
      (List.range ring.size).filterMap fun i => (xs.drop (xs.length - ring.size))[i]? := by
    apply List.filterMap_congr
    intro i mem
    rw [holds.at?_eq (List.mem_range.mp mem), List.getElem?_drop]
  have whole := filterMap_range_getElem? (xs.drop (xs.length - ring.size))
  rw [width] at whole
  rw [reads, recent]
  exact whole

theorem Holds.length_contents {ring : OverwriteRing α} {xs : List α} (holds : ring.Holds xs) :
    ring.contents.length = min ring.cap xs.length := by
  rw [holds.contents_eq, List.rtake, List.length_drop]
  omega

end OverwriteRing
