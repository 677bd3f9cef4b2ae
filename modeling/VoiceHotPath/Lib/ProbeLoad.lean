import Mathlib.Algebra.Order.Group.Nat
import Mathlib.Data.Finset.Range
import Mathlib.Data.List.Count
import VoiceHotPath.Lib.LinearProbing

/-!
# The load of a linear-probing table

A table has as many full slots as members.  A probe passes no empty slot, so
that the empty slots bound how far it goes, whatever its home.
-/

namespace LinearProbing

variable {α : Type*}

namespace Slot

/-- The member in a slot, if there is one. -/
def member : Slot α → Option α
  | .empty => none
  | .tombstone => none
  | .full a => some a

def isFull (slot : Slot α) : Bool :=
  slot.member.isSome

def isEmpty : Slot α → Bool
  | .empty => true
  | .tombstone => false
  | .full _ => false

theorem member_eq_some {slot : Slot α} {a : α} : slot.member = some a ↔ slot = .full a := by
  cases slot with
  | empty => simp [member]
  | tombstone => simp [member]
  | full b => simp [member]

theorem isEmpty_iff {slot : Slot α} : slot.isEmpty = true ↔ slot = .empty := by
  cases slot with
  | empty => simp [isEmpty]
  | tombstone => simp [isEmpty]
  | full b => simp [isEmpty]

end Slot

/-- The slots of a table that pass a test. -/
def slotsWhere (n : ℕ) (slots : ℕ → Slot α) (test : Slot α → Bool) : Finset ℕ :=
  (Finset.range n).filter fun p => test (slots p) = true

theorem mem_slotsWhere {n : ℕ} {slots : ℕ → Slot α} {test : Slot α → Bool} {p : ℕ} :
    p ∈ slotsWhere n slots test ↔ p < n ∧ test (slots p) = true := by
  rw [slotsWhere, Finset.mem_filter, Finset.mem_range]

section

variable {n : ℕ} {slots : ℕ → Slot α} {members : Finset α}

/-- A table has as many full slots as members. -/
theorem Linked.card_full [DecidableEq α] {home : α → ℕ}
    (linked : Linked n slots home members) :
    (slotsWhere n slots Slot.isFull).card = members.card := by
  have occupants : (slotsWhere n slots Slot.isFull).image (fun p => (slots p).member) =
      members.image some := by
    ext occupant
    rw [Finset.mem_image, Finset.mem_image]
    constructor
    · rintro ⟨p, full, rfl⟩
      obtain ⟨inside, isFull⟩ := mem_slotsWhere.mp full
      obtain ⟨a, here⟩ := Option.isSome_iff_exists.mp isFull
      exact ⟨a, linked.sound p inside a (Slot.member_eq_some.mp here), here.symm⟩
    · rintro ⟨a, stored, rfl⟩
      obtain ⟨k, short, here, -⟩ := linked.placed a stored
      have holds : (slots ((home a + k) % n)).member = some a := Slot.member_eq_some.mpr here
      have inside : (home a + k) % n < n := Nat.mod_lt _ (Nat.zero_lt_of_lt short)
      refine ⟨_, mem_slotsWhere.mpr ⟨inside, ?_⟩, holds⟩
      rw [Slot.isFull, holds]
      rfl
  have separate : Set.InjOn (fun p => (slots p).member) (slotsWhere n slots Slot.isFull) := by
    intro p pFull q qFull same
    obtain ⟨pInside, isFull⟩ := mem_slotsWhere.mp pFull
    obtain ⟨qInside, -⟩ := mem_slotsWhere.mp qFull
    obtain ⟨a, here⟩ := Option.isSome_iff_exists.mp isFull
    have there : (slots q).member = some a := same.symm.trans here
    exact linked.once p pInside q qInside a (Slot.member_eq_some.mp here)
      (Slot.member_eq_some.mp there)
  rw [← Finset.card_image_of_injOn separate, occupants,
    Finset.card_image_of_injective members (Option.some_injective α)]

/-- A probe and the empty slots it has not crossed fit into the table. -/
theorem Crossed.add_card_empty {home k : ℕ} (crossed : Crossed n slots home k) (short : k ≤ n) :
    k + (slotsWhere n slots Slot.isEmpty).card ≤ n := by
  have passed : ((Finset.range k).image fun j => (home + j) % n).card = k := by
    rw [Finset.card_image_of_injOn, Finset.card_range]
    intro i iBefore j jBefore same
    have iShort : i < n := Nat.lt_of_lt_of_le (Finset.mem_range.mp iBefore) short
    have jShort : j < n := Nat.lt_of_lt_of_le (Finset.mem_range.mp jBefore) short
    exact step_injective iShort jShort same
  have apart : Disjoint ((Finset.range k).image fun j => (home + j) % n)
      (slotsWhere n slots Slot.isEmpty) := by
    rw [Finset.disjoint_left]
    intro p visited empty
    obtain ⟨j, before, rfl⟩ := Finset.mem_image.mp visited
    exact crossed j (Finset.mem_range.mp before) (Slot.isEmpty_iff.mp (mem_slotsWhere.mp empty).2)
  have within : ((Finset.range k).image fun j => (home + j) % n) ∪
      slotsWhere n slots Slot.isEmpty ⊆ Finset.range n := by
    intro p member
    rcases Finset.mem_union.mp member with visited | empty
    · obtain ⟨j, before, rfl⟩ := Finset.mem_image.mp visited
      have inside : j < n := Nat.lt_of_lt_of_le (Finset.mem_range.mp before) short
      exact Finset.mem_range.mpr (Nat.mod_lt _ (Nat.zero_lt_of_lt inside))
    · exact Finset.mem_range.mpr (mem_slotsWhere.mp empty).1
  calc k + (slotsWhere n slots Slot.isEmpty).card
      = (((Finset.range k).image fun j => (home + j) % n) ∪
          slotsWhere n slots Slot.isEmpty).card := by
        rw [Finset.card_union_of_disjoint apart, passed]
    _ ≤ (Finset.range n).card := Finset.card_le_card within
    _ = n := Finset.card_range n

/-- A scan that answers on empty slots ends on the first slot with an answer,
having crossed no empty slot. -/
theorem scan_ends {β : Type*} {next : ℕ → ℕ} {test : ℕ → Option β} {home : ℕ}
    (wraps : ∀ p < n, next p = (p + 1) % n) (inside : home < n)
    (answers : ∀ p < n, slots p = .empty → (test p).isSome = true)
    (room : 0 < (slotsWhere n slots Slot.isEmpty).card) :
    ∃ k < n, Crossed n slots home k ∧ ∃ answer, test ((home + k) % n) = some answer ∧
      scan next test (k + 1) home = some answer := by
  have positive : 0 < n := Nat.zero_lt_of_lt inside
  have reachable : ∃ k, k < n ∧ (test ((home + k) % n)).isSome = true := by
    obtain ⟨p, empty⟩ := Finset.card_pos.mp room
    obtain ⟨pInside, isEmpty⟩ := mem_slotsWhere.mp empty
    obtain ⟨k, short, rfl⟩ := exists_step pInside home
    exact ⟨k, short, answers _ pInside (Slot.isEmpty_iff.mp isEmpty)⟩
  obtain ⟨short, stops⟩ := Nat.find_spec reachable
  have silent : ∀ j < Nat.find reachable, test ((home + j) % n) = none := by
    intro j before
    have passed := Nat.find_min reachable before
    rw [not_and, Bool.not_eq_true, Option.isSome_eq_false_iff, Option.isNone_iff_eq_none] at passed
    exact passed (Nat.lt_trans before short)
  obtain ⟨answer, here⟩ := Option.isSome_iff_exists.mp stops
  refine ⟨Nat.find reachable, short, ?_, answer, here, ?_⟩
  · intro j before empty
    have answered := answers _ (Nat.mod_lt _ positive) empty
    rw [silent j before] at answered
    cases answered
  · have found := scan_of_first wraps (Nat.zero_le _) short (Nat.lt_succ_self _)
      (fun j _ => silent j) here
    rwa [Nat.add_zero home, Nat.mod_eq_of_lt inside] at found

end

/-- The number of places of a list that pass a test. -/
theorem card_places {β : Type*} (words : List β) (test : β → Bool) (absent : β) :
    ((Finset.range words.length).filter
      fun p => test (words[p]?.getD absent) = true).card = words.countP test := by
  induction words using List.reverseRecOn with
  | nil => rfl
  | append_singleton words word ih =>
      have before : ((Finset.range words.length).filter
          fun p => test ((words ++ [word])[p]?.getD absent) = true) =
          (Finset.range words.length).filter
            fun p => test (words[p]?.getD absent) = true := by
        apply Finset.filter_congr
        intro p inside
        rw [List.getElem?_append_left (Finset.mem_range.mp inside)]
      have last : (words ++ [word])[words.length]?.getD absent = word := by simp
      rw [List.length_append, List.length_singleton, Finset.range_add_one, Finset.filter_insert,
        last, before, List.countP_append, List.countP_singleton, ← ih]
      split
      · rw [Finset.card_insert_of_notMem (by simp)]
      · rfl

end LinearProbing
