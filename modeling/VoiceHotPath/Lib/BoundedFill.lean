import Mathlib.Data.List.Infix
import Mathlib.Data.List.Flatten

/-!
# Filling a bounded buffer

Items are appended to a buffer in order, each only if it fits whole into the
room left.  The buffer is a prefix of the concatenation unless an item that was
left out is followed by one that still fits.
-/

namespace BoundedFill

variable {α : Type}

/-- The buffer after appending what fits. -/
def fill (cap : Nat) (buffer : List α) (items : List (List α)) : List α :=
  items.foldl (fun buffer item =>
    if buffer.length + item.length ≤ cap then buffer ++ item else buffer) buffer

/-- After the first item that does not fit, none that is not empty fits. -/
def NoneFitsLater (cap : Nat) (items : List (List α)) : Prop :=
  ∀ fit left later, items = fit ++ left :: later → fit.flatten.length ≤ cap →
    cap < fit.flatten.length + left.length →
      ∀ item ∈ later, item.length = 0 ∨ cap < fit.flatten.length + item.length

variable {cap : Nat} {buffer : List α} {items : List (List α)}

theorem fill_cons (cap : Nat) (buffer item : List α) (items : List (List α)) :
    fill cap buffer (item :: items) =
      fill cap (if buffer.length + item.length ≤ cap then buffer ++ item else buffer) items :=
  rfl

theorem fill_append (cap : Nat) (buffer : List α) (items later : List (List α)) :
    fill cap buffer (items ++ later) = fill cap (fill cap buffer items) later :=
  List.foldl_append

/-- What is in the buffer stays at its front. -/
theorem prefix_fill (cap : Nat) (buffer : List α) (items : List (List α)) :
    buffer <+: fill cap buffer items := by
  induction items generalizing buffer with
  | nil => exact List.prefix_refl buffer
  | cons item items ih =>
      rw [fill_cons]
      split
      · exact (List.prefix_append buffer item).trans (ih _)
      · exact ih buffer

theorem length_fill_le (within : buffer.length ≤ cap) (items : List (List α)) :
    (fill cap buffer items).length ≤ cap := by
  induction items generalizing buffer with
  | nil => exact within
  | cons item items ih =>
      rw [fill_cons]
      apply ih
      split
      · rename_i fits
        rw [List.length_append]
        exact fits
      · exact within

/-- The buffer stays as it is exactly when nothing that is not empty fits. -/
theorem fill_eq_self_iff :
    fill cap buffer items = buffer ↔
      ∀ item ∈ items, item.length = 0 ∨ cap < buffer.length + item.length := by
  induction items with
  | nil => exact ⟨fun _ => List.forall_mem_nil _, fun _ => rfl⟩
  | cons item items ih =>
      rw [fill_cons, List.forall_mem_cons, ← ih]
      by_cases fits : buffer.length + item.length ≤ cap
      · rw [if_pos fits]
        by_cases empty : item.length = 0
        · rw [List.length_eq_zero_iff.mp empty, List.append_nil]
          simp
        · -- The buffer has grown, and it does not shrink again.
          have grown := (prefix_fill cap (buffer ++ item) items).length_le
          rw [List.length_append] at grown
          constructor
          · intro same
            rw [same] at grown
            omega
          · rintro ⟨none | full, -⟩
            · exact absurd none empty
            · exact absurd fits (Nat.not_le.mpr full)
      · rw [if_neg fits]
        exact ⟨fun same => ⟨.inr (Nat.not_le.mp fits), same⟩, fun both => both.2⟩

theorem fill_of_fits (fits : buffer.length + items.flatten.length ≤ cap) :
    fill cap buffer items = buffer ++ items.flatten := by
  induction items generalizing buffer with
  | nil => exact (List.append_nil buffer).symm
  | cons item items ih =>
      rw [List.flatten_cons, List.length_append] at fits
      have rest : (buffer ++ item).length + items.flatten.length ≤ cap := by
        rw [List.length_append]
        omega
      rw [fill_cons, if_pos (by omega), ih rest, List.flatten_cons, List.append_assoc]

/-- An empty buffer takes all that fits as a whole. -/
theorem fill_eq_flatten (fits : items.flatten.length ≤ cap) : fill cap [] items = items.flatten :=
  fill_of_fits (by simpa using fits)

/-- What does not fit as a whole has a first item that does not fit. -/
theorem exists_left (crowded : cap < items.flatten.length) :
    ∃ fit left later, items = fit ++ left :: later ∧ fit.flatten.length ≤ cap ∧
      cap < fit.flatten.length + left.length := by
  induction items using List.reverseRecOn with
  | nil => exact absurd crowded (Nat.not_lt_zero cap)
  | append_singleton items last ih =>
      by_cases fits : items.flatten.length ≤ cap
      · rw [List.flatten_append, List.length_append, List.flatten_singleton] at crowded
        exact ⟨items, last, [], rfl, fits, crowded⟩
      · obtain ⟨fit, left, later, rfl, within, beyond⟩ := ih (Nat.not_le.mp fits)
        exact ⟨fit, left, later ++ [last], by simp, within, beyond⟩

theorem NoneFitsLater.of_prefix (none : NoneFitsLater cap items) {heard : List (List α)}
    (earlier : heard <+: items) : NoneFitsLater cap heard := by
  obtain ⟨rest, rfl⟩ := earlier
  intro fit left later split within beyond item member
  apply none fit left (later ++ rest) (by rw [split, List.append_assoc, List.cons_append]) within
    beyond item
  exact List.mem_append_left rest member

/-- From the first item that does not fit on, the buffer stays as it is. -/
theorem NoneFitsLater.fill_eq (none : NoneFitsLater cap items) {fit later : List (List α)}
    {left : List α} (split : items = fit ++ left :: later) (within : fit.flatten.length ≤ cap)
    (beyond : cap < fit.flatten.length + left.length) :
    fill cap [] items = fit.flatten := by
  rw [split, fill_append, fill_eq_flatten within, fill_eq_self_iff]
  intro item member
  rcases List.mem_cons.mp member with rfl | after
  · exact .inr beyond
  · exact none fit left later split within beyond item after

/-- The buffer is then the concatenation of what comes before that item. -/
theorem NoneFitsLater.prefixed (none : NoneFitsLater cap items) :
    ∃ kept, kept <+: items ∧ fill cap [] items = kept.flatten := by
  by_cases fits : items.flatten.length ≤ cap
  · exact ⟨items, List.prefix_refl items, fill_eq_flatten fits⟩
  · obtain ⟨fit, left, later, split, within, beyond⟩ := exists_left (Nat.not_le.mp fits)
    exact ⟨fit, ⟨left :: later, split.symm⟩, none.fill_eq split within beyond⟩

/-- Wherever an item is left out, the buffer stays as it is from there on. -/
theorem NoneFitsLater.stopped (none : NoneFitsLater cap items) {fit later : List (List α)}
    {left : List α} (split : items = fit ++ left :: later)
    (beyond : cap < (fill cap [] fit).length + left.length) :
    fill cap [] items = fill cap [] fit := by
  by_cases within : fit.flatten.length ≤ cap
  · rw [fill_eq_flatten within] at beyond ⊢
    exact none.fill_eq split within beyond
  · -- Some earlier item was left out already.
    obtain ⟨first, out, between, rfl, inside, spilled⟩ := exists_left (Nat.not_le.mp within)
    have before := none.of_prefix ⟨left :: later, split.symm⟩
    rw [List.append_assoc, List.cons_append] at split
    rw [none.fill_eq split inside spilled, before.fill_eq rfl inside spilled]

/-- A buffer that is a concatenation of a prefix has let nothing in after what was left out. -/
theorem noneFitsLater_of_prefixed {kept : List (List α)} (earlier : kept <+: items)
    (same : fill cap [] items = kept.flatten) : NoneFitsLater cap items := by
  intro fit left later split within beyond
  have after : fill cap fit.flatten (left :: later) = kept.flatten := by
    rw [← fill_eq_flatten within, ← fill_append, ← split, same]
  have bounded : kept.flatten.length ≤ cap := by
    rw [← after]
    exact length_fill_le within _
  -- What is kept ends before the item left out.
  have inside : kept <+: fit := by
    have candidate : fit ++ [left] <+: items := ⟨later, by rw [split]; simp⟩
    rcases List.prefix_or_prefix_of_prefix earlier candidate with short | long
    · rcases List.prefix_concat_iff.mp short with whole | short
      · rw [whole, List.flatten_append, List.length_append, List.flatten_singleton] at bounded
        omega
      · exact short
    · obtain ⟨more, rfl⟩ := long
      rw [List.flatten_append, List.flatten_append, List.flatten_singleton, List.length_append,
        List.length_append] at bounded
      omega
  obtain ⟨rest, rfl⟩ := inside
  have front := prefix_fill cap (kept ++ rest).flatten (left :: later)
  rw [after] at front
  have unchanged : kept.flatten = (kept ++ rest).flatten := by
    apply List.IsPrefix.eq_of_length_le _ front.length_le
    rw [List.flatten_append]
    exact List.prefix_append _ _
  rw [unchanged] at after
  intro item member
  exact fill_eq_self_iff.mp after item (List.mem_cons_of_mem left member)

end BoundedFill
