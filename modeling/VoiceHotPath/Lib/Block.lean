import Mathlib.Data.List.Basic

/-!
# Blocks of memory

Copying a range out of a block of fixed size and copying a list into it.  What
is loaded from a range just stored is what was stored; what is loaded from
before it is what was there.
-/

namespace Block

section

variable {α : Type} {n : Nat}

/-- The `len` items from `start` on. -/
def load (block : Vector α n) (start len : Nat) : List α :=
  (block.toList.drop start).take len

/-- The block with `items` copied in from `start` on. -/
def store (block : Vector α n) (start : Nat) (items : List α) : Vector α n :=
  Vector.ofFn fun i =>
    if inside : start ≤ i.val ∧ i.val < start + items.length then
      have below : i.val - start < items.length := by omega
      items[i.val - start]
    else block[i]

/-- The block with the `len` items from `source` on copied to `target`; the ranges may overlap. -/
def move (block : Vector α n) (target source len : Nat) : Vector α n :=
  store block target (load block source len)

theorem length_load (block : Vector α n) {start len : Nat} (fits : start + len ≤ n) :
    (load block start len).length = len := by
  simp [load]
  omega

@[simp] theorem load_zero_len (block : Vector α n) (start : Nat) :
    load block start 0 = [] := by
  simp [load]

/-- Two adjacent ranges load as one. -/
theorem load_add (block : Vector α n) (start len len' : Nat) :
    load block start (len + len') = load block start len ++ load block (start + len) len' := by
  unfold load
  rw [List.take_add, List.drop_drop]

theorem drop_load (block : Vector α n) (start len k : Nat) :
    (load block start len).drop k = load block (start + k) (len - k) := by
  unfold load
  rw [List.drop_take, List.drop_drop]

theorem take_load (block : Vector α n) (start : Nat) {len k : Nat} (inside : k ≤ len) :
    (load block start len).take k = load block start k := by
  unfold load
  rw [List.take_take, Nat.min_eq_left inside]

theorem getElem?_load (block : Vector α n) (start len i : Nat) :
    (load block start len)[i]? = if i < len then block[start + i]? else none := by
  unfold load
  rw [List.getElem?_take]
  simp

theorem getElem?_store (block : Vector α n) (start : Nat) (items : List α) {i : Nat}
    (inside : i < n) :
    (store block start items)[i]? =
      if start ≤ i ∧ i < start + items.length then items[i - start]? else block[i]? := by
  simp [store, inside]
  split
  · rename_i covered
    exact (List.getElem?_eq_getElem _).symm
  · rfl

/-- A range just stored loads as what was stored. -/
theorem load_store_self (block : Vector α n) {start : Nat} {items : List α}
    (fits : start + items.length ≤ n) :
    load (store block start items) start items.length = items := by
  apply List.ext_getElem?
  intro i
  rw [getElem?_load]
  split
  · rename_i inside
    rw [getElem?_store _ _ _ (by omega), if_pos (by omega), Nat.add_sub_cancel_left]
  · rename_i outside
    exact (List.getElem?_eq_none (Nat.le_of_not_lt outside)).symm

/-- A store leaves what lies before it. -/
theorem load_store_below (block : Vector α n) {start len first : Nat} (items : List α)
    (below : start + len ≤ first) (inside : first ≤ n) :
    load (store block first items) start len = load block start len := by
  apply List.ext_getElem?
  intro i
  rw [getElem?_load, getElem?_load]
  split
  · rw [getElem?_store _ _ _ (by omega), if_neg (by omega)]
  · rfl

/-- Items stored behind what a block holds are appended to it. -/
theorem load_store_append (block : Vector α n) {filled : Nat} {items : List α}
    (fits : filled + items.length ≤ n) :
    load (store block filled items) 0 (filled + items.length) =
      load block 0 filled ++ items := by
  rw [load_add, Nat.zero_add, load_store_self block fits,
    load_store_below block items (Nat.le_of_eq (Nat.zero_add filled)) (by omega)]

/-- A range moved loads at its new place as it did at the old one. -/
theorem load_move (block : Vector α n) {target source len : Nat} (fits : source + len ≤ n)
    (room : target + len ≤ n) :
    load (move block target source len) target len = load block source len := by
  have length := length_load block fits
  have inside : target + (load block source len).length ≤ n := length.symm ▸ room
  have stored := load_store_self block inside
  rwa [length] at stored

end

end Block
