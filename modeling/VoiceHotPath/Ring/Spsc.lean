import VoiceHotPath.Lib.WrappingCounter

/-!
# The single-producer single-consumer ring

`try_push` and `try_pop` as the sequences of loads, stores and slot copies they
are.  A schedule interleaves the steps of both sides in any order and may kill
the producer between any two of its steps; the next producer finds the indices
and the cached tail where the last one left them.
-/

namespace VoiceHotPath

/-- A capacity that passes the ring's static assertions. -/
structure Capacity where
  value : UInt64
  atLeastTwo : 2 ≤ value
  power : ∃ k, value.toNat = 2 ^ k

namespace Capacity

def size (capacity : Capacity) : Nat :=
  capacity.value.toNat

/-- `kMask`. -/
def mask (capacity : Capacity) : UInt64 :=
  capacity.value - 1

theorem toNat_mask (capacity : Capacity) : capacity.mask.toNat = capacity.size - 1 := by
  have one : (1 : UInt64) ≤ capacity.value :=
    UInt64.le_trans (by decide) capacity.atLeastTwo
  exact UInt64.toNat_sub_of_le _ _ one

theorem size_pos (capacity : Capacity) : 0 < capacity.size := by
  have two := UInt64.le_iff_toNat_le.mp capacity.atLeastTwo
  exact Nat.lt_of_lt_of_le Nat.zero_lt_two two

theorem size_lt (capacity : Capacity) : capacity.size < 2 ^ 64 :=
  UInt64.toNat_lt capacity.value

/-- The slot of a sequence number. -/
def slot (capacity : Capacity) (seq : UInt64) : Fin capacity.size :=
  ⟨(seq &&& capacity.mask).toNat, by
    have positive := capacity.size_pos
    have bound : (seq &&& capacity.mask).toNat ≤ capacity.mask.toNat := by
      rw [UInt64.toNat_and]
      exact Nat.and_le_right
    rw [capacity.toNat_mask] at bound
    omega⟩

/-- Counting on from any start, the slots are taken in turn. -/
theorem slot_count (capacity : Capacity) (start : UInt64) (n : Nat) :
    (capacity.slot (WrappingCounter.count start n)).val = (start.toNat + n) % capacity.size := by
  obtain ⟨k, power⟩ := capacity.power
  have size : capacity.size = 2 ^ k := power
  have mask : capacity.mask.toNat = 2 ^ k - 1 := by
    rw [toNat_mask, size]
  have small : k ≤ 64 := by
    have bound := capacity.size_lt
    rw [size] at bound
    exact Nat.le_of_lt ((Nat.pow_lt_pow_iff_right Nat.one_lt_two).mp bound)
  have masked := WrappingCounter.toNat_count_and start capacity.mask n small mask
  exact masked.trans (congrArg _ size.symm)

end Capacity

/-- The memory both sides map: either side writes its own index and cache only. -/
structure SpscRing (α : Type) (capacity : Capacity) where
  head : UInt64
  tailCache : UInt64
  tail : UInt64
  headCache : UInt64
  slots : Vector α capacity.size

/-- Where `try_push` is.  `held` remembers the items in the ring when tail was re-read. -/
inductive Producer (α : Type) where
  | idle
  | loadHead (value : α)
  | check (value : α) (head : UInt64)
  | loadTail (value : α) (head : UInt64)
  | storeCache (value : α) (head tail : UInt64) (held : Nat)
  | recheck (value : α) (head : UInt64) (held : Nat)
  | copy (value : α) (head : UInt64)
  | publish (value : α) (head : UInt64)

/-- Where `try_pop` is.  `held` remembers the items in the ring when head was re-read. -/
inductive Consumer (α : Type) where
  | idle
  | loadTail
  | check (tail : UInt64)
  | loadHead (tail : UInt64)
  | storeCache (tail head : UInt64) (held : Nat)
  | recheck (tail : UInt64) (held : Nat)
  | copy (tail : UInt64)
  | publish (tail : UInt64) (out : α)

/-- A refusal, with the items held when the other side's index was re-read. -/
inductive Refusal where
  | full (held : Nat)
  | empty (held : Nat)
  deriving DecidableEq, Repr

/-- Ring, program counters, and the history of committed pushes, pops and refusals. -/
structure SpscState (α : Type) (capacity : Capacity) where
  ring : SpscRing α capacity
  producer : Producer α := .idle
  consumer : Consumer α := .idle
  pushed : List α := []
  popped : List α := []
  refusals : List Refusal := []

/-- One entry of a schedule; an idle producer starts a push of the value. -/
inductive Actor (α : Type) where
  | producer (value : α)
  | kill
  | consumer

namespace SpscState

variable {α : Type} {capacity : Capacity}

/-- Items pushed and not yet popped. -/
def held (state : SpscState α capacity) : Nat :=
  state.pushed.length - state.popped.length

/-- One step of `try_push`. -/
def stepProducer (state : SpscState α capacity) (value : α) : SpscState α capacity :=
  match state.producer with
  | .idle => { state with producer := .loadHead value }
  | .loadHead value => { state with producer := .check value state.ring.head }
  | .check value head =>
      if capacity.value ≤ head - state.ring.tailCache then
        { state with producer := .loadTail value head }
      else { state with producer := .copy value head }
  | .loadTail value head =>
      { state with producer := .storeCache value head state.ring.tail state.held }
  | .storeCache value head tail held =>
      { state with
        ring := { state.ring with tailCache := tail }
        producer := .recheck value head held }
  | .recheck value head held =>
      if capacity.value ≤ head - state.ring.tailCache then
        { state with producer := .idle, refusals := state.refusals ++ [.full held] }
      else { state with producer := .copy value head }
  | .copy value head =>
      { state with
        ring := { state.ring with
          slots := state.ring.slots.set (capacity.slot head) value }
        producer := .publish value head }
  | .publish value head =>
      { state with
        ring := { state.ring with head := head + 1 }
        producer := .idle
        pushed := state.pushed ++ [value] }

/-- One step of `try_pop`. -/
def stepConsumer (state : SpscState α capacity) : SpscState α capacity :=
  match state.consumer with
  | .idle => { state with consumer := .loadTail }
  | .loadTail => { state with consumer := .check state.ring.tail }
  | .check tail =>
      if tail = state.ring.headCache then { state with consumer := .loadHead tail }
      else { state with consumer := .copy tail }
  | .loadHead tail =>
      { state with consumer := .storeCache tail state.ring.head state.held }
  | .storeCache tail head held =>
      { state with
        ring := { state.ring with headCache := head }
        consumer := .recheck tail held }
  | .recheck tail held =>
      if tail = state.ring.headCache then
        { state with consumer := .idle, refusals := state.refusals ++ [.empty held] }
      else { state with consumer := .copy tail }
  | .copy tail =>
      { state with consumer := .publish tail state.ring.slots[capacity.slot tail] }
  | .publish tail out =>
      { state with
        ring := { state.ring with tail := tail + 1 }
        consumer := .idle
        popped := state.popped ++ [out] }

def step (state : SpscState α capacity) : Actor α → SpscState α capacity
  | .producer value => state.stepProducer value
  | .kill => { state with producer := .idle }
  | .consumer => state.stepConsumer

/-- An empty ring with both indices at `start`. -/
def initial (start : UInt64) (slots : Vector α capacity.size) : SpscState α capacity :=
  { ring :=
      { head := start, tailCache := start, tail := start, headCache := start, slots := slots } }

def run (state : SpscState α capacity) (schedule : List (Actor α)) : SpscState α capacity :=
  schedule.foldl step state

end SpscState

end VoiceHotPath
