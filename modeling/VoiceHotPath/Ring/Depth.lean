import Mathlib.Data.List.Infix
import VoiceHotPath.Ring.Calls

/-!
# Observing the depth of the ring

`size()` loads the two indices one after the other while the other side keeps
running, in whatever order the compiler has chosen.  Called from either side,
one of the indices stands still, and the other moves towards it or away from it
no further than the capacity.
-/

namespace VoiceHotPath

open WrappingCounter

/-- The operands of the subtraction may be evaluated in either order. -/
inductive LoadOrder where
  | headFirst
  | tailFirst
  deriving DecidableEq, Repr

/-- Where `size()` is.  `before` remembers the items pushed when head was loaded. -/
inductive Observation (α : Type) where
  | start (order : LoadOrder)
  | loadTail (head : UInt64) (before : List α)
  | loadHead (tail : UInt64)

/-- An answer of `size()`, with the items pushed when it loaded head and those popped when it
returned. -/
structure Depth (α : Type) where
  size : UInt64
  before : List α
  popped : List α

/-- The answer of `empty()`. -/
def Depth.empty {α : Type} (depth : Depth α) : Bool :=
  depth.size == 0

/-- The ring, the observation each side is in the middle of, and the answers so far. -/
structure ObservedRing (α : Type) (capacity : Capacity) where
  state : SpscState α capacity
  producer : Option (Observation α) := none
  consumer : Option (Observation α) := none
  depths : List (Depth α) := []

/-- One entry of a schedule; a side that is between its operations may start an observation. -/
inductive Observer (α : Type) where
  | producer (value : α) (observes : Option LoadOrder)
  | kill
  | consumer (observes : Option LoadOrder)

section

variable {α : Type} {capacity : Capacity}

/-- One step of `size()`. -/
def Observation.step (observation : Observation α) (state : SpscState α capacity) :
    Option (Observation α) × Option (Depth α) :=
  match observation with
  | .start .headFirst => (some (.loadTail state.ring.head state.pushed), none)
  | .start .tailFirst => (some (.loadHead state.ring.tail), none)
  | .loadTail head before =>
      (none, some { size := head - state.ring.tail, before := before, popped := state.popped })
  | .loadHead tail =>
      (none,
        some { size := state.ring.head - tail, before := state.pushed, popped := state.popped })

namespace ObservedRing

def stepProducer (ring : ObservedRing α capacity) (value : α) (observes : Option LoadOrder) :
    ObservedRing α capacity :=
  match ring.producer with
  | some observation =>
      let (left, depth) := observation.step ring.state
      { ring with producer := left, depths := ring.depths ++ depth.toList }
  | none =>
      match observes, ring.state.producer with
      | some order, .idle => { ring with producer := some (.start order) }
      | _, _ => { ring with state := ring.state.stepProducer value }

def stepConsumer (ring : ObservedRing α capacity) (observes : Option LoadOrder) :
    ObservedRing α capacity :=
  match ring.consumer with
  | some observation =>
      let (left, depth) := observation.step ring.state
      { ring with consumer := left, depths := ring.depths ++ depth.toList }
  | none =>
      match observes, ring.state.consumer with
      | some order, .idle => { ring with consumer := some (.start order) }
      | _, _ => { ring with state := ring.state.stepConsumer }

def step (ring : ObservedRing α capacity) : Observer α → ObservedRing α capacity
  | .producer value observes => ring.stepProducer value observes
  | .kill => { ring with state := ring.state.step .kill, producer := none }
  | .consumer observes => ring.stepConsumer observes

/-- An empty ring that nobody observes, with both indices at `start`. -/
def initial (start : UInt64) (slots : Vector α capacity.size) : ObservedRing α capacity :=
  { state := SpscState.initial start slots }

def run (ring : ObservedRing α capacity) (schedule : List (Observer α)) :
    ObservedRing α capacity :=
  schedule.foldl step ring

end ObservedRing

/-! ## What an observer knows -/

namespace SpscState

variable {start : UInt64} {state : SpscState α capacity}

/-- The indices count the commits, which are no further apart than the capacity. -/
theorem Fifo.counts (fifo : Fifo start state) :
    state.ring.head = count start state.pushed.length ∧
      state.ring.tail = count start state.popped.length ∧
      state.popped.length ≤ state.pushed.length ∧
      state.pushed.length ≤ state.popped.length + capacity.size := by
  obtain ⟨seen, known, inv⟩ := fifo
  have room := inv.indexed.room
  have seen_le := inv.indexed.seen_le
  exact ⟨inv.indexed.head, inv.indexed.tail, inv.indexed.popped_le_pushed, by omega⟩

theorem Fifo.kill (fifo : Fifo start state) : Fifo start (state.step .kill) := by
  obtain ⟨seen, known, inv⟩ := fifo
  exact ⟨seen, known, inv.withProducer trivial⟩

theorem pushed_prefix_stepProducer (state : SpscState α capacity) (value : α) :
    state.pushed <+: (state.stepProducer value).pushed := by
  obtain ⟨-, same, -⟩ | ⟨offered, -, -, same, -⟩ | ⟨offered, -, -, same, -⟩ :=
    state.stepProducer_cases value
  · rw [same]
  · rw [same]
    exact List.prefix_append _ _
  · rw [same]

theorem popped_prefix_stepConsumer (state : SpscState α capacity) :
    state.popped <+: state.stepConsumer.popped := by
  rw [popped_stepConsumer]
  exact List.prefix_append _ _

end SpscState

open SpscState

variable {start : UInt64} {state : SpscState α capacity}

/-- The producer has pushed nothing since its first load. -/
def ProducerSees (start : UInt64) (state : SpscState α capacity) :
    Option (Observation α) → Prop
  | some (.loadTail head before) => head = count start before.length ∧ before = state.pushed
  | some (.loadHead tail) => ∃ n, tail = count start n ∧ n ≤ state.popped.length ∧
      state.pushed.length ≤ n + capacity.size
  | _ => True

/-- The consumer has popped nothing since its first load. -/
def ConsumerSees (start : UInt64) (state : SpscState α capacity) :
    Option (Observation α) → Prop
  | some (.loadTail head before) => head = count start before.length ∧ before <+: state.pushed ∧
      state.popped.length ≤ before.length ∧ before.length ≤ state.popped.length + capacity.size
  | some (.loadHead tail) => tail = count start state.popped.length
  | _ => True

/-- The consumer moving on leaves what the producer has seen. -/
theorem ProducerSees.stepConsumer {observation : Option (Observation α)}
    (sees : ProducerSees start state observation) :
    ProducerSees start state.stepConsumer observation := by
  obtain ⟨pushed, -, -⟩ := state.stepConsumer_keeps
  have later := state.popped_prefix_stepConsumer.length_le
  cases observation with
  | none => trivial
  | some observation =>
      cases observation with
      | start order => trivial
      | loadTail head before => exact ⟨sees.1, sees.2.trans pushed.symm⟩
      | loadHead tail =>
          obtain ⟨n, same, below, room⟩ := sees
          exact ⟨n, same, below.trans later, pushed.symm ▸ room⟩

/-- The producer moving on leaves what the consumer has seen. -/
theorem ConsumerSees.stepProducer {observation : Option (Observation α)}
    (sees : ConsumerSees start state observation) (value : α) :
    ConsumerSees start (state.stepProducer value) observation := by
  obtain ⟨popped, -, -⟩ := state.stepProducer_keeps value
  cases observation with
  | none => trivial
  | some observation =>
      cases observation with
      | start order => trivial
      | loadTail head before =>
          obtain ⟨same, earlier, above, room⟩ := sees
          refine ⟨same, earlier.trans (state.pushed_prefix_stepProducer value), ?_, ?_⟩
          · rw [popped]
            exact above
          · rw [popped]
            exact room
      | loadHead tail =>
          change tail = _
          rw [popped]
          exact sees

/-! ## What an observer answers -/

/-- The answer is a depth the ring can have, and zero only if what was pushed is popped. -/
structure Depth.Sane (capacity : Capacity) (depth : Depth α) : Prop where
  small : depth.size.toNat ≤ capacity.size
  drained : depth.empty = true → depth.before <+: depth.popped

/-- Indices of an earlier and a later number of commits do not wrap. -/
theorem sane_of_counts {before popped pushed : List α} {n : Nat} (earlier : before <+: pushed)
    (order : popped <+: pushed) (least : n ≤ before.length)
    (room : before.length ≤ n + capacity.size) (reached : n ≤ popped.length) :
    Depth.Sane capacity { size := count start before.length - count start n
                          before := before
                          popped := popped } := by
  have bound := capacity.size_lt
  have difference := toNat_count_sub start least (by omega)
  constructor
  · change (count start before.length - count start n).toNat ≤ _
    omega
  · intro empty
    have zero : count start before.length - count start n = 0 := eq_of_beq empty
    rw [zero] at difference
    have nothing : before.length - n = 0 := difference.symm
    have short : before.length ≤ popped.length := by omega
    exact List.prefix_of_prefix_length_le earlier order short

theorem Observation.step_producer {observation : Observation α} (fifo : Fifo start state)
    (sees : ProducerSees start state (some observation)) :
    ProducerSees start state (observation.step state).1 ∧
      ∀ depth ∈ (observation.step state).2, depth.Sane capacity := by
  obtain ⟨head, tail, order, room⟩ := fifo.counts
  cases observation with
  | start order =>
      refine ⟨?_, ?_⟩
      · cases order with
        | headFirst => exact ⟨head, rfl⟩
        | tailFirst => exact ⟨_, tail, Nat.le_refl _, room⟩
      · cases order with
        | headFirst => exact fun _ absent => by cases absent
        | tailFirst => exact fun _ absent => by cases absent
  | loadTail loaded before =>
      obtain ⟨rfl, rfl⟩ := sees
      refine ⟨trivial, ?_⟩
      rintro depth ⟨⟩
      rw [tail]
      exact sane_of_counts List.prefix_rfl fifo.popped_prefix order room (Nat.le_refl _)
  | loadHead loaded =>
      obtain ⟨n, rfl, below, room⟩ := sees
      refine ⟨trivial, ?_⟩
      rintro depth ⟨⟩
      rw [head]
      exact sane_of_counts List.prefix_rfl fifo.popped_prefix (below.trans order) room below

theorem Observation.step_consumer {observation : Observation α} (fifo : Fifo start state)
    (sees : ConsumerSees start state (some observation)) :
    ConsumerSees start state (observation.step state).1 ∧
      ∀ depth ∈ (observation.step state).2, depth.Sane capacity := by
  obtain ⟨head, tail, order, room⟩ := fifo.counts
  cases observation with
  | start choice =>
      refine ⟨?_, ?_⟩
      · cases choice with
        | headFirst => exact ⟨head, List.prefix_rfl, order, room⟩
        | tailFirst => exact tail
      · cases choice with
        | headFirst => exact fun _ absent => by cases absent
        | tailFirst => exact fun _ absent => by cases absent
  | loadTail loaded before =>
      obtain ⟨rfl, earlier, above, room⟩ := sees
      refine ⟨trivial, ?_⟩
      rintro depth ⟨⟩
      rw [tail]
      exact sane_of_counts earlier fifo.popped_prefix above room (Nat.le_refl _)
  | loadHead loaded =>
      obtain rfl : loaded = _ := sees
      refine ⟨trivial, ?_⟩
      rintro depth ⟨⟩
      rw [head]
      exact sane_of_counts List.prefix_rfl fifo.popped_prefix order room (Nat.le_refl _)

/-! ## Every interleaving -/

namespace ObservedRing

structure Inv (start : UInt64) (ring : ObservedRing α capacity) : Prop where
  fifo : Fifo start ring.state
  producer : ProducerSees start ring.state ring.producer
  consumer : ConsumerSees start ring.state ring.consumer
  sane : ∀ depth ∈ ring.depths, depth.Sane capacity

variable {ring : ObservedRing α capacity}

theorem Inv.sane_append (inv : Inv start ring) {depth : Option (Depth α)}
    (answer : ∀ other ∈ depth, other.Sane capacity) :
    ∀ other ∈ ring.depths ++ depth.toList, other.Sane capacity := by
  intro other member
  rcases List.mem_append.mp member with old | new
  · exact inv.sane other old
  · exact answer other (Option.mem_toList.mp new)

theorem Inv.stepProducer (inv : Inv start ring) (value : α) (observes : Option LoadOrder) :
    Inv start (ring.stepProducer value observes) := by
  unfold ObservedRing.stepProducer
  cases observing : ring.producer with
  | some observation =>
      have sees := inv.producer
      rw [observing] at sees
      obtain ⟨next, answer⟩ := Observation.step_producer inv.fifo sees
      exact ⟨inv.fifo, next, inv.consumer, inv.sane_append answer⟩
  | none =>
      have moved : Inv start { ring with state := ring.state.stepProducer value } := by
        refine ⟨inv.fifo.stepProducer value, ?_, inv.consumer.stepProducer value, inv.sane⟩
        change ProducerSees start _ ring.producer
        rw [observing]
        trivial
      dsimp only
      split
      · exact ⟨inv.fifo, trivial, inv.consumer, inv.sane⟩
      · rw [observing] at moved
        exact moved

theorem Inv.stepConsumer (inv : Inv start ring) (observes : Option LoadOrder) :
    Inv start (ring.stepConsumer observes) := by
  unfold ObservedRing.stepConsumer
  cases observing : ring.consumer with
  | some observation =>
      have sees := inv.consumer
      rw [observing] at sees
      obtain ⟨next, answer⟩ := Observation.step_consumer inv.fifo sees
      exact ⟨inv.fifo, inv.producer, next, inv.sane_append answer⟩
  | none =>
      have moved : Inv start { ring with state := ring.state.stepConsumer } := by
        refine ⟨inv.fifo.stepConsumer, inv.producer.stepConsumer, ?_, inv.sane⟩
        change ConsumerSees start _ ring.consumer
        rw [observing]
        trivial
      dsimp only
      split
      · exact ⟨inv.fifo, inv.producer, trivial, inv.sane⟩
      · rw [observing] at moved
        exact moved

/-- Step lemma: every entry of a schedule keeps the invariant. -/
theorem Inv.step (inv : Inv start ring) (observer : Observer α) :
    Inv start (ring.step observer) := by
  cases observer with
  | producer value observes => exact inv.stepProducer value observes
  | kill =>
      refine ⟨inv.fifo.kill, trivial, ?_, inv.sane⟩
      exact inv.consumer
  | consumer observes => exact inv.stepConsumer observes

/-- Run lemma: every schedule keeps the invariant. -/
theorem Inv.run (inv : Inv start ring) (schedule : List (Observer α)) :
    Inv start (ring.run schedule) := by
  induction schedule generalizing ring with
  | nil => exact inv
  | cons observer schedule ih => exact ih (inv.step observer)

/-- In every schedule, whatever kills it contains, `size()` of either side answers at most the
capacity, and `empty()` answers true only if every item pushed before its head load is popped. -/
theorem depths_sane (capacity : Capacity) (start : UInt64) (slots : Vector α capacity.size)
    (schedule : List (Observer α)) :
    ∀ depth ∈ ((initial start slots).run schedule).depths,
      depth.size.toNat ≤ capacity.size ∧ (depth.empty = true → depth.before <+: depth.popped) := by
  have inv : Inv start (initial start slots) :=
    ⟨fifo_initial start slots, trivial, trivial, fun _ absent => by cases absent⟩
  intro depth answered
  have sane := (inv.run schedule).sane depth answered
  exact ⟨sane.small, sane.drained⟩

/-- The consumer loads head, and the second item is pushed before it loads tail. -/
theorem depths_sane_pushedMeanwhile :
    let capacity : Capacity := ⟨2, by decide, 1, rfl⟩
    let ring := (initial 0 (Vector.replicate capacity.size 0)).run
      (List.replicate 5 (.producer 7 none) ++ List.replicate 8 (.consumer none) ++
        [.consumer (some .headFirst), .consumer none] ++ List.replicate 5 (.producer 8 none) ++
        [.consumer none])
    ring.state.pushed = [7, 8] ∧ ∃ depth ∈ ring.depths,
      depth.size.toNat ≤ 2 ∧ depth.empty = true ∧ depth.before <+: depth.popped := by
  intro capacity ring
  have pushed : ring.state.pushed = [7, 8] := by decide +kernel
  have answered : 0 ∈ ring.depths.map Depth.size := by decide +kernel
  obtain ⟨depth, member, none⟩ := List.mem_map.mp answered
  have empty : depth.empty = true := by
    rw [Depth.empty, none]
    rfl
  obtain ⟨small, drained⟩ := depths_sane capacity 0 _ _ depth member
  exact ⟨pushed, depth, member, small, empty, drained empty⟩

end ObservedRing

end

end VoiceHotPath
