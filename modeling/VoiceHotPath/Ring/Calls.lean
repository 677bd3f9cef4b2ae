import VoiceHotPath.Ring.Fifo

/-!
# Calls of the ring

A thread that runs `try_push` or `try_pop` to its end takes one step of its side
after the other until a step returns.  What each step can do to the histories is
said once here, for the threads built on the ring.
-/

namespace VoiceHotPath

inductive PushResult where
  | ok
  | full
  deriving DecidableEq, Repr

/-- The value a running `try_push` was called with. -/
def Producer.offered {α : Type} : Producer α → Option α
  | .idle => none
  | .loadHead value | .check value _ | .loadTail value _ | .storeCache value _ _ _
  | .recheck value _ _ | .copy value _ | .publish value _ => some value

namespace SpscState

variable {α : Type} {capacity : Capacity}

/-- What the next step of `try_push` returns, if it is the last one. -/
def pushAnswer (state : SpscState α capacity) : Option PushResult :=
  match state.producer with
  | .recheck _ head _ =>
      if capacity.value ≤ head - state.ring.tailCache then some .full else none
  | .publish _ _ => some .ok
  | _ => none

/-- What the next step of `try_pop` returns, if it is the last one. -/
def popAnswer (state : SpscState α capacity) : Option (Option α) :=
  match state.consumer with
  | .recheck tail _ => if tail = state.ring.headCache then some none else none
  | .publish _ out => some (some out)
  | _ => none

/-- The three outcomes of one step of `try_push`. -/
theorem stepProducer_cases (state : SpscState α capacity) (value : α) :
    (state.pushAnswer = none ∧ (state.stepProducer value).pushed = state.pushed ∧
      (state.stepProducer value).producer.offered = some (state.producer.offered.getD value)) ∨
    (∃ offered, state.producer.offered = some offered ∧ state.pushAnswer = some .ok ∧
      (state.stepProducer value).pushed = state.pushed ++ [offered] ∧
      (state.stepProducer value).producer = .idle) ∨
    ∃ offered, state.producer.offered = some offered ∧ state.pushAnswer = some .full ∧
      (state.stepProducer value).pushed = state.pushed ∧
      (state.stepProducer value).producer = .idle := by
  unfold pushAnswer stepProducer
  cases pc : state.producer with
  | check offered head =>
      dsimp only
      refine .inl ⟨rfl, ?_, ?_⟩
      · split <;> rfl
      · split <;> rfl
  | recheck offered head held =>
      dsimp only
      split
      · exact .inr (.inr ⟨offered, rfl, rfl, rfl, rfl⟩)
      · exact .inl ⟨rfl, rfl, rfl⟩
  | publish offered head => exact .inr (.inl ⟨offered, rfl, rfl, rfl, rfl⟩)
  | _ => exact .inl ⟨rfl, rfl, rfl⟩

section

variable {state : SpscState α capacity} {value : α}

/-- A push that begins. -/
theorem stepProducer_begin (idle : state.producer.offered = none) (value : α) :
    (state.stepProducer value).pushed = state.pushed ∧
      (state.stepProducer value).producer.offered = some value := by
  obtain ⟨-, pushed, offered⟩ | ⟨_, busy, -⟩ | ⟨_, busy, -⟩ := state.stepProducer_cases value
  · rw [idle] at offered
    exact ⟨pushed, offered⟩
  · rw [idle] at busy
    cases busy
  · rw [idle] at busy
    cases busy

/-- A push that goes on. -/
theorem stepProducer_goOn (offering : state.producer.offered = some value)
    (running : state.pushAnswer = none) (other : α) :
    (state.stepProducer other).pushed = state.pushed ∧
      (state.stepProducer other).producer.offered = some value := by
  obtain ⟨-, pushed, offered⟩ | ⟨_, -, stopped, -⟩ | ⟨_, -, stopped, -⟩ :=
    state.stepProducer_cases other
  · rw [offering] at offered
    exact ⟨pushed, offered⟩
  · rw [running] at stopped
    cases stopped
  · rw [running] at stopped
    cases stopped

/-- A push that returns: the value is in the ring unless the ring was full. -/
theorem stepProducer_return (offering : state.producer.offered = some value) {result : PushResult}
    (answered : state.pushAnswer = some result) (other : α) :
    (state.stepProducer other).pushed =
        state.pushed ++ (if result == .full then [] else [value]) ∧
      (state.stepProducer other).producer = .idle := by
  obtain ⟨running, -⟩ | ⟨offered, there, ok, pushed, idle⟩ | ⟨offered, -, full, pushed, idle⟩ :=
    state.stepProducer_cases other
  · rw [answered] at running
    cases running
  · obtain rfl := Option.some.inj (answered.symm.trans ok)
    obtain rfl := Option.some.inj (offering.symm.trans there)
    exact ⟨pushed, idle⟩
  · obtain rfl := Option.some.inj (answered.symm.trans full)
    exact ⟨pushed.trans (List.append_nil _).symm, idle⟩

end

/-- The three outcomes of one step of `try_pop`. -/
theorem stepConsumer_cases (state : SpscState α capacity) :
    (state.popAnswer = none ∧ state.stepConsumer.popped = state.popped ∧
      state.stepConsumer.consumer ≠ .idle) ∨
    (∃ out, state.popAnswer = some (some out) ∧
      state.stepConsumer.popped = state.popped ++ [out] ∧
      state.stepConsumer.consumer = .idle) ∨
    (state.popAnswer = some none ∧ state.stepConsumer.popped = state.popped ∧
      state.stepConsumer.consumer = .idle) := by
  unfold popAnswer stepConsumer
  cases pc : state.consumer with
  | check tail =>
      dsimp only
      refine .inl ⟨rfl, ?_, ?_⟩
      · split <;> rfl
      · split <;> exact fun absent => by cases absent
  | recheck tail held =>
      dsimp only
      split
      · exact .inr (.inr ⟨rfl, rfl, rfl⟩)
      · exact .inl ⟨rfl, rfl, fun absent => by cases absent⟩
  | publish tail out => exact .inr (.inl ⟨out, rfl, rfl, rfl⟩)
  | _ => exact .inl ⟨rfl, rfl, fun absent => by cases absent⟩

/-- What a step of `try_pop` adds to the items popped. -/
theorem popped_stepConsumer (state : SpscState α capacity) :
    state.stepConsumer.popped = state.popped ++ state.popAnswer.join.toList := by
  obtain ⟨answer, popped, -⟩ | ⟨out, answer, popped, -⟩ | ⟨answer, popped, -⟩ :=
    state.stepConsumer_cases
  · rw [answer, popped]
    exact (List.append_nil _).symm
  · rw [answer, popped]
    rfl
  · rw [answer, popped]
    exact (List.append_nil _).symm

/-- A step of the producer leaves what the consumer owns. -/
theorem stepProducer_keeps (state : SpscState α capacity) (value : α) :
    (state.stepProducer value).popped = state.popped ∧
      (state.stepProducer value).consumer = state.consumer ∧
      (state.stepProducer value).ring.tail = state.ring.tail := by
  unfold stepProducer
  split <;> first | exact ⟨rfl, rfl, rfl⟩ | (split <;> exact ⟨rfl, rfl, rfl⟩)

/-- A step of the consumer leaves what the producer owns. -/
theorem stepConsumer_keeps (state : SpscState α capacity) :
    state.stepConsumer.pushed = state.pushed ∧
      state.stepConsumer.producer = state.producer ∧
      state.stepConsumer.ring.head = state.ring.head := by
  unfold stepConsumer
  split <;> first | exact ⟨rfl, rfl, rfl⟩ | (split <;> exact ⟨rfl, rfl, rfl⟩)

variable {start : UInt64} {state : SpscState α capacity}

/-- The invariant with its two cached numbers hidden. -/
def Fifo (start : UInt64) (state : SpscState α capacity) : Prop :=
  ∃ seen known, Inv start state seen known

theorem fifo_initial (start : UInt64) (slots : Vector α capacity.size) :
    Fifo start (initial start slots) :=
  ⟨0, 0, inv_initial start slots⟩

theorem Fifo.stepProducer (fifo : Fifo start state) (value : α) :
    Fifo start (state.stepProducer value) := by
  obtain ⟨seen, known, inv⟩ := fifo
  obtain ⟨seen', next⟩ := inv.stepProducer value
  exact ⟨seen', known, next⟩

theorem Fifo.stepConsumer (fifo : Fifo start state) : Fifo start state.stepConsumer := by
  obtain ⟨seen, known, inv⟩ := fifo
  obtain ⟨known', next⟩ := inv.stepConsumer
  exact ⟨seen, known', next⟩

theorem Fifo.popped_prefix (fifo : Fifo start state) : state.popped <+: state.pushed := by
  obtain ⟨seen, known, inv⟩ := fifo
  exact inv.indexed.fifo

/-- `size()` is the number of items pushed and not yet popped. -/
theorem Fifo.toNat_size (fifo : Fifo start state) :
    (state.ring.head - state.ring.tail).toNat = state.pushed.length - state.popped.length := by
  obtain ⟨seen, known, inv⟩ := fifo
  have order := inv.indexed.popped_le_pushed
  have room := inv.indexed.room
  have seen_le := inv.indexed.seen_le
  have bound := capacity.size_lt
  rw [inv.indexed.head, inv.indexed.tail]
  exact WrappingCounter.toNat_count_sub start order (by omega)

/-- An empty ring has returned every item. -/
theorem Fifo.drained (fifo : Fifo start state) (empty : state.ring.head = state.ring.tail) :
    state.popped = state.pushed := by
  have size := fifo.toNat_size
  rw [empty, UInt64.sub_self] at size
  have none : state.pushed.length - state.popped.length = 0 := size.symm
  exact fifo.popped_prefix.eq_of_length_le (Nat.le_of_sub_eq_zero none)

end SpscState

end VoiceHotPath
