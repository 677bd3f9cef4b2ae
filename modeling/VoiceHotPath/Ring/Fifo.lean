import VoiceHotPath.Lib.OverwriteRing
import VoiceHotPath.Ring.Spsc

/-!
# The ring is a FIFO queue

Each index counts the commits of its side, each cache a number of commits the
other side had reached earlier.  The caches err on the safe side, so the slot
being copied is never one the other side is using.
-/

namespace VoiceHotPath

open WrappingCounter

namespace SpscState

variable {α : Type} {capacity : Capacity}

/-- The indices count commits; `seen` and `known` are what the caches count. -/
structure Indexed (start : UInt64) (ring : SpscRing α capacity) (pushed popped : List α)
    (seen known : Nat) : Prop where
  head : ring.head = count start pushed.length
  tail : ring.tail = count start popped.length
  tailCache : ring.tailCache = count start seen
  headCache : ring.headCache = count start known
  seen_le : seen ≤ popped.length
  room : pushed.length ≤ seen + capacity.size
  popped_le : popped.length ≤ known
  known_le : known ≤ pushed.length
  fifo : popped <+: pushed
  slots : ∀ j, popped.length ≤ j → j < pushed.length →
    pushed[j]? = some ring.slots[capacity.slot (count start j)]

/-- What the producer knows at each of its steps. -/
def ProducerOk (start : UInt64) (slots : Vector α capacity.size) (pushed popped seen : Nat) :
    Producer α → Prop
  | .idle => True
  | .loadHead _ => True
  | .check _ head => head = count start pushed
  | .loadTail _ head => head = count start pushed
  | .storeCache _ head tail held => head = count start pushed ∧
      ∃ n, tail = count start n ∧ seen ≤ n ∧ n ≤ popped ∧ held = pushed - n
  | .recheck _ head held => head = count start pushed ∧ held = pushed - seen
  | .copy _ head => head = count start pushed ∧ pushed < seen + capacity.size
  | .publish value head => head = count start pushed ∧ pushed < seen + capacity.size ∧
      slots.get (capacity.slot head) = value

/-- What the consumer knows at each of its steps. -/
def ConsumerOk (start : UInt64) (pushed : List α) (popped known : Nat) : Consumer α → Prop
  | .idle => True
  | .loadTail => True
  | .check tail => tail = count start popped
  | .loadHead tail => tail = count start popped
  | .storeCache tail head held => tail = count start popped ∧
      ∃ n, head = count start n ∧ known ≤ n ∧ n ≤ pushed.length ∧ held = n - popped
  | .recheck tail held => tail = count start popped ∧ held = known - popped
  | .copy tail => tail = count start popped ∧ popped < known
  | .publish tail out => tail = count start popped ∧ popped < known ∧
      pushed[popped]? = some out

/-- A refusal is accurate for the moment it re-read the other side's index. -/
def Accurate (capacity : Capacity) : Refusal → Prop
  | .full held => held = capacity.size
  | .empty held => held = 0

structure Inv (start : UInt64) (state : SpscState α capacity) (seen known : Nat) : Prop where
  indexed : Indexed start state.ring state.pushed state.popped seen known
  producer : ProducerOk start state.ring.slots state.pushed.length state.popped.length seen
    state.producer
  consumer : ConsumerOk start state.pushed state.popped.length known state.consumer
  accurate : ∀ refusal ∈ state.refusals, Accurate capacity refusal

section

variable {start : UInt64} {state : SpscState α capacity} {seen known : Nat}

/-- The consumer moving on leaves what the producer knows. -/
theorem ProducerOk.mono {slots : Vector α capacity.size} {pushed popped popped' : Nat}
    {producer : Producer α} (ok : ProducerOk start slots pushed popped seen producer)
    (later : popped ≤ popped') : ProducerOk start slots pushed popped' seen producer := by
  cases producer with
  | storeCache value head tail held =>
      obtain ⟨same, n, same', above, below, counted⟩ := ok
      exact ⟨same, n, same', above, Nat.le_trans below later, counted⟩
  | _ => exact ok

/-- The producer moving on leaves what the consumer knows. -/
theorem ConsumerOk.mono {pushed pushed' : List α} {popped : Nat} {consumer : Consumer α}
    (ok : ConsumerOk start pushed popped known consumer) (later : pushed <+: pushed') :
    ConsumerOk start pushed' popped known consumer := by
  cases consumer with
  | storeCache tail head held =>
      obtain ⟨same, n, same', above, below, counted⟩ := ok
      exact ⟨same, n, same', above, Nat.le_trans below later.length_le, counted⟩
  | publish tail out =>
      obtain ⟨same, ahead, here⟩ := ok
      obtain ⟨more, rfl⟩ := later
      exact ⟨same, ahead, List.getElem?_append_left (List.getElem?_eq_some_iff.mp here).1 ▸ here⟩
  | _ => exact ok

section

variable {ring : SpscRing α capacity} {pushed popped : List α}

theorem Indexed.popped_le_pushed (indexed : Indexed start ring pushed popped seen known) :
    popped.length ≤ pushed.length :=
  Nat.le_trans indexed.popped_le indexed.known_le

/-- The producer's test on the cached tail. -/
theorem Indexed.full_iff (indexed : Indexed start ring pushed popped seen known) :
    capacity.value ≤ count start pushed.length - ring.tailCache ↔
      seen + capacity.size ≤ pushed.length := by
  have order : seen ≤ pushed.length := Nat.le_trans indexed.seen_le indexed.popped_le_pushed
  have room := indexed.room
  have bound := capacity.size_lt
  have difference := toNat_count_sub start order (by omega)
  rw [indexed.tailCache, UInt64.le_iff_toNat_le, difference]
  change capacity.size ≤ _ ↔ _
  omega

/-- The consumer's test on the cached head. -/
theorem Indexed.empty_iff (indexed : Indexed start ring pushed popped seen known) :
    count start popped.length = ring.headCache ↔ known = popped.length := by
  have room := indexed.room
  have seen_le := indexed.seen_le
  have known_le := indexed.known_le
  have bound := capacity.size_lt
  rw [indexed.headCache, eq_comm]
  exact count_inj start indexed.popped_le (by omega)

/-- The slot after the last item is none of the slots of the items. -/
theorem Indexed.slot_free (indexed : Indexed start ring pushed popped seen known)
    (vacant : pushed.length < seen + capacity.size) {j : Nat} (above : popped.length ≤ j)
    (below : j < pushed.length) :
    (capacity.slot (count start pushed.length)).val ≠ (capacity.slot (count start j)).val := by
  rw [Capacity.slot_count, Capacity.slot_count]
  intro same
  have seen_le := indexed.seen_le
  have equal := OverwriteRing.slot_injective (by omega) (by omega) same.symm
  omega

/-- A new cached tail that the consumer has reached is as safe as the old one. -/
theorem Indexed.cacheTail (indexed : Indexed start ring pushed popped seen known) {n : Nat}
    (above : seen ≤ n) (below : n ≤ popped.length) :
    Indexed start { ring with tailCache := count start n } pushed popped n known :=
  { indexed with
    tailCache := rfl
    seen_le := below
    room := Nat.le_trans indexed.room (Nat.add_le_add_right above _) }

theorem Indexed.cacheHead (indexed : Indexed start ring pushed popped seen known) {n : Nat}
    (above : known ≤ n) (below : n ≤ pushed.length) :
    Indexed start { ring with headCache := count start n } pushed popped seen n :=
  { indexed with
    headCache := rfl
    popped_le := Nat.le_trans indexed.popped_le above
    known_le := below }

/-- Copying a value into the free slot leaves every item in place. -/
theorem Indexed.copy (indexed : Indexed start ring pushed popped seen known)
    (vacant : pushed.length < seen + capacity.size) (value : α) :
    Indexed start
      { ring with
        slots := ring.slots.set (capacity.slot (count start pushed.length)) value }
      pushed popped seen known := by
  refine { indexed with slots := fun j above below => ?_ }
  have apart := indexed.slot_free vacant above below
  rw [indexed.slots j above below]
  have kept : (ring.slots.set (capacity.slot (count start pushed.length)) value)[
      (capacity.slot (count start j)).val] = ring.slots[(capacity.slot (count start j)).val] :=
    Vector.getElem_set_ne _ _ apart
  exact congrArg some kept.symm

/-- Storing the head commits the copied value. -/
theorem Indexed.push (indexed : Indexed start ring pushed popped seen known)
    (vacant : pushed.length < seen + capacity.size) {value : α}
    (written : ring.slots[capacity.slot (count start pushed.length)] = value) :
    Indexed start { ring with head := count start pushed.length + 1 } (pushed ++ [value])
      popped seen known := by
  have known_le := indexed.known_le
  refine { indexed with head := ?_, room := ?_, known_le := ?_, fifo := ?_, slots := ?_ }
  · rw [List.length_append, List.length_singleton, count_succ]
  · rw [List.length_append, List.length_singleton]
    exact vacant
  · rw [List.length_append]
    exact Nat.le_trans known_le (Nat.le_add_right _ _)
  · exact indexed.fifo.trans (List.prefix_append _ _)
  · intro j above below
    rw [List.length_append, List.length_singleton] at below
    rcases Nat.lt_succ_iff_lt_or_eq.mp below with earlier | rfl
    · rw [List.getElem?_append_left earlier]
      exact indexed.slots j above earlier
    · rw [List.getElem?_concat_length]
      exact congrArg some written.symm

/-- Storing the tail commits the pop of the oldest item. -/
theorem Indexed.pop (indexed : Indexed start ring pushed popped seen known)
    (ahead : popped.length < known) {out : α} (oldest : pushed[popped.length]? = some out) :
    Indexed start { ring with tail := count start popped.length + 1 } pushed
      (popped ++ [out]) seen known := by
  have length : (popped ++ [out]).length = popped.length + 1 := List.length_append
  refine { indexed with tail := ?_, seen_le := ?_, popped_le := ?_, fifo := ?_, slots := ?_ }
  · rw [length, count_succ]
  · rw [length]
    exact Nat.le_succ_of_le indexed.seen_le
  · rw [length]
    exact ahead
  · obtain ⟨more, same⟩ := indexed.fifo
    rw [← same, List.getElem?_append_right (Nat.le_refl _), Nat.sub_self] at oldest
    cases more with
    | nil => cases oldest
    | cons next rest =>
        cases oldest
        exact ⟨rest, by rw [← same, List.append_assoc, List.singleton_append]⟩
  · intro j above below
    rw [length] at above
    exact indexed.slots j (Nat.le_of_succ_le above) below

end

/-! ## One step of either side -/

/-- The invariant when only the producer's program counter moves. -/
theorem Inv.withProducer (inv : Inv start state seen known) {producer : Producer α}
    (ok : ProducerOk start state.ring.slots state.pushed.length state.popped.length seen
      producer) : Inv start { state with producer := producer } seen known :=
  ⟨inv.indexed, ok, inv.consumer, inv.accurate⟩

/-- The invariant when only the consumer's program counter moves. -/
theorem Inv.withConsumer (inv : Inv start state seen known) {consumer : Consumer α}
    (ok : ConsumerOk start state.pushed state.popped.length known consumer) :
    Inv start { state with consumer := consumer } seen known :=
  ⟨inv.indexed, inv.producer, ok, inv.accurate⟩

theorem Inv.accurate_snoc (inv : Inv start state seen known) {refusal : Refusal}
    (accurate : Accurate capacity refusal) :
    ∀ other ∈ state.refusals ++ [refusal], Accurate capacity other := by
  intro other member
  rcases List.mem_append.mp member with old | new
  · exact inv.accurate other old
  · rw [List.mem_singleton.mp new]
    exact accurate

theorem Inv.stepProducer (inv : Inv start state seen known) (value : α) :
    ∃ seen', Inv start (state.stepProducer value) seen' known := by
  have indexed := inv.indexed
  have ok := inv.producer
  unfold SpscState.stepProducer
  cases pc : state.producer with
  | idle => exact ⟨seen, inv.withProducer trivial⟩
  | loadHead value => exact ⟨seen, inv.withProducer indexed.head⟩
  | check value head =>
      rw [pc] at ok
      obtain rfl : head = count start state.pushed.length := ok
      dsimp only
      split
      · exact ⟨seen, inv.withProducer rfl⟩
      · rename_i roomy
        rw [indexed.full_iff, Nat.not_le] at roomy
        exact ⟨seen, inv.withProducer ⟨rfl, roomy⟩⟩
  | loadTail value head =>
      rw [pc] at ok
      exact ⟨seen, inv.withProducer
        ⟨ok, state.popped.length, indexed.tail, indexed.seen_le, Nat.le_refl _, rfl⟩⟩
  | storeCache value head tail held =>
      rw [pc] at ok
      obtain ⟨same, n, rfl, above, below, counted⟩ := ok
      exact ⟨n, indexed.cacheTail above below, ⟨same, counted⟩, inv.consumer, inv.accurate⟩
  | recheck value head held =>
      rw [pc] at ok
      obtain ⟨rfl, counted⟩ := ok
      dsimp only
      split
      · rename_i full
        rw [indexed.full_iff] at full
        have room := indexed.room
        have exact : held = capacity.size := by omega
        exact ⟨seen, indexed, trivial, inv.consumer, inv.accurate_snoc exact⟩
      · rename_i roomy
        rw [indexed.full_iff, Nat.not_le] at roomy
        exact ⟨seen, inv.withProducer ⟨rfl, roomy⟩⟩
  | copy value head =>
      rw [pc] at ok
      obtain ⟨rfl, vacant⟩ := ok
      exact ⟨seen, indexed.copy vacant value, ⟨rfl, vacant, Vector.getElem_set_self _⟩,
        inv.consumer, inv.accurate⟩
  | publish value head =>
      rw [pc] at ok
      obtain ⟨rfl, vacant, written⟩ := ok
      exact ⟨seen, indexed.push vacant written, trivial,
        inv.consumer.mono (List.prefix_append _ _), inv.accurate⟩

theorem Inv.stepConsumer (inv : Inv start state seen known) :
    ∃ known', Inv start state.stepConsumer seen known' := by
  have indexed := inv.indexed
  have ok := inv.consumer
  unfold SpscState.stepConsumer
  cases pc : state.consumer with
  | idle => exact ⟨known, inv.withConsumer trivial⟩
  | loadTail => exact ⟨known, inv.withConsumer indexed.tail⟩
  | check tail =>
      rw [pc] at ok
      obtain rfl : tail = count start state.popped.length := ok
      dsimp only
      split
      · exact ⟨known, inv.withConsumer rfl⟩
      · rename_i some
        rw [indexed.empty_iff] at some
        have ahead := Nat.lt_of_le_of_ne indexed.popped_le (Ne.symm some)
        exact ⟨known, inv.withConsumer ⟨rfl, ahead⟩⟩
  | loadHead tail =>
      rw [pc] at ok
      exact ⟨known, inv.withConsumer
        ⟨ok, state.pushed.length, indexed.head, indexed.known_le, Nat.le_refl _, rfl⟩⟩
  | storeCache tail head held =>
      rw [pc] at ok
      obtain ⟨same, n, rfl, above, below, counted⟩ := ok
      exact ⟨n, indexed.cacheHead above below, inv.producer, ⟨same, counted⟩, inv.accurate⟩
  | recheck tail held =>
      rw [pc] at ok
      obtain ⟨rfl, counted⟩ := ok
      dsimp only
      split
      · rename_i none
        rw [indexed.empty_iff] at none
        have exact : held = 0 := by omega
        exact ⟨known, indexed, inv.producer, trivial, inv.accurate_snoc exact⟩
      · rename_i some
        rw [indexed.empty_iff] at some
        have ahead := Nat.lt_of_le_of_ne indexed.popped_le (Ne.symm some)
        exact ⟨known, inv.withConsumer ⟨rfl, ahead⟩⟩
  | copy tail =>
      rw [pc] at ok
      obtain ⟨rfl, ahead⟩ := ok
      have below := Nat.lt_of_lt_of_le ahead indexed.known_le
      exact ⟨known, inv.withConsumer ⟨rfl, ahead, indexed.slots _ (Nat.le_refl _) below⟩⟩
  | publish tail out =>
      rw [pc] at ok
      obtain ⟨rfl, ahead, oldest⟩ := ok
      have later : state.popped.length ≤ (state.popped ++ [out]).length := by simp
      exact ⟨known, indexed.pop ahead oldest, inv.producer.mono later, trivial, inv.accurate⟩

/-- Step lemma: every entry of a schedule keeps the invariant. -/
theorem Inv.step (inv : Inv start state seen known) (actor : Actor α) :
    ∃ seen' known', Inv start (state.step actor) seen' known' := by
  cases actor with
  | producer value =>
      obtain ⟨seen', next⟩ := inv.stepProducer value
      exact ⟨seen', known, next⟩
  | kill => exact ⟨seen, known, inv.withProducer trivial⟩
  | consumer =>
      obtain ⟨known', next⟩ := inv.stepConsumer
      exact ⟨seen, known', next⟩

/-- Run lemma: every schedule keeps the invariant. -/
theorem Inv.run (inv : Inv start state seen known) (schedule : List (Actor α)) :
    ∃ seen' known', Inv start (state.run schedule) seen' known' := by
  induction schedule generalizing state seen known with
  | nil => exact ⟨seen, known, inv⟩
  | cons actor rest ih =>
      obtain ⟨seen', known', next⟩ := inv.step actor
      exact ih next

end

theorem inv_initial (start : UInt64) (slots : Vector α capacity.size) :
    Inv start (initial start slots) 0 0 := by
  refine ⟨⟨?_, ?_, ?_, ?_, Nat.le_refl _, Nat.zero_le _, Nat.le_refl _, Nat.le_refl _,
    List.prefix_rfl, ?_⟩, trivial, trivial, ?_⟩
  · exact (count_zero start).symm
  · exact (count_zero start).symm
  · exact (count_zero start).symm
  · exact (count_zero start).symm
  · intro j _ below
    cases below
  · intro refusal absent
    cases absent

/-- In every schedule, whatever kills it contains, the pops return the committed
pushes in order, the ring never holds more than its capacity, and each refusal
was right when it re-read the other side's index. -/
theorem fifo_exact (capacity : Capacity) (start : UInt64) (slots : Vector α capacity.size)
    (schedule : List (Actor α)) :
    let state := (initial start slots).run schedule
    state.popped <+: state.pushed ∧
      state.pushed.length - state.popped.length ≤ capacity.size ∧
      (∀ held, .full held ∈ state.refusals → held = capacity.size) ∧
      (∀ held, .empty held ∈ state.refusals → held = 0) := by
  obtain ⟨seen, known, inv⟩ := (inv_initial start slots).run schedule
  have room := inv.indexed.room
  have seen_le := inv.indexed.seen_le
  refine ⟨inv.indexed.fifo, by omega, ?_, ?_⟩
  · intro held refused
    exact inv.accurate (.full held) refused
  · intro held refused
    exact inv.accurate (.empty held) refused

end SpscState

end VoiceHotPath
