import Mathlib.Algebra.Field.Rat
import VoiceHotPath.Lib.Little
import VoiceHotPath.Ring.Depth

/-!
# The average depth

`hot_loop` multiplies the depth it has last observed by the time to its next clock
read.  While it pops, producers push and time passes, so no observation is the depth
of the whole iteration; still the integral is the time the frames have spent in the
ring, but for an iteration for each frame that enters or leaves.
-/

namespace VoiceHotPath

open Little WrappingCounter

/-- What `hot_loop` integrates, and what its depth histogram has recorded, latest first. -/
structure OccupancyMeter where
  prevObservationNs : UInt64 := 0
  observedDepth : UInt64 := 0
  depthAreaNs : UInt64 := 0
  depthTimeNs : UInt64 := 0
  depth : List UInt64 := []
  deriving DecidableEq, Repr

namespace OccupancyMeter

/-- The clock read that begins an iteration. -/
def integrate (meter : OccupancyMeter) (loopNs : UInt64) : OccupancyMeter :=
  let meter :=
    if meter.prevObservationNs ≠ 0 then
      let dt := loopNs - meter.prevObservationNs
      { meter with
        depthAreaNs := meter.depthAreaNs + meter.observedDepth * dt
        depthTimeNs := meter.depthTimeNs + dt }
    else meter
  { meter with prevObservationNs := loopNs }

/-- A failed pop means the ring was empty. -/
def drained (meter : OccupancyMeter) : OccupancyMeter :=
  { meter with observedDepth := 0 }

/-- After a pop, `size()` is observed and recorded. -/
def observe (meter : OccupancyMeter) (size : UInt64) : OccupancyMeter :=
  { meter with observedDepth := size, depth := size :: meter.depth }

/-- `mean_depth_time_averaged`, as the exact quotient. -/
def meanDepth (meter : OccupancyMeter) : ℚ :=
  if meter.depthTimeNs = 0 then 0 else meter.depthAreaNs.toNat / meter.depthTimeNs.toNat

end OccupancyMeter

/-- Where an iteration of `hot_loop` is.  After `size()` it no longer touches the ring. -/
inductive MeterThread (α : Type) where
  | readClock
  | popping
  | observing (observation : Observation α)

/-- The ring, the loop that meters it, and the clock of both sides.  `station` is the ring as
everybody would see it, `observed` the same at the last clock read of the loop, and `longest`
the longest iteration between two clock reads. -/
structure MeteredRing (α : Type) (capacity : Capacity) where
  state : SpscState α capacity
  thread : MeterThread α
  meter : OccupancyMeter
  nowNs : UInt64
  station : Station
  observed : Station
  longest : Nat := 0

inductive MeteredActor (α : Type) where
  | producer (value : α)
  | kill
  | consumer (order : LoadOrder)
  | clock (nowNs : UInt64)

namespace MeteredRing

variable {α : Type} {capacity : Capacity}

def stepProducer (ring : MeteredRing α capacity) (value : α) : MeteredRing α capacity :=
  { ring with
    state := ring.state.stepProducer value
    station :=
      if ring.state.pushAnswer = some .ok then ring.station.arrive else ring.station }

def stepConsumer (ring : MeteredRing α capacity) (order : LoadOrder) : MeteredRing α capacity :=
  match ring.thread with
  | .readClock =>
      { ring with
        thread := .popping
        meter := ring.meter.integrate ring.nowNs
        observed := ring.station
        longest := max ring.longest (ring.station.now - ring.observed.now) }
  | .popping =>
      let next := { ring with state := ring.state.stepConsumer }
      match ring.state.popAnswer with
      | none => next
      | some none => { next with thread := .readClock, meter := ring.meter.drained }
      | some (some _) =>
          { next with thread := .observing (.start order), station := ring.station.depart }
  | .observing observation =>
      match observation.step ring.state with
      | (_, some depth) =>
          { ring with thread := .readClock, meter := ring.meter.observe depth.size }
      | (left, none) => { ring with thread := left.elim .readClock .observing }

def step (ring : MeteredRing α capacity) : MeteredActor α → MeteredRing α capacity
  | .producer value => ring.stepProducer value
  | .kill => { ring with state := ring.state.step .kill }
  | .consumer order => ring.stepConsumer order
  | .clock nowNs =>
      { ring with
        nowNs := if ring.nowNs < nowNs then nowNs else ring.nowNs
        station := ring.station.wait nowNs.toNat }

/-- The first clock read of `hot_loop`, whatever the ring already holds. -/
def started (state : SpscState α capacity) (firstNs : UInt64) : MeteredRing α capacity :=
  let opening : Station :=
    { now := firstNs.toNat, present := List.replicate state.held firstNs.toNat }
  { state := state
    thread := .popping
    meter := OccupancyMeter.integrate {} firstNs
    nowNs := firstNs
    station := opening
    observed := opening }

def run (ring : MeteredRing α capacity) (schedule : List (MeteredActor α)) :
    MeteredRing α capacity :=
  schedule.foldl step ring

end MeteredRing

namespace SpscState

variable {α : Type} {capacity : Capacity} {start : UInt64} {state : SpscState α capacity}

/-- If the running `try_pop` finds nothing, the first `n` items are popped. -/
def Covers (start : UInt64) (state : SpscState α capacity) (n : Nat) : Prop :=
  match state.consumer with
  | .storeCache _ head _ => ∃ m, head = count start m ∧ n ≤ m ∧ m ≤ state.pushed.length
  | .recheck _ _ =>
      ∃ m, state.ring.headCache = count start m ∧ n ≤ m ∧ m ≤ state.pushed.length
  | _ => True

theorem headCache_stepProducer (state : SpscState α capacity) (value : α) :
    (state.stepProducer value).ring.headCache = state.ring.headCache := by
  unfold stepProducer
  split <;> first | rfl | (split <;> rfl)

theorem Covers.stepProducer {n : Nat} (covers : Covers start state n) (value : α) :
    Covers start (state.stepProducer value) n := by
  obtain ⟨-, consumer, -⟩ := state.stepProducer_keeps value
  have later := (state.pushed_prefix_stepProducer value).length_le
  have cache := state.headCache_stepProducer value
  unfold Covers at covers ⊢
  rw [consumer, cache]
  split
  · rename_i pc
    rw [pc] at covers
    obtain ⟨m, same, least, most⟩ := covers
    exact ⟨m, same, least, Nat.le_trans most later⟩
  · rename_i pc
    rw [pc] at covers
    obtain ⟨m, same, least, most⟩ := covers
    exact ⟨m, same, least, Nat.le_trans most later⟩
  · trivial

/-- A step of `try_pop` that does not return loads head after everything pushed so far. -/
theorem Covers.stepConsumer {n : Nat} (fifo : Fifo start state) (covers : Covers start state n)
    (pushed : n ≤ state.pushed.length) : Covers start state.stepConsumer n := by
  obtain ⟨head, -⟩ := fifo.counts
  unfold SpscState.stepConsumer
  cases pc : state.consumer with
  | loadHead tail => exact ⟨state.pushed.length, head, pushed, Nat.le_refl _⟩
  | storeCache tail loaded held =>
      rw [Covers, pc] at covers
      exact covers
  | check tail =>
      dsimp only
      split <;> trivial
  | recheck tail held =>
      dsimp only
      split <;> trivial
  | _ => trivial

/-- A `try_pop` that finds nothing has seen that the first `n` items are popped. -/
theorem Covers.popped {n : Nat} (fifo : Fifo start state) (covers : Covers start state n)
    (none : state.popAnswer = some none) : n ≤ state.popped.length := by
  obtain ⟨-, -, order, room⟩ := fifo.counts
  have bound := capacity.size_lt
  obtain ⟨seen, known, inv⟩ := fifo
  have ok := inv.consumer
  unfold Covers at covers
  unfold popAnswer at none
  cases pc : state.consumer with
  | recheck tail held =>
      rw [pc] at covers none ok
      obtain ⟨m, cache, least, most⟩ := covers
      obtain ⟨rfl, -⟩ := ok
      dsimp only at none
      split at none
      · rename_i same
        by_cases below : m < state.popped.length
        · omega
        · rw [cache] at same
          have equal := (count_inj start (Nat.not_lt.mp below) (by omega)).mp same.symm
          omega
      · cases none
  | _ =>
      rw [pc] at none
      cases none

end SpscState

namespace MeteredRing

open SpscState (Fifo Covers)

variable {α : Type} {capacity : Capacity} {start : UInt64} {base : Nat} {first : Station}
  {ring : MeteredRing α capacity}

/-- The station enters and leaves as the ring pushes and pops, from the first read on. -/
structure Follows (base : Nat) (station : Station) (state : SpscState α capacity) : Prop where
  entered : station.entered + base = state.pushed.length
  left : station.left + base = state.popped.length

/-- What the loop knows of the depth at each of its steps. -/
def Knows (start : UInt64) (base : Nat) (ring : MeteredRing α capacity) : Prop :=
  match ring.thread with
  | .readClock => ring.state.consumer = .idle ∧
      ring.observed.Counted ring.station ring.meter.observedDepth.toNat ∧
      ring.meter.observedDepth.toNat ≤ capacity.size
  | .popping => Covers start ring.state (ring.observed.entered + base)
  | .observing observation => ring.state.consumer = .idle ∧
      ConsumerSees start ring.state (some observation) ∧
      ∀ head before, observation = .loadTail head before →
        ring.observed.entered + base ≤ before.length

/-- The integral so far, as a number. -/
structure Integral (first : Station) (ring : MeteredRing α capacity) (area : Nat) : Prop where
  metered : ring.meter.depthAreaNs = UInt64.ofNat area
  sampled : first.Sampled ring.observed ring.longest area
  most : area ≤ capacity.size * (ring.observed.now - first.now)

structure Inv (start : UInt64) (base : Nat) (first : Station) (ring : MeteredRing α capacity) :
    Prop where
  fifo : Fifo start ring.state
  follows : Follows base ring.station ring.state
  now : ring.station.now = ring.nowNs.toNat
  balanced : ring.station.Balanced
  since : ring.observed.Since ring.station
  held : ring.observed.Balanced
  begun : first.now ≤ ring.observed.now ∧ first.entered ≤ ring.observed.entered ∧
    first.left ≤ ring.observed.left
  prev : ring.meter.prevObservationNs.toNat = ring.observed.now
  nonzero : ring.meter.prevObservationNs ≠ 0
  time : ring.meter.depthTimeNs = UInt64.ofNat (ring.observed.now - first.now)
  integral : ∃ area, Integral first ring area
  knows : Knows start base ring

theorem Follows.stepProducer {station : Station} {state : SpscState α capacity}
    (follows : Follows base station state) (value : α) :
    Follows base (if state.pushAnswer = some .ok then station.arrive else station)
      (state.stepProducer value) := by
  obtain ⟨popped, -, -⟩ := state.stepProducer_keeps value
  obtain ⟨entered, left⟩ := follows
  obtain ⟨answer, pushed, -⟩ | ⟨offered, -, answer, pushed, -⟩ | ⟨offered, -, answer, pushed, -⟩ :=
    state.stepProducer_cases value
  · rw [answer, if_neg (by decide)]
    exact ⟨pushed ▸ entered, popped ▸ left⟩
  · rw [answer, if_pos rfl]
    constructor
    · rw [Station.entered_arrive, pushed, List.length_append, List.length_singleton, ← entered]
      exact Nat.add_right_comm _ _ _
    · rw [popped]
      exact left
  · rw [answer, if_neg (by decide)]
    exact ⟨pushed ▸ entered, popped ▸ left⟩

/-- What the loop knows survives a step of the producer. -/
theorem Knows.stepProducer (knows : Knows start base ring) (value : α) :
    Knows start base (ring.stepProducer value) := by
  obtain ⟨-, consumer, -⟩ := ring.state.stepProducer_keeps value
  unfold Knows at knows ⊢
  change (match ring.thread with
    | .readClock => _
    | .popping => _
    | .observing observation => _)
  cases pc : ring.thread with
  | readClock =>
      rw [pc] at knows
      obtain ⟨idle, counted, small⟩ := knows
      refine ⟨consumer.trans idle, ?_, small⟩
      unfold MeteredRing.stepProducer
      dsimp only
      split
      · exact counted.arrive
      · exact counted
  | popping =>
      rw [pc] at knows
      exact knows.stepProducer value
  | observing observation =>
      rw [pc] at knows
      obtain ⟨idle, sees, covers⟩ := knows
      exact ⟨consumer.trans idle, sees.stepProducer value, covers⟩

theorem Inv.stepProducer (inv : Inv start base first ring) (value : α) :
    Inv start base first (ring.stepProducer value) := by
  refine { inv with
    fifo := inv.fifo.stepProducer value
    follows := inv.follows.stepProducer value
    now := ?_
    balanced := ?_
    since := ?_
    integral := ?_
    knows := inv.knows.stepProducer value }
  · unfold MeteredRing.stepProducer
    dsimp only
    split
    · exact inv.now
    · exact inv.now
  · unfold MeteredRing.stepProducer
    dsimp only
    split
    · exact inv.balanced.arrive
    · exact inv.balanced
  · unfold MeteredRing.stepProducer
    dsimp only
    split
    · exact inv.since.arrive
    · exact inv.since
  · obtain ⟨area, same, sampled, most⟩ := inv.integral
    exact ⟨area, same, sampled, most⟩

/-! ## The clock read -/

/-- A clock read adds the depth last observed, for the time since the read before. -/
theorem Inv.integrate (inv : Inv start base first ring) :
    (ring.meter.integrate ring.nowNs).depthAreaNs = ring.meter.depthAreaNs +
        UInt64.ofNat (ring.meter.observedDepth.toNat * (ring.station.now - ring.observed.now)) ∧
      (ring.meter.integrate ring.nowNs).depthTimeNs = ring.meter.depthTimeNs +
        UInt64.ofNat (ring.station.now - ring.observed.now) ∧
      (ring.meter.integrate ring.nowNs).prevObservationNs = ring.nowNs := by
  have order : ring.meter.prevObservationNs ≤ ring.nowNs := by
    rw [UInt64.le_iff_toNat_le, inv.prev, ← inv.now]
    exact inv.since.time
  have elapsed : ring.nowNs - ring.meter.prevObservationNs =
      UInt64.ofNat (ring.station.now - ring.observed.now) := by
    rw [inv.now, ← inv.prev, ← UInt64.toNat_sub_of_le _ _ order, UInt64.ofNat_toNat]
  unfold OccupancyMeter.integrate
  rw [if_pos inv.nonzero, elapsed, UInt64.ofNat_mul, UInt64.ofNat_toNat]
  exact ⟨rfl, rfl, rfl⟩

theorem Inv.read (inv : Inv start base first ring) (pc : ring.thread = .readClock)
    (order : LoadOrder) : Inv start base first (ring.stepConsumer order) := by
  obtain ⟨area, time, prev⟩ := inv.integrate
  obtain ⟨begun, entered, left⟩ := inv.begun
  obtain ⟨sum, metered, sampled, most⟩ := inv.integral
  have knows := inv.knows
  unfold Knows at knows
  rw [pc] at knows
  obtain ⟨idle, counted, small⟩ := knows
  have later := inv.since.time
  have window : ring.station.now - first.now =
      (ring.observed.now - first.now) + (ring.station.now - ring.observed.now) := by omega
  unfold MeteredRing.stepConsumer
  rw [pc]
  refine {
    fifo := inv.fifo
    follows := inv.follows
    now := inv.now
    balanced := inv.balanced
    since := Station.Since.refl _
    held := inv.balanced
    begun := ⟨Nat.le_trans begun later, Nat.le_trans entered inv.since.entered,
      Nat.le_trans left inv.since.left⟩
    prev := by rw [prev]; exact inv.now.symm
    nonzero := ?_
    time := ?_
    integral := ?_
    knows := ?_ }
  · intro zero
    rw [prev] at zero
    have none := inv.now
    rw [zero] at none
    have prevZero : ring.meter.prevObservationNs.toNat = 0 := by
      rw [inv.prev]
      exact Nat.eq_zero_of_le_zero (later.trans_eq none)
    exact inv.nonzero (UInt64.toNat_inj.mp prevZero)
  · rw [time, inv.time, ← UInt64.ofNat_add, ← window]
  · refine ⟨sum + ring.meter.observedDepth.toNat * (ring.station.now - ring.observed.now), ?_,
      sampled.period entered left inv.since counted, ?_⟩
    · rw [area, metered, UInt64.ofNat_add]
    · change _ ≤ capacity.size * (ring.station.now - first.now)
      rw [window, Nat.mul_add]
      exact Nat.add_le_add most (Nat.mul_le_mul_right _ small)
  · change Covers start ring.state _
    unfold Covers
    rw [idle]
    trivial

/-! ## The pop -/

theorem Inv.observed_le_pushed (inv : Inv start base first ring) :
    ring.observed.entered + base ≤ ring.state.pushed.length := by
  rw [← inv.follows.entered]
  exact Nat.add_le_add_right inv.since.entered _

/-- Popping an item, the first customer leaves. -/
theorem Follows.depart {station : Station} {state : SpscState α capacity} {out : α}
    (follows : Follows base station state) (fifo : Fifo start state)
    (popped : state.stepConsumer.popped = state.popped ++ [out]) :
    Follows base station.depart state.stepConsumer := by
  obtain ⟨pushed, -, -⟩ := state.stepConsumer_keeps
  obtain ⟨entered, left⟩ := follows
  have order := fifo.stepConsumer.popped_prefix.length_le
  have more : state.stepConsumer.popped.length = state.popped.length + 1 := by
    rw [popped, List.length_append, List.length_singleton]
  rw [pushed, more, ← entered, ← left] at order
  have counted : station.entered = station.left + station.present.length := rfl
  cases present : station.present with
  | nil =>
      rw [present, List.length_nil] at counted
      omega
  | cons first rest =>
      obtain ⟨-, -, same, -⟩ := station.depart_cases
      have gone : station.depart.left = station.left + 1 := by
        unfold Station.depart
        rw [present]
        exact List.length_append
      constructor
      · rw [same, pushed]
        exact entered
      · rw [gone, more, ← left]
        exact Nat.add_right_comm _ _ _

theorem Inv.pop (inv : Inv start base first ring) (pc : ring.thread = .popping)
    (order : LoadOrder) : Inv start base first (ring.stepConsumer order) := by
  have covers := inv.knows
  unfold Knows at covers
  rw [pc] at covers
  obtain ⟨pushed, -, -⟩ := ring.state.stepConsumer_keeps
  obtain ⟨area, metered, sampled, most⟩ := inv.integral
  unfold MeteredRing.stepConsumer
  rw [pc]
  obtain ⟨answer, popped, -⟩ | ⟨out, answer, popped, idle⟩ | ⟨answer, popped, idle⟩ :=
    ring.state.stepConsumer_cases
  · rw [answer]
    have next := covers.stepConsumer inv.fifo inv.observed_le_pushed
    have still : Follows base ring.station ring.state.stepConsumer :=
      ⟨pushed ▸ inv.follows.entered, popped ▸ inv.follows.left⟩
    exact { inv with
      fifo := inv.fifo.stepConsumer
      follows := still
      integral := ⟨area, metered, sampled, most⟩
      knows := next }
  · rw [answer]
    refine { inv with
      fifo := inv.fifo.stepConsumer
      follows := inv.follows.depart inv.fifo popped
      now := ?_
      balanced := inv.balanced.depart
      since := inv.since.depart
      integral := ⟨area, metered, sampled, most⟩
      knows := ⟨idle, trivial, fun _ _ absent => by cases absent⟩ }
    obtain ⟨now, -⟩ := ring.station.depart_cases
    exact now.trans inv.now
  · rw [answer]
    have none := covers.popped inv.fifo answer
    have still : Follows base ring.station ring.state.stepConsumer :=
      ⟨pushed ▸ inv.follows.entered, popped ▸ inv.follows.left⟩
    refine { inv with
      fifo := inv.fifo.stepConsumer
      follows := still
      integral := ⟨area, metered, sampled, most⟩
      knows := ⟨idle, ⟨ring.station.left, ?_, ring.station.left_le_entered, Nat.le_refl _, ?_⟩,
        Nat.zero_le _⟩ }
    · rw [← inv.follows.left] at none
      exact Nat.le_of_add_le_add_right none
    · exact (Nat.sub_self _).symm

/-! ## The observation -/

/-- `size()` answers a count of the frames present, as of its load of head. -/
theorem Inv.counted (inv : Inv start base first ring) {n : Nat}
    (least : ring.observed.entered + base ≤ n) (most : n ≤ ring.state.pushed.length)
    (order : ring.state.popped.length ≤ n) (room : n ≤ ring.state.popped.length + capacity.size) :
    ring.observed.Counted ring.station
        (count start n - count start ring.state.popped.length).toNat ∧
      (count start n - count start ring.state.popped.length).toNat ≤ capacity.size := by
  have bound := capacity.size_lt
  have entered := inv.follows.entered
  have left := inv.follows.left
  rw [toNat_count_sub start order (by omega)]
  refine ⟨⟨n - base, ?_, ?_, ?_, ?_⟩, ?_⟩ <;> omega

theorem Inv.observe (inv : Inv start base first ring) {observation : Observation α}
    (pc : ring.thread = .observing observation) (order : LoadOrder) :
    Inv start base first (ring.stepConsumer order) := by
  have knows := inv.knows
  unfold Knows at knows
  rw [pc] at knows
  obtain ⟨idle, sees, covers⟩ := knows
  obtain ⟨head, tail, popped, room⟩ := inv.fifo.counts
  obtain ⟨area, metered, sampled, most⟩ := inv.integral
  obtain ⟨next, -⟩ := observation.step_consumer inv.fifo sees
  unfold MeteredRing.stepConsumer
  rw [pc]
  cases observation with
  | start choice =>
      cases choice with
      | headFirst =>
          refine { inv with
            integral := ⟨area, metered, sampled, most⟩
            knows := ⟨idle, next, ?_⟩ }
          intro loaded before same
          cases same
          exact inv.observed_le_pushed
      | tailFirst =>
          exact { inv with
            integral := ⟨area, metered, sampled, most⟩
            knows := ⟨idle, next, fun _ _ absent => by cases absent⟩ }
  | loadTail loaded before =>
      obtain ⟨rfl, earlier, above, below⟩ := sees
      have counted := inv.counted (covers _ _ rfl) earlier.length_le above below
      rw [← tail] at counted
      exact { inv with
        integral := ⟨area, metered, sampled, most⟩
        knows := ⟨idle, counted⟩ }
  | loadHead loaded =>
      obtain rfl : loaded = _ := sees
      have counted := inv.counted inv.observed_le_pushed (Nat.le_refl _) popped room
      rw [← head] at counted
      exact { inv with
        integral := ⟨area, metered, sampled, most⟩
        knows := ⟨idle, counted⟩ }

/-! ## Every interleaving -/

/-- Step lemma: every entry of a schedule keeps the invariant. -/
theorem Inv.step (inv : Inv start base first ring) (actor : MeteredActor α) :
    Inv start base first (ring.step actor) := by
  obtain ⟨area, metered, sampled, most⟩ := inv.integral
  cases actor with
  | producer value => exact inv.stepProducer value
  | kill =>
      exact { inv with
        fifo := inv.fifo.kill
        follows := ⟨inv.follows.entered, inv.follows.left⟩
        integral := ⟨area, metered, sampled, most⟩
        knows := inv.knows }
  | consumer order =>
      cases pc : ring.thread with
      | readClock => exact inv.read pc order
      | popping => exact inv.pop pc order
      | observing observation => exact inv.observe pc order
  | clock nowNs =>
      refine { inv with
        follows := ⟨inv.follows.entered, inv.follows.left⟩
        now := ?_
        balanced := inv.balanced.wait _
        since := inv.since.wait _
        integral := ⟨area, metered, sampled, most⟩
        knows := inv.knows }
      change max ring.station.now nowNs.toNat =
        (if ring.nowNs < nowNs then nowNs else ring.nowNs).toNat
      rw [inv.now]
      split
      · rename_i later
        exact Nat.max_eq_right (Nat.le_of_lt (UInt64.lt_iff_toNat_lt.mp later))
      · rename_i earlier
        exact Nat.max_eq_left (UInt64.le_iff_toNat_le.mp (UInt64.not_lt.mp earlier))

/-- Run lemma: every schedule keeps the invariant. -/
theorem Inv.run (inv : Inv start base first ring) (schedule : List (MeteredActor α)) :
    Inv start base first (ring.run schedule) := by
  induction schedule generalizing ring with
  | nil => exact inv
  | cons actor schedule ih => exact ih (inv.step actor)

theorem inv_started {state : SpscState α capacity} (fifo : Fifo start state)
    (idle : state.consumer = .idle) {firstNs : UInt64} (nonzero : firstNs ≠ 0) :
    Inv start state.popped.length (started state firstNs).station (started state firstNs) := by
  have order := fifo.popped_prefix.length_le
  have entered : (started state firstNs).station.entered = state.held := by
    change 0 + (List.replicate state.held firstNs.toNat).length = _
    rw [List.length_replicate, Nat.zero_add]
  have covers : Covers start state
      ((started state firstNs).station.entered + state.popped.length) := by
    unfold Covers
    rw [idle]
    trivial
  refine {
    fifo := fifo
    follows := ⟨?_, Nat.zero_add _⟩
    now := rfl
    balanced := Station.balanced_of_now _ _
    since := Station.Since.refl _
    held := Station.balanced_of_now _ _
    begun := ⟨Nat.le_refl _, Nat.le_refl _, Nat.le_refl _⟩
    prev := rfl
    nonzero := nonzero
    time := ?_
    integral := ⟨0, rfl, Station.Sampled.refl _ rfl, Nat.zero_le _⟩
    knows := covers }
  · rw [entered]
    exact Nat.sub_add_cancel order
  · change (0 : UInt64) = UInt64.ofNat (firstNs.toNat - firstNs.toNat)
    rw [Nat.sub_self]
    rfl

/-- Unless the integral can wrap, the mean depth is the integral over the window. -/
theorem meanDepth_mul {meter : OccupancyMeter} {area windowNs : Nat}
    (time : meter.depthTimeNs = UInt64.ofNat windowNs) (word : windowNs < 2 ^ 64)
    (metered : meter.depthAreaNs = UInt64.ofNat area) (most : area ≤ capacity.size * windowNs)
    (fits : capacity.size * windowNs < 2 ^ 64) : meter.meanDepth * windowNs = area := by
  have exactTime : meter.depthTimeNs.toNat = windowNs := by
    rw [time]
    exact UInt64.toNat_ofNat_of_lt' word
  have exactArea : meter.depthAreaNs.toNat = area := by
    rw [metered]
    exact UInt64.toNat_ofNat_of_lt' (Nat.lt_of_le_of_lt most fits)
  unfold OccupancyMeter.meanDepth
  split
  · rename_i zero
    have none : windowNs = 0 := by
      rw [← exactTime, zero]
      rfl
    rw [none, Nat.mul_zero] at most
    rw [Nat.eq_zero_of_le_zero most, zero_mul, Nat.cast_zero]
  · rename_i some
    have positive : (windowNs : ℚ) ≠ 0 := by
      rw [← exactTime]
      exact_mod_cast fun zero => some (UInt64.toNat_inj.mp zero)
    rw [exactArea, exactTime]
    exact div_mul_cancel₀ _ positive

/-- In every interleaving, whatever the ring holds at the first clock read of the loop, which must
not be zero: the frames enter and leave the station as they are pushed and popped, and at the last
clock read the integral is the time they have spent in it, within the longest iteration for each
frame that entered or left, and no more than a full ring all the time. -/
theorem depth_area (start : UInt64) (slots : Vector α capacity.size) (earlier : List (Actor α))
    (idle : ((SpscState.initial start slots).run earlier).consumer = .idle) (firstNs : UInt64)
    (nonzero : firstNs ≠ 0) (schedule : List (MeteredActor α)) :
    let state := (SpscState.initial start slots).run earlier
    let ring := (started state firstNs).run schedule
    let windowNs := ring.observed.now - firstNs.toNat
    let entered := ring.observed.entered - state.held
    (ring.station.entered + state.popped.length = ring.state.pushed.length ∧
      ring.station.left + state.popped.length = ring.state.popped.length) ∧
    ring.meter.depthTimeNs = UInt64.ofNat windowNs ∧
    ∃ area, ring.meter.depthAreaNs = UInt64.ofNat area ∧
      (capacity.size * windowNs < 2 ^ 64 → ring.meter.meanDepth * windowNs = area) ∧
      area ≤ capacity.size * windowNs ∧
      area ≤ ring.observed.sojourns + ring.longest * entered ∧
      ring.observed.sojourns ≤ area + ring.longest * (entered + ring.observed.left) := by
  intro state ring windowNs entered
  have fifo : Fifo start state := (SpscState.inv_initial start slots).run earlier
  have inv : Inv start state.popped.length (started state firstNs).station ring :=
    (inv_started fifo idle nonzero).run schedule
  obtain ⟨area, metered, sampled, most⟩ := inv.integral
  have opening : (started state firstNs).station.entered = state.held := by
    change 0 + (List.replicate state.held firstNs.toNat).length = _
    rw [List.length_replicate, Nat.zero_add]
  have law := inv.held.law
  obtain ⟨upper, lower⟩ := sampled
  rw [opening, law] at upper lower
  have word : windowNs < 2 ^ 64 := by
    have clock := ring.meter.prevObservationNs.toNat_lt
    rw [inv.prev] at clock
    exact Nat.lt_of_le_of_lt (Nat.sub_le _ _) clock
  exact ⟨⟨inv.follows.entered, inv.follows.left⟩, inv.time, area, metered,
    meanDepth_mul inv.time word metered most, most, upper, lower⟩

/-- Two frames are pushed, and one is popped ten nanoseconds later. -/
theorem depth_area_twoFrames :
    let capacity : Capacity := ⟨2, by decide, 1, rfl⟩
    let state := SpscState.initial (0 : UInt64) (Vector.replicate capacity.size 0)
    let ring := (started state 100).run
      (List.replicate 5 (.producer 7) ++ List.replicate 5 (.producer 8) ++ [.clock 110] ++
        List.replicate 10 (.consumer .headFirst) ++ [.clock 130, .consumer .headFirst])
    ring.observed.sojourns = 40 ∧ ring.longest = 30 ∧
      ∃ area, ring.meter.depthAreaNs = UInt64.ofNat area ∧ area ≤ 40 + 30 * 2 ∧
        40 ≤ area + 30 * (2 + 1) := by
  intro capacity state ring
  have spent : ring.observed.sojourns = 40 := by decide +kernel
  have longest : ring.longest = 30 := by decide +kernel
  have entered : ring.observed.entered = 2 := by decide +kernel
  have left : ring.observed.left = 1 := by decide +kernel
  obtain ⟨-, -, area, metered, -, -, upper, lower⟩ :=
    depth_area 0 (Vector.replicate capacity.size 0) [] rfl 100 (by decide)
      (List.replicate 5 (.producer 7) ++ List.replicate 5 (.producer 8) ++ [.clock 110] ++
        List.replicate 10 (.consumer .headFirst) ++ [.clock 130, .consumer .headFirst])
  refine ⟨spent, longest, area, metered, ?_, ?_⟩
  · change area ≤ ring.observed.sojourns + ring.longest * (ring.observed.entered - 0) at upper
    rw [spent, longest, entered] at upper
    exact upper
  · change ring.observed.sojourns ≤
      area + ring.longest * (ring.observed.entered - 0 + ring.observed.left) at lower
    rw [spent, longest, entered, left] at lower
    exact lower

end MeteredRing

end VoiceHotPath
