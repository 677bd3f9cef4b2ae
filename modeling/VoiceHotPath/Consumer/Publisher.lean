import VoiceHotPath.Consumer.Sequential
import VoiceHotPath.Vad.Scenario

/-!
# The event publisher

`publish_loop` beside `hot_loop` and `main`.  The loop ends on two loads of the
ring's indices that come after a load of `done`; by then the hot loop has
returned, so the indices no longer move.
-/

namespace VoiceHotPath

/-- Where `publish_loop` is.  `empty()` loads the two indices in either order. -/
inductive PublisherPc where
  | test
  | sizing (produced consumed : Option UInt64)
  | popping
  | exited
  deriving DecidableEq, Repr

/-- The hot path, the flag `main` sets, and the publisher with what it has printed. -/
structure Publishing (D : Type) (frameCapacity eventCapacity : Capacity) where
  path : HotPath D frameCapacity eventCapacity
  done : Bool := false
  pc : PublisherPc := .test
  printed : List ChunkEvent := []

/-- One entry of a schedule: whoever pushes frames, `hot_loop`, `main` or `publish_loop`. -/
inductive PublishingActor where
  | frames (value : AudioFrame)
  | hot (input : HotInput)
  | main
  | publisher (producedFirst : Bool)

namespace Publishing

variable {D : Type} {frameCapacity eventCapacity : Capacity}

/-- One step of `publish_loop`. -/
def stepPublisher (state : Publishing D frameCapacity eventCapacity) (producedFirst : Bool) :
    Publishing D frameCapacity eventCapacity :=
  match state.pc with
  | .test => { state with pc := if state.done then .sizing none none else .popping }
  | .sizing none none =>
      if producedFirst then
        { state with pc := .sizing (some state.path.events.ring.head) none }
      else { state with pc := .sizing none (some state.path.events.ring.tail) }
  | .sizing (some produced) none =>
      { state with pc := .sizing (some produced) (some state.path.events.ring.tail) }
  | .sizing none (some consumed) =>
      { state with pc := .sizing (some state.path.events.ring.head) (some consumed) }
  | .sizing (some produced) (some consumed) =>
      { state with pc := if produced - consumed = 0 then .exited else .popping }
  | .popping =>
      let path := { state.path with events := state.path.events.stepConsumer }
      match state.path.events.popAnswer with
      | none => { state with path := path }
      | some none => { state with path := path, pc := .test }
      | some (some event) =>
          { state with path := path, pc := .test, printed := state.printed ++ [event] }
  | .exited => state

variable [Double D]

/-- `main` stores `hot_done` once `hot_loop` has returned. -/
def step (options : LoopOptions) (state : Publishing D frameCapacity eventCapacity) :
    PublishingActor → Publishing D frameCapacity eventCapacity
  | .frames value =>
      { state with
        path := { state.path with frames := state.path.frames.stepProducer value } }
  | .hot input => { state with path := state.path.stepHot options input }
  | .main =>
      match state.path.hot.pc with
      | .returned _ => { state with done := true }
      | _ => state
  | .publisher producedFirst => state.stepPublisher producedFirst

def run (options : LoopOptions) (state : Publishing D frameCapacity eventCapacity)
    (schedule : List PublishingActor) : Publishing D frameCapacity eventCapacity :=
  schedule.foldl (step options) state

/-- What holds in every state of every schedule. -/
structure Drains (options : LoopOptions) (begin : HotLoop D) (frameStart eventStart : UInt64)
    (state : Publishing D frameCapacity eventCapacity) : Prop where
  sequential : state.path.Sequential options begin frameStart eventStart
  printed : state.printed = state.path.events.popped
  done : state.done = true → ∃ endNs, state.path.hot.pc = .returned endNs
  sized : ∀ produced consumed, state.pc = .sizing produced consumed → state.done = true ∧
    (∀ head, produced = some head → head = state.path.events.ring.head) ∧
    ∀ tail, consumed = some tail → tail = state.path.events.ring.tail
  exited : state.pc = .exited → state.done = true ∧
    state.path.events.ring.head = state.path.events.ring.tail

section

variable {options : LoopOptions} {begin : HotLoop D} {frameStart eventStart : UInt64}
  {state : Publishing D frameCapacity eventCapacity}

/-- The hot loop moves the ring only while `done` is not set. -/
theorem Drains.stepHot (drains : Drains options begin frameStart eventStart state)
    (input : HotInput) :
    Drains options begin frameStart eventStart
      { state with path := state.path.stepHot options input } := by
  by_cases set : state.done = true
  · obtain ⟨endNs, pc⟩ := drains.done set
    rw [HotPath.stepHot_of_returned pc]
    exact drains
  · have step := state.path.hotStep options input
    refine ⟨drains.sequential.hotStep step, drains.printed.trans step.events_popped.symm, ?_, ?_,
      ?_⟩
    · intro done
      exact absurd done set
    · intro produced consumed pc
      exact absurd (drains.sized produced consumed pc).1 set
    · intro pc
      exact absurd (drains.exited pc).1 set

/-- Away from the two loads the publisher remembers nothing. -/
theorem Drains.moves (drains : Drains options begin frameStart eventStart state)
    {pc : PublisherPc} (forgets : ∀ produced consumed, pc ≠ .sizing produced consumed)
    (runs : pc ≠ .exited) :
    Drains options begin frameStart eventStart { state with pc := pc } :=
  { drains with
    sized := fun produced consumed same => absurd same (forgets produced consumed)
    exited := fun same => absurd same runs }

/-- What the publisher has loaded is what the ring holds, once `done` is set. -/
theorem Drains.loads (drains : Drains options begin frameStart eventStart state)
    (set : state.done = true) {produced consumed : Option UInt64}
    (head : ∀ loaded, produced = some loaded → loaded = state.path.events.ring.head)
    (tail : ∀ loaded, consumed = some loaded → loaded = state.path.events.ring.tail) :
    Drains options begin frameStart eventStart
      { state with pc := .sizing produced consumed } := by
  refine { drains with sized := ?_, exited := fun absent => by cases absent }
  intro produced consumed same
  cases same
  exact ⟨set, head, tail⟩

/-- The publisher exits only after loading the same value from both indices. -/
theorem Drains.stepPublisher (drains : Drains options begin frameStart eventStart state)
    (producedFirst : Bool) :
    Drains options begin frameStart eventStart (state.stepPublisher producedFirst) := by
  have popping : Drains options begin frameStart eventStart { state with pc := .popping } :=
    drains.moves (fun _ _ => nofun) nofun
  unfold Publishing.stepPublisher
  cases pc : state.pc with
  | test =>
      dsimp only
      split
      · exact drains.loads ‹_› (fun _ absent => by cases absent) fun _ absent => by cases absent
      · exact popping
  | sizing produced consumed =>
      obtain ⟨set, head, tail⟩ := drains.sized produced consumed pc
      have newHead : ∀ loaded, some state.path.events.ring.head = some loaded →
          loaded = state.path.events.ring.head := fun _ same => (Option.some.inj same).symm
      have newTail : ∀ loaded, some state.path.events.ring.tail = some loaded →
          loaded = state.path.events.ring.tail := fun _ same => (Option.some.inj same).symm
      cases produced with
      | none =>
          cases consumed with
          | none =>
              dsimp only
              split
              · exact drains.loads set newHead tail
              · exact drains.loads set head newTail
          | some loaded => exact drains.loads set newHead tail
      | some loaded =>
          cases consumed with
          | none => exact drains.loads set head newTail
          | some loaded' =>
              dsimp only
              split
              · rename_i zero
                refine { drains with
                  sized := fun _ _ absent => by cases absent
                  exited := fun _ => ⟨set, ?_⟩ }
                rw [head loaded rfl, tail loaded' rfl] at zero
                exact (UInt64.sub_eq_iff_eq_add.mp zero).trans (UInt64.zero_add _)
              · exact popping
  | popping =>
      have next := drains.sequential.eventConsumer
      dsimp only
      obtain ⟨answer, popped, -⟩ | ⟨out, answer, popped, -⟩ | ⟨answer, popped, -⟩ :=
        state.path.events.stepConsumer_cases
      · rw [answer]
        exact ⟨next, drains.printed.trans popped.symm, drains.done,
          (fun _ _ absent => by cases absent), fun absent => by cases absent⟩
      · rw [answer]
        refine ⟨next, ?_, drains.done, (fun _ _ absent => by cases absent),
          fun absent => by cases absent⟩
        change state.printed ++ [out] = state.path.events.stepConsumer.popped
        rw [drains.printed, popped]
      · rw [answer]
        exact ⟨next, drains.printed.trans popped.symm, drains.done,
          (fun _ _ absent => by cases absent), fun absent => by cases absent⟩
  | exited => exact drains

/-- Step lemma: every entry of a schedule keeps the invariant. -/
theorem Drains.step (drains : Drains options begin frameStart eventStart state)
    (actor : PublishingActor) :
    Drains options begin frameStart eventStart (state.step options actor) := by
  cases actor with
  | frames value =>
      exact { drains with sequential := drains.sequential.frameProducer value }
  | hot input => exact drains.stepHot input
  | main =>
      unfold Publishing.step
      cases pc : state.path.hot.pc with
      | returned endNs =>
          exact { drains with
            done := fun _ => ⟨endNs, pc⟩
            sized := fun produced consumed same =>
              ⟨rfl, (drains.sized produced consumed same).2⟩
            exited := fun same => ⟨rfl, (drains.exited same).2⟩ }
      | _ => exact drains
  | publisher producedFirst => exact drains.stepPublisher producedFirst

/-- Run lemma: every schedule keeps the invariant. -/
theorem Drains.run (drains : Drains options begin frameStart eventStart state)
    (schedule : List PublishingActor) :
    Drains options begin frameStart eventStart (state.run options schedule) := by
  induction schedule generalizing state with
  | nil => exact drains
  | cons actor rest ih => exact ih (drains.step actor)

end

/-- Both rings are empty, and no thread has taken a step. -/
def initial (begin : HotLoop D) (frameStart eventStart : UInt64)
    (frameSlots : Vector AudioFrame frameCapacity.size)
    (eventSlots : Vector ChunkEvent eventCapacity.size) :
    Publishing D frameCapacity eventCapacity where
  path := .initial begin frameStart eventStart frameSlots eventSlots

theorem drains_initial (options : LoopOptions) {begin : HotLoop D} (silent : begin.emitted = [])
    (frameStart eventStart : UInt64) (frameSlots : Vector AudioFrame frameCapacity.size)
    (eventSlots : Vector ChunkEvent eventCapacity.size) :
    Drains options begin frameStart eventStart
      (initial begin frameStart eventStart frameSlots eventSlots) where
  sequential :=
    HotPath.sequential_initial options silent frameStart eventStart frameSlots eventSlots
  printed := rfl
  done := fun absent => by cases absent
  sized := fun _ _ absent => by cases absent
  exited := fun absent => by cases absent

/--
In every schedule, when the publisher has exited, it has printed the events pushed
to the event ring, in the order in which they were pushed.  By then the hot loop
has returned, and what it pushed are the events it published and was not refused,
those of its final flush included.
-/
theorem publisher_drains (options : LoopOptions) (maxSessions : Nat) (config : ChunkerConfig D)
    (startNs frameStart eventStart : UInt64) (frameSlots : Vector AudioFrame frameCapacity.size)
    (eventSlots : Vector ChunkEvent eventCapacity.size) (schedule : List PublishingActor)
    {state : Publishing D frameCapacity eventCapacity}
    (ran : (initial (HotLoop.start maxSessions config startNs) frameStart eventStart frameSlots
      eventSlots).run options schedule = state) (exited : state.pc = .exited) :
    state.printed = state.path.events.pushed ∧
      state.path.events.pushed =
        HotPath.accepted state.path.hot.loop.emitted state.path.hot.refused ∧
      ∃ endNs, state.path.hot.pc = .returned endNs ∧
        HotLoop.hotLoop (fun n => state.path.hot.refused.getD n false) options maxSessions config
          startNs state.path.hot.ticks endNs = some state.path.hot.loop := by
  have drains : Drains options (HotLoop.start maxSessions config startNs) frameStart eventStart
      state := by
    rw [← ran]
    exact (drains_initial options rfl frameStart eventStart frameSlots eventSlots).run schedule
  obtain ⟨set, empty⟩ := drains.exited exited
  obtain ⟨endNs, pc⟩ := drains.done set
  exact ⟨drains.printed.trans (drains.sequential.events.drained empty), drains.sequential.pushed,
    endNs, pc, drains.sequential.hotLoop pc (HotPath.heeds_getD _)⟩

open Scenario in
/-- The one event of the run is pushed by the final flush, after the publisher has
found the ring empty. -/
theorem publisher_drains_finalFlush :
    ∃ state : Publishing ℚ twoSlots twoSlots,
      (initial (HotLoop.start 1 shortConfig 0) 0 0 (Vector.replicate _ {})
        (Vector.replicate _ {})).run ⟨20000000, 100000000⟩
        (List.replicate 5 (.frames (toneFrame 0)) ++ List.replicate 5 (.frames (toneFrame 1)) ++
          List.replicate 3 (.publisher true) ++ List.replicate 25 (.hot ⟨false, 10000000⟩) ++
          List.replicate 16 (.hot ⟨true, 30000000⟩) ++ [.main] ++
          List.replicate 24 (.publisher false)) = state ∧
      state.printed.length = 1 ∧ state.printed = state.path.events.pushed ∧
      state.path.events.pushed =
        HotPath.accepted state.path.hot.loop.emitted state.path.hot.refused ∧
      ∃ endNs, state.path.hot.pc = .returned endNs ∧
        HotLoop.hotLoop (fun n => state.path.hot.refused.getD n false) ⟨20000000, 100000000⟩ 1
          shortConfig 0 state.path.hot.ticks endNs = some state.path.hot.loop := by
  refine ⟨_, rfl, ?_⟩
  generalize ran : @Publishing.run ℚ _ _ _ _ _ _ = state
  have exited : state.pc = .exited := by
    rw [← ran]
    decide +kernel
  have one : state.printed.length = 1 := by
    rw [← ran]
    decide +kernel
  exact ⟨one, publisher_drains _ 1 shortConfig 0 0 0 _ _ _ ran exited⟩

end Publishing

end VoiceHotPath
