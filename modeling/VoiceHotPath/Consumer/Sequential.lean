import VoiceHotPath.Consumer.HotThread

/-!
# The thread does what the loop does

However its steps fall between those of the other threads, `hot_loop` computes
what the sequential loop computes from the frames it has popped, and the event
ring holds those of its events that were not refused, in the order of their
publication.
-/

namespace VoiceHotPath

open HotLoop

namespace HotPath

section

variable {D : Type} [Double D] {frameCapacity eventCapacity : Capacity}

/-- What one step of `hot_loop` can do. -/
inductive HotStep (options : LoopOptions) (path : HotPath D frameCapacity eventCapacity) :
    HotPath D frameCapacity eventCapacity → Prop
  | stay : HotStep options path path
  | sweep (loopNs : UInt64) (loop : HotLoop D) (tails : List ChunkEvent)
      (pc : path.hot.pc = .test)
      (expired : path.hot.loop.expire options loopNs = some (loop, tails)) :
      HotStep options path
        { path with hot := { path.hot with pc := .emitting tails (.pop loopNs), loop := loop } }
  | flush (endNs : UInt64) (loop : HotLoop D) (tails : List ChunkEvent)
      (pc : path.hot.pc = .test) (closed : path.hot.loop.close endNs = some (loop, tails)) :
      HotStep options path
        { path with hot := { path.hot with pc := .emitting tails (.finish endNs), loop := loop } }
  | goOn (next : Afterwards) (pc : path.hot.pc = .emitting [] next) :
      HotStep options path (path.goOn next)
  | call (event : ChunkEvent) (pending : List ChunkEvent) (next : Afterwards)
      (pc : path.hot.pc = .emitting (event :: pending) next) :
      HotStep options path
        { path with
          events := path.events.stepProducer event
          hot := { path.hot with
            pc := .pushing event pending next, loop := path.hot.loop.counted event } }
  | push (event : ChunkEvent) (pending : List ChunkEvent) (next : Afterwards)
      (pc : path.hot.pc = .pushing event pending next) (running : path.events.pushAnswer = none) :
      HotStep options path { path with events := path.events.stepProducer event }
  | answer (event : ChunkEvent) (pending : List ChunkEvent) (next : Afterwards)
      (result : PushResult) (pc : path.hot.pc = .pushing event pending next)
      (answered : path.events.pushAnswer = some result) :
      HotStep options path
        { path with
          events := path.events.stepProducer event
          hot := { path.hot with
            pc := .emitting pending next
            loop := path.hot.loop.answered (result == .full)
            refused := path.hot.refused ++ [result == .full] } }
  | pop (loopNs : UInt64) (pc : path.hot.pc = .popping loopNs)
      (running : path.frames.popAnswer = none) :
      HotStep options path { path with frames := path.frames.stepConsumer }
  | miss (loopNs nowNs : UInt64) (pc : path.hot.pc = .popping loopNs)
      (empty : path.frames.popAnswer = some none) :
      HotStep options path
        { path with
          frames := path.frames.stepConsumer
          hot := { path.hot with
            pc := .test, ticks := path.hot.ticks ++ [⟨loopNs, none, nowNs⟩] } }
  | serve (loopNs nowNs : UInt64) (frame : AudioFrame) (pc : path.hot.pc = .popping loopNs)
      (popped : path.frames.popAnswer = some (some frame)) :
      HotStep options path
        { path with
          frames := path.frames.stepConsumer
          hot := { path.hot with
            pc := .emitting (path.hot.loop.feedFrame options frame nowNs).2 .test
            loop := (path.hot.loop.feedFrame options frame nowNs).1
            ticks := path.hot.ticks ++ [⟨loopNs, some frame, nowNs⟩] } }

theorem hotStep (options : LoopOptions) (path : HotPath D frameCapacity eventCapacity)
    (input : HotInput) : HotStep options path (path.stepHot options input) := by
  unfold stepHot
  cases pc : path.hot.pc with
  | test =>
      dsimp only
      split
      · cases closed : path.hot.loop.close input.nowNs with
        | none => exact .stay
        | some outcome => exact .flush input.nowNs outcome.1 outcome.2 pc closed
      · cases expired : path.hot.loop.expire options input.nowNs with
        | none => exact .stay
        | some outcome => exact .sweep input.nowNs outcome.1 outcome.2 pc expired
  | emitting pending next =>
      cases pending with
      | nil => exact .goOn next pc
      | cons event pending => exact .call event pending next pc
  | pushing event pending next =>
      dsimp only
      cases answered : path.events.pushAnswer with
      | none => exact .push event pending next pc answered
      | some result => exact .answer event pending next result pc answered
  | popping loopNs =>
      dsimp only
      cases outcome : path.frames.popAnswer with
      | none => exact .pop loopNs pc outcome
      | some popped =>
          cases popped with
          | none => exact .miss loopNs input.nowNs pc outcome
          | some frame => exact .serve loopNs input.nowNs frame pc outcome
  | returned endNs => exact .stay

end

section

/-- The oracle answers as the ring has answered. -/
def Heeds (full : Nat → Bool) (refused : List Bool) : Prop :=
  ∀ n answer, refused[n]? = some answer → full n = answer

/-- The events that were not refused. -/
def accepted (events : List ChunkEvent) (refused : List Bool) : List ChunkEvent :=
  ((events.zip refused).filter fun (_, refused) => !refused).map Prod.fst

theorem Heeds.of_snoc {full : Nat → Bool} {refused : List Bool} {answer : Bool}
    (heeds : Heeds full (refused ++ [answer])) :
    Heeds full refused ∧ full refused.length = answer := by
  refine ⟨fun n before found => heeds n before ?_, heeds _ _ List.getElem?_concat_length⟩
  rw [List.getElem?_append_left (List.getElem?_eq_some_iff.mp found).1]
  exact found

theorem heeds_getD (refused : List Bool) : Heeds (fun n => refused.getD n false) refused := by
  intro n answer found
  change refused.getD n false = answer
  rw [List.getD_eq_getElem?_getD, found, Option.getD_some]

theorem accepted_pending {events : List ChunkEvent} {refused : List Bool}
    (same : refused.length = events.length) (event : ChunkEvent) :
    accepted (events ++ [event]) refused = accepted events refused := by
  have zipped : (events ++ [event]).zip refused = events.zip refused := by
    have whole : (events ++ [event]).zip (refused ++ []) =
        events.zip refused ++ [event].zip [] := List.zip_append same.symm
    rw [List.append_nil, List.zip_nil_right, List.append_nil] at whole
    exact whole
  rw [accepted, zipped, accepted]

theorem accepted_snoc {events : List ChunkEvent} {refused : List Bool}
    (same : refused.length = events.length) (event : ChunkEvent) (answer : Bool) :
    accepted (events ++ [event]) (refused ++ [answer]) =
      accepted events refused ++ if answer then [] else [event] := by
  rw [accepted, List.zip_append same.symm, List.filter_append, List.map_append, accepted]
  cases answer <;> rfl

variable {D : Type} [Double D] {frameCapacity eventCapacity : Capacity}
  {full : Nat → Bool} {options : LoopOptions} {begin : HotLoop D}

/-- The sequential run has reached `loop`, with what is left of the iteration to do. -/
def Reaches (full : Nat → Bool) (options : LoopOptions) (begin : HotLoop D) (ticks : List Tick)
    (next : Afterwards) (loop : HotLoop D) : Prop :=
  match next with
  | .test => iterateAll full options begin ticks = some loop
  | .pop loopNs => ∃ before, iterateAll full options begin ticks = some before ∧
      before.sweep full options loopNs = some loop
  | .finish endNs => ∃ before, iterateAll full options begin ticks = some before ∧
      before.finish full endNs = some loop.reported

/-- The thread is where the sequential run is once the pending events are published. -/
def Simulates (full : Nat → Bool) (options : LoopOptions) (begin : HotLoop D)
    (hot : HotThread D) : Prop :=
  match hot.pc with
  | .test => Reaches full options begin hot.ticks .test hot.loop
  | .emitting pending next =>
      Reaches full options begin hot.ticks next (emitAll full hot.loop pending)
  | .pushing _ pending next =>
      Reaches full options begin hot.ticks next
        (emitAll full (hot.loop.answered (full hot.refused.length)) pending)
  | .popping loopNs => Reaches full options begin hot.ticks (.pop loopNs) hot.loop
  | .returned endNs => (iterateAll full options begin hot.ticks).bind
      (fun before => before.finish full endNs) = some hot.loop

/-- The value a call of `try_push` in progress was given. -/
def calling : HotPc → Option ChunkEvent
  | .pushing event _ _ => some event
  | _ => none

/-- What holds in every state of every schedule. -/
structure Sequential (options : LoopOptions) (begin : HotLoop D) (frameStart eventStart : UInt64)
    (path : HotPath D frameCapacity eventCapacity) : Prop where
  frames : SpscState.Fifo frameStart path.frames
  events : SpscState.Fifo eventStart path.events
  simulates : ∀ full, Heeds full path.hot.refused → Simulates full options begin path.hot
  popped : path.hot.ticks.filterMap Tick.popped = path.frames.popped
  pushed : path.events.pushed = accepted path.hot.loop.emitted path.hot.refused
  calling : path.events.producer.offered = calling path.hot.pc
  answered : path.hot.refused.length + (HotPath.calling path.hot.pc).toList.length =
    path.hot.loop.emitted.length
  latest : ∀ event, HotPath.calling path.hot.pc = some event →
    path.hot.loop.emitted.getLast? = some event

variable {frameStart eventStart : UInt64} {path next : HotPath D frameCapacity eventCapacity}

/-- Whatever `hot_loop` does next, the sequential run does once the pending events are published. -/
theorem Sequential.simulates_next
    (sequential : Sequential options begin frameStart eventStart path)
    (step : HotStep options path next) {full : Nat → Bool} (heeds : Heeds full next.hot.refused) :
    Simulates full options begin next.hot := by
  have simulates := sequential.simulates full
  cases step with
  | stay => exact simulates heeds
  | sweep loopNs loop tails pc expired =>
      have reached := simulates heeds
      rw [Simulates, pc] at reached
      exact ⟨_, reached, by rw [sweep_eq, expired]; rfl⟩
  | flush endNs loop tails pc closed =>
      have reached := simulates heeds
      rw [Simulates, pc] at reached
      exact ⟨_, reached, by rw [finish_eq, closed]; rfl⟩
  | goOn after pc =>
      have unmoved : Heeds full path.hot.refused := by cases after <;> exact heeds
      have reached := simulates unmoved
      rw [Simulates, pc] at reached
      cases after with
      | test => exact reached
      | pop loopNs => exact reached
      | finish endNs => exact Option.bind_eq_some_iff.mpr reached
  | call event pending after pc =>
      have same := sequential.answered
      have reached := simulates heeds
      rw [pc] at same
      rw [Simulates, pc] at reached
      change Reaches _ _ _ _ _ (emitAll full
        ((path.hot.loop.counted event).answered (full path.hot.refused.length)) pending)
      rw [show path.hot.refused.length = path.hot.loop.emitted.length from same, ← emit_eq]
      exact reached
  | push event pending after pc running => exact simulates heeds
  | answer event pending after result pc returned =>
      obtain ⟨earlier, last⟩ := heeds.of_snoc
      have reached := simulates earlier
      rw [Simulates, pc, last] at reached
      exact reached
  | pop loopNs pc running => exact simulates heeds
  | miss loopNs nowNs pc empty =>
      have reached := simulates heeds
      rw [Simulates, pc] at reached
      obtain ⟨before, ran, swept⟩ := reached
      change iterateAll _ _ _ _ = _
      rw [iterateAll_snoc, ran, Option.bind_some, iterate, swept]
      rfl
  | serve loopNs nowNs frame pc popped =>
      have reached := simulates heeds
      rw [Simulates, pc] at reached
      obtain ⟨before, ran, swept⟩ := reached
      change iterateAll _ _ _ _ = _
      rw [iterateAll_snoc, ran, Option.bind_some, iterate, swept, Option.map_some, ← serve_eq]

/-- The iterations completed have taken the frames popped. -/
theorem Sequential.popped_next
    (sequential : Sequential options begin frameStart eventStart path)
    (step : HotStep options path next) :
    next.hot.ticks.filterMap Tick.popped = next.frames.popped := by
  have popped := sequential.popped
  cases step with
  | goOn after pc => cases after <;> exact popped
  | pop loopNs pc running =>
      have unchanged := path.frames.popped_stepConsumer
      rw [running, Option.join_none, Option.toList_none, List.append_nil] at unchanged
      exact popped.trans unchanged.symm
  | miss loopNs nowNs pc empty =>
      have unchanged := path.frames.popped_stepConsumer
      rw [empty, Option.join_some, Option.toList_none, List.append_nil] at unchanged
      rw [unchanged, ← popped]
      simp
  | serve loopNs nowNs frame pc some =>
      have grown := path.frames.popped_stepConsumer
      rw [some, Option.join_some, Option.toList_some] at grown
      rw [grown, ← popped]
      simp
  | _ => exact popped

/-- An event waits for the answer of the ring, unless the thread is at no event. -/
theorem Sequential.calling_next
    (sequential : Sequential options begin frameStart eventStart path)
    (step : HotStep options path next) :
    next.events.producer.offered = HotPath.calling next.hot.pc ∧
      next.hot.refused.length + (HotPath.calling next.hot.pc).toList.length =
        next.hot.loop.emitted.length ∧
      ∀ event, HotPath.calling next.hot.pc = some event →
        next.hot.loop.emitted.getLast? = some event := by
  have called := sequential.calling
  have answered := sequential.answered
  have none : ∀ (events : List ChunkEvent) event, (none : Option ChunkEvent) = some event →
      events.getLast? = some event := fun _ _ absent => by cases absent
  cases step with
  | stay => exact ⟨called, answered, sequential.latest⟩
  | sweep loopNs loop tails pc expired =>
      rw [pc] at called answered
      obtain ⟨emitted, -⟩ := emitted_expire expired
      exact ⟨called, emitted ▸ answered, none _⟩
  | flush endNs loop tails pc closed =>
      rw [pc] at called answered
      obtain ⟨emitted, -⟩ := emitted_close closed
      exact ⟨called, emitted ▸ answered, none _⟩
  | goOn after pc =>
      rw [pc] at called answered
      cases after <;> exact ⟨called, answered, none _⟩
  | call event pending after pc =>
      rw [pc] at called answered
      refine ⟨(SpscState.stepProducer_begin called event).2, ?_, ?_⟩
      · change path.hot.refused.length + 1 = (path.hot.loop.emitted ++ [event]).length
        rw [List.length_append, ← answered]
        rfl
      · intro latest same
        cases same
        exact List.getLast?_concat
  | push event pending after pc running =>
      refine ⟨?_, answered, sequential.latest⟩
      rw [pc] at called ⊢
      exact (SpscState.stepProducer_goOn called running event).2
  | answer event pending after result pc returned =>
      rw [pc] at called answered
      refine ⟨?_, ?_, none _⟩
      · rw [(SpscState.stepProducer_return called returned event).2]
        rfl
      · rw [List.length_append]
        exact answered
  | pop loopNs pc running => exact ⟨called, answered, sequential.latest⟩
  | miss loopNs nowNs pc empty =>
      rw [pc] at called answered
      exact ⟨called, answered, none _⟩
  | serve loopNs nowNs frame pc popped =>
      rw [pc] at called answered
      have emitted := @emitted_feedFrame D options path.hot.loop _ frame nowNs
      exact ⟨called, emitted.symm ▸ answered, none _⟩

/-- The ring has been pushed the events it has not refused. -/
theorem Sequential.pushed_next
    (sequential : Sequential options begin frameStart eventStart path)
    (step : HotStep options path next) :
    next.events.pushed = accepted next.hot.loop.emitted next.hot.refused := by
  have called := sequential.calling
  have answered := sequential.answered
  have pushed := sequential.pushed
  cases step with
  | sweep loopNs loop tails pc expired => exact (emitted_expire expired).1 ▸ pushed
  | flush endNs loop tails pc closed => exact (emitted_close closed).1 ▸ pushed
  | goOn after pc => cases after <;> exact pushed
  | call event pending after pc =>
      rw [pc] at called answered
      change (path.events.stepProducer event).pushed =
        accepted (path.hot.loop.emitted ++ [event]) path.hot.refused
      rw [accepted_pending answered, ← pushed]
      exact (SpscState.stepProducer_begin called event).1
  | push event pending after pc running =>
      rw [pc] at called
      exact (SpscState.stepProducer_goOn called running event).1.trans pushed
  | answer event pending after result pc returned =>
      have latest := sequential.latest event (by rw [pc]; rfl)
      obtain ⟨before, emitted⟩ := List.getLast?_eq_some_iff.mp latest
      rw [pc] at called answered
      rw [emitted] at answered pushed
      have same : path.hot.refused.length = before.length := by
        rw [List.length_append] at answered
        exact Nat.succ.inj answered
      rw [accepted_pending same] at pushed
      have kept : (path.hot.loop.answered (result == .full)).emitted = before ++ [event] := emitted
      rw [(SpscState.stepProducer_return called returned event).1, pushed, kept,
        accepted_snoc same]
  | serve loopNs nowNs frame pc popped =>
      have emitted := @emitted_feedFrame D options path.hot.loop _ frame nowNs
      exact emitted.symm ▸ pushed
  | _ => exact pushed

theorem Sequential.fifo_next (sequential : Sequential options begin frameStart eventStart path)
    (step : HotStep options path next) :
    SpscState.Fifo frameStart next.frames ∧ SpscState.Fifo eventStart next.events := by
  have frames := sequential.frames
  have events := sequential.events
  cases step with
  | goOn after pc => cases after <;> exact ⟨frames, events⟩
  | call event pending after pc => exact ⟨frames, events.stepProducer event⟩
  | push event pending after pc running => exact ⟨frames, events.stepProducer event⟩
  | answer event pending after result pc returned => exact ⟨frames, events.stepProducer event⟩
  | pop loopNs pc running => exact ⟨frames.stepConsumer, events⟩
  | miss loopNs nowNs pc empty => exact ⟨frames.stepConsumer, events⟩
  | serve loopNs nowNs frame pc popped => exact ⟨frames.stepConsumer, events⟩
  | _ => exact ⟨frames, events⟩

/-- Step lemma: whatever `hot_loop` does next keeps it in step with the sequential loop. -/
theorem Sequential.hotStep (sequential : Sequential options begin frameStart eventStart path)
    (step : HotStep options path next) : Sequential options begin frameStart eventStart next where
  frames := (sequential.fifo_next step).1
  events := (sequential.fifo_next step).2
  simulates := fun _ => sequential.simulates_next step
  popped := sequential.popped_next step
  pushed := sequential.pushed_next step
  calling := (sequential.calling_next step).1
  answered := (sequential.calling_next step).2.1
  latest := (sequential.calling_next step).2.2

/-- The thread pops frames and pushes none. -/
theorem HotStep.frames_keeps (step : HotStep options path next) :
    next.frames.pushed = path.frames.pushed ∧ next.frames.producer = path.frames.producer := by
  obtain ⟨pushed, producer, -⟩ := path.frames.stepConsumer_keeps
  cases step with
  | goOn after pc => cases after <;> exact ⟨rfl, rfl⟩
  | pop loopNs pc running => exact ⟨pushed, producer⟩
  | miss loopNs nowNs pc empty => exact ⟨pushed, producer⟩
  | serve loopNs nowNs frame pc popped => exact ⟨pushed, producer⟩
  | _ => exact ⟨rfl, rfl⟩

/-- The thread pushes events and pops none. -/
theorem HotStep.events_popped (step : HotStep options path next) :
    next.events.popped = path.events.popped := by
  cases step with
  | goOn after pc => cases after <;> rfl
  | call event pending after pc => exact (path.events.stepProducer_keeps event).1
  | push event pending after pc running => exact (path.events.stepProducer_keeps event).1
  | answer event pending after result pc answered =>
      exact (path.events.stepProducer_keeps event).1
  | _ => rfl

/-- A thread that has returned stays where it is. -/
theorem stepHot_of_returned {endNs : UInt64} (pc : path.hot.pc = .returned endNs)
    (input : HotInput) : path.stepHot options input = path := by
  unfold stepHot
  rw [pc]

/-- The frames' producer may move on. -/
theorem Sequential.frameProducer
    (sequential : Sequential options begin frameStart eventStart path) (value : AudioFrame) :
    Sequential options begin frameStart eventStart
      { path with frames := path.frames.stepProducer value } := by
  obtain ⟨popped, -⟩ := path.frames.stepProducer_keeps value
  exact { sequential with
    frames := sequential.frames.stepProducer value
    popped := sequential.popped.trans popped.symm }

/-- The events' consumer may move on. -/
theorem Sequential.eventConsumer
    (sequential : Sequential options begin frameStart eventStart path) :
    Sequential options begin frameStart eventStart
      { path with events := path.events.stepConsumer } := by
  obtain ⟨pushed, producer, -⟩ := path.events.stepConsumer_keeps
  exact { sequential with
    events := sequential.events.stepConsumer
    pushed := pushed.trans sequential.pushed
    calling := producer.symm ▸ sequential.calling }

/-- The rings are empty and the thread is about to start. -/
def initial (begin : HotLoop D) (frameStart eventStart : UInt64)
    (frameSlots : Vector AudioFrame frameCapacity.size)
    (eventSlots : Vector ChunkEvent eventCapacity.size) :
    HotPath D frameCapacity eventCapacity where
  frames := .initial frameStart frameSlots
  events := .initial eventStart eventSlots
  hot := { loop := begin }

theorem sequential_initial (options : LoopOptions) (silent : begin.emitted = [])
    (frameStart eventStart : UInt64) (frameSlots : Vector AudioFrame frameCapacity.size)
    (eventSlots : Vector ChunkEvent eventCapacity.size) :
    Sequential options begin frameStart eventStart
      (initial begin frameStart eventStart frameSlots eventSlots) where
  frames := SpscState.fifo_initial frameStart frameSlots
  events := SpscState.fifo_initial eventStart eventSlots
  simulates := fun _ _ => rfl
  popped := rfl
  pushed := by
    change [] = accepted begin.emitted []
    rw [silent]
    rfl
  calling := rfl
  answered := by
    change 0 = begin.emitted.length
    rw [silent]
    rfl
  latest := fun _ absent => by cases absent

/-- When the thread has returned, it has done what the sequential loop does. -/
theorem Sequential.hotLoop {maxSessions : Nat} {config : ChunkerConfig D} {startNs endNs : UInt64}
    (sequential : Sequential options (.start maxSessions config startNs) frameStart eventStart path)
    (pc : path.hot.pc = .returned endNs) {full : Nat → Bool}
    (heeds : Heeds full path.hot.refused) :
    HotLoop.hotLoop full options maxSessions config startNs path.hot.ticks endNs =
      some path.hot.loop := by
  have reached := sequential.simulates full heeds
  rw [Simulates, pc] at reached
  exact reached

end

end HotPath

end VoiceHotPath
