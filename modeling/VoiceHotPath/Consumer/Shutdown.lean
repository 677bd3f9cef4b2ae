import VoiceHotPath.Consumer.Publisher
import VoiceHotPath.Consumer.Undisturbed
import VoiceHotPath.Lib.Progress
import VoiceHotPath.Ring.Depth

/-!
# Shutting down

No call on a ring waits for the other side, so once the loop is told to stop, any
fair schedule takes the hot loop through its final flush, `main` past the store of
`hot_done` and the publisher through what is left in the event ring.
-/

namespace VoiceHotPath

/-- The steps a call of `try_push` has left, at most. -/
def Producer.left {α : Type} : Producer α → Nat
  | .idle => 8
  | .loadHead _ => 7
  | .check _ _ => 6
  | .loadTail _ _ => 5
  | .storeCache _ _ _ _ => 4
  | .recheck _ _ _ => 3
  | .copy _ _ => 2
  | .publish _ _ => 1

/-- The steps a call of `try_pop` has left, at most. -/
def Consumer.left {α : Type} : Consumer α → Nat
  | .idle => 8
  | .loadTail => 7
  | .check _ => 6
  | .loadHead _ => 5
  | .storeCache _ _ _ => 4
  | .recheck _ _ => 3
  | .copy _ => 2
  | .publish _ _ => 1

theorem Producer.left_pos {α : Type} (producer : Producer α) : 0 < producer.left := by
  cases producer <;> exact Nat.succ_pos _

theorem Consumer.left_pos {α : Type} (consumer : Consumer α) : 0 < consumer.left := by
  cases consumer <;> exact Nat.succ_pos _

theorem Consumer.left_le {α : Type} (consumer : Consumer α) : consumer.left ≤ 8 := by
  cases consumer <;> simp [left]

theorem Producer.eq_idle {α : Type} {producer : Producer α} (quiet : producer.offered = none) :
    producer = .idle := by
  cases producer with
  | idle => rfl
  | _ => cases quiet

namespace SpscState

section

variable {α : Type} {capacity : Capacity} {state : SpscState α capacity}

/-- A call of `try_push` that does not return is one step closer to it. -/
theorem left_stepProducer (running : state.pushAnswer = none) (value : α) :
    (state.stepProducer value).producer.left < state.producer.left := by
  unfold pushAnswer at running
  unfold stepProducer
  cases pc : state.producer with
  | check offered head =>
      dsimp only
      split <;> simp [Producer.left]
  | recheck offered head held =>
      rw [pc] at running
      have room : ¬ capacity.value ≤ head - state.ring.tailCache := fun full => by
        simp [full] at running
      simp [room, Producer.left]
  | publish offered head =>
      rw [pc] at running
      cases running
  | _ => simp [Producer.left]

/-- A call of `try_pop` that does not return is one step closer to it. -/
theorem left_stepConsumer (running : state.popAnswer = none) :
    state.stepConsumer.consumer.left < state.consumer.left := by
  unfold popAnswer at running
  unfold stepConsumer
  cases pc : state.consumer with
  | check tail =>
      dsimp only
      split <;> simp [Consumer.left]
  | recheck tail held =>
      rw [pc] at running
      have item : ¬ tail = state.ring.headCache := fun empty => by simp [empty] at running
      simp [item, Consumer.left]
  | publish tail out =>
      rw [pc] at running
      cases running
  | _ => simp [Consumer.left]

/-- Unless someone pushes, the call of `try_pop` will find the ring empty. -/
def turnsBack (state : SpscState α capacity) : Prop :=
  match state.consumer with
  | .idle | .loadTail | .check _ | .loadHead _ => state.ring.head = state.ring.tail
  | .storeCache tail head _ => tail = head
  | .recheck tail _ => tail = state.ring.headCache
  | .copy _ | .publish _ _ => False

instance (state : SpscState α capacity) : Decidable state.turnsBack := by
  unfold turnsBack
  cases state.consumer <;> infer_instance

/-- A call that is to find an item does not change its mind. -/
theorem turnsBack_stepConsumer {start : UInt64} (fifo : Fifo start state)
    (running : state.popAnswer = none) (back : state.stepConsumer.turnsBack) :
    state.turnsBack := by
  obtain ⟨seen, known, inv⟩ := fifo
  have knows := inv.consumer
  unfold popAnswer at running
  unfold stepConsumer at back
  unfold turnsBack at back ⊢
  cases pc : state.consumer with
  | idle =>
      rw [pc] at back
      exact back
  | loadTail =>
      rw [pc] at back
      exact back
  | check tail =>
      rw [pc] at back
      by_cases same : tail = state.ring.headCache
      · simp only [same, if_true] at back
        exact back
      · simp only [same, if_false] at back
  | loadHead tail =>
      rw [pc] at back knows
      have same : tail = state.ring.tail := knows.trans inv.indexed.tail.symm
      exact (same.symm.trans back).symm
  | storeCache tail head held =>
      rw [pc] at back
      exact back
  | recheck tail held =>
      rw [pc] at back running
      have item : ¬ tail = state.ring.headCache := fun empty => by simp [empty] at running
      simp [item] at back
  | copy tail =>
      rw [pc] at back
      cases back
  | publish tail out =>
      rw [pc] at running
      cases running

end

end SpscState

namespace HotPc

/-- The final flush has been done. -/
def finishing : HotPc → Bool
  | .emitting _ (.finish _) => true
  | .pushing _ _ (.finish _) => true
  | .returned _ => true
  | _ => false

end HotPc

/-- What is still to come after the pending events, until the loop looks at the stop flag. -/
def Afterwards.left : Afterwards → Nat
  | .test => 2
  | .pop _ => 22
  | .finish _ => 1

namespace HotPath

section

variable {D : Type} {frameCapacity eventCapacity : Capacity}

/-- The steps `hot_loop` has left, at most, until it looks at the stop flag or returns. -/
def left (path : HotPath D frameCapacity eventCapacity) : Nat :=
  match path.hot.pc with
  | .test => 1
  | .emitting pending next => 10 * pending.length + next.left
  | .pushing _ pending next => 10 * pending.length + next.left + path.events.producer.left
  | .popping _ => 13 + path.frames.consumer.left
  | .returned _ => 0

variable {path next : HotPath D frameCapacity eventCapacity}

/-- Steps of the other threads do not hold the hot loop up. -/
theorem left_congr (pc : next.hot.pc = path.hot.pc)
    (producer : next.events.producer = path.events.producer)
    (consumer : next.frames.consumer = path.frames.consumer) : next.left = path.left := by
  rw [left, left, pc, producer, consumer]

theorem left_goOn {afterwards : Afterwards}
    (pc : path.hot.pc = .emitting [] afterwards) : (path.goOn afterwards).left < path.left := by
  have bound := path.frames.consumer.left_le
  unfold left goOn
  rw [pc]
  cases afterwards with
  | test => simp [Afterwards.left]
  | pop loopNs =>
      simp only [List.length_nil, Afterwards.left]
      omega
  | finish endNs => simp [Afterwards.left]

theorem finishing_goOn {afterwards : Afterwards}
    (finishing : (HotPc.emitting [] afterwards).finishing = true) :
    (path.goOn afterwards).hot.pc.finishing = true := by
  cases afterwards with
  | finish endNs => rfl
  | _ => cases finishing

variable [Double D]

/-- A frame leaves at most one event to publish. -/
theorem length_feedFrame (options : LoopOptions) (loop : HotLoop D) (frame : AudioFrame)
    (nowNs : UInt64) : (loop.feedFrame options frame nowNs).2.length ≤ 1 := by
  unfold HotLoop.feedFrame
  cases loop.sessions.feedOf frame nowNs with
  | none => exact Nat.zero_le _
  | some feed => cases closed : feed.closes <;> simp [closed]

/-- Away from the test of the stop flag, every step of `hot_loop` counts. -/
theorem left_stepHot (options : LoopOptions) (input : HotInput)
    (quiet : path.events.producer.offered = calling path.hot.pc)
    (away : path.hot.pc ≠ .test) (runs : ∀ endNs, path.hot.pc ≠ .returned endNs) :
    (path.stepHot options input).left < path.left := by
  unfold stepHot
  cases pc : path.hot.pc with
  | test => exact absurd pc away
  | returned endNs => exact absurd pc (runs endNs)
  | emitting pending afterwards =>
      cases pending with
      | nil => exact left_goOn pc
      | cons event pending =>
          have idle : path.events.producer = .idle :=
            Producer.eq_idle (quiet.trans (by rw [pc]; rfl))
          have called : (path.events.stepProducer event).producer.left = 7 := by
            rw [SpscState.stepProducer, idle]
            rfl
          simp only [left, pc, called, List.length_cons]
          omega
  | pushing event pending afterwards =>
      dsimp only
      cases answer : path.events.pushAnswer with
      | none =>
          have closer := SpscState.left_stepProducer answer event
          simp only [left, pc]
          omega
      | some result =>
          have some := path.events.producer.left_pos
          simp only [left, pc]
          omega
  | popping loopNs =>
      have some := path.frames.consumer.left_pos
      dsimp only
      cases answer : path.frames.popAnswer with
      | none =>
          have closer := SpscState.left_stepConsumer answer
          simp only [left, pc]
          omega
      | some popped =>
          cases popped with
          | none =>
              simp only [left, pc]
              omega
          | some frame =>
              have one := length_feedFrame options path.hot.loop frame input.nowNs
              simp only [left, pc, Afterwards.left]
              omega

/-- Told to stop, the loop flushes when it looks at the flag. -/
theorem finishing_of_test (options : LoopOptions) {input : HotInput} (stop : input.stop = true)
    (ok : path.hot.loop.sessions.Ok) (pc : path.hot.pc = .test) :
    (path.stepHot options input).hot.pc.finishing = true := by
  obtain ⟨sessions, tails, returned, -⟩ := ok.sweepAll (fun _ => true) input.nowNs
  have closed : path.hot.loop.close input.nowNs =
      some ({ path.hot.loop with sessions := sessions }, tails) := by
    rw [HotLoop.close, SessionTable.flushAll, returned]
    rfl
  rw [stepHot, pc]
  dsimp only
  rw [if_pos stop, closed]
  rfl

theorem finishing_stepHot (options : LoopOptions) (input : HotInput)
    (finishing : path.hot.pc.finishing = true) :
    (path.stepHot options input).hot.pc.finishing = true := by
  unfold stepHot
  cases pc : path.hot.pc with
  | test =>
      rw [pc] at finishing
      cases finishing
  | returned endNs => exact finishing
  | emitting pending afterwards =>
      rw [pc] at finishing
      cases pending with
      | nil => exact finishing_goOn finishing
      | cons event pending =>
          cases afterwards with
          | finish endNs => rfl
          | _ => cases finishing
  | pushing event pending afterwards =>
      dsimp only
      cases path.events.pushAnswer with
      | none => exact finishing
      | some result =>
          rw [pc] at finishing
          cases afterwards with
          | finish endNs => rfl
          | _ => cases finishing
  | popping loopNs =>
      rw [pc] at finishing
      cases finishing

/-- The hot loop only pushes to the event ring. -/
theorem HotStep.events_consumer {options : LoopOptions} (step : HotStep options path next) :
    next.events.consumer = path.events.consumer := by
  cases step with
  | goOn afterwards pc => cases afterwards <;> rfl
  | call event pending afterwards pc => exact (path.events.stepProducer_keeps event).2.1
  | push event pending afterwards pc running => exact (path.events.stepProducer_keeps event).2.1
  | answer event pending afterwards result pc answered =>
      exact (path.events.stepProducer_keeps event).2.1
  | _ => rfl

end

end HotPath

namespace Publishing

open Progress

section

variable {D : Type} {frameCapacity eventCapacity : Capacity}

/-- The steps `publish_loop` has left, at most, once the hot loop has returned and
`hot_done` is set. -/
def left (state : Publishing D frameCapacity eventCapacity) : Nat :=
  20 * (state.path.events.pushed.length - state.path.events.popped.length) +
    match state.pc with
    | .test => 12
    | .sizing none none => 11
    | .sizing (some _) none => 10
    | .sizing none (some _) => 10
    | .sizing (some _) (some _) => 9
    | .popping =>
        (if state.path.events.turnsBack then 12 else 0) + state.path.events.consumer.left
    | .exited => 0

theorem left_congr {state next : Publishing D frameCapacity eventCapacity}
    (events : next.path.events = state.path.events) (pc : next.pc = state.pc) :
    next.left = state.left := by
  rw [left, left, events, pc]

/-- The flag is not the publisher's. -/
theorem done_stepPublisher (state : Publishing D frameCapacity eventCapacity)
    (producedFirst : Bool) : (state.stepPublisher producedFirst).done = state.done := by
  unfold stepPublisher
  cases state.pc with
  | popping =>
      dsimp only
      split <;> rfl
  | sizing produced consumed =>
      cases produced <;> cases consumed
      · dsimp only
        split <;> rfl
      · rfl
      · rfl
      · rfl
  | _ => rfl

variable [Double D]

/-- What holds in every state, the calls of `try_pop` included. -/
structure Sound (options : LoopOptions) (begin : HotLoop D) (frameStart eventStart : UInt64)
    (state : Publishing D frameCapacity eventCapacity) : Prop where
  drains : Drains options begin frameStart eventStart state
  resting : state.pc ≠ .popping → state.path.events.consumer = .idle

variable {options : LoopOptions} {begin : HotLoop D} {frameStart eventStart : UInt64}
  {state : Publishing D frameCapacity eventCapacity}

/-- Between two pops the publisher runs no call. -/
theorem Sound.resting_stepPublisher (sound : Sound options begin frameStart eventStart state)
    (producedFirst : Bool) (away : (state.stepPublisher producedFirst).pc ≠ .popping) :
    (state.stepPublisher producedFirst).path.events.consumer = .idle := by
  have resting := sound.resting
  unfold stepPublisher at away ⊢
  cases pc : state.pc with
  | test => exact resting (by rw [pc]; nofun)
  | exited => exact resting (by rw [pc]; nofun)
  | sizing produced consumed =>
      have idle := resting (by rw [pc]; nofun)
      cases produced <;> cases consumed
      · dsimp only
        split <;> exact idle
      · exact idle
      · exact idle
      · exact idle
  | popping =>
      rw [pc] at away
      dsimp only at away ⊢
      obtain ⟨answer, -, -⟩ | ⟨out, answer, -, idle⟩ | ⟨answer, -, idle⟩ :=
        state.path.events.stepConsumer_cases
      · rw [answer] at away
        exact absurd rfl away
      · rw [answer]
        exact idle
      · rw [answer]
        exact idle

/-- Step lemma: every entry of a schedule keeps the state sound. -/
theorem Sound.step (sound : Sound options begin frameStart eventStart state)
    (actor : PublishingActor) :
    Sound options begin frameStart eventStart (state.step options actor) := by
  refine ⟨sound.drains.step actor, fun away => ?_⟩
  cases actor with
  | frames value => exact sound.resting away
  | hot input =>
      exact (state.path.hotStep options input).events_consumer.trans (sound.resting away)
  | main =>
      unfold Publishing.step at away ⊢
      cases pc : state.path.hot.pc with
      | returned endNs =>
          rw [pc] at away
          exact sound.resting away
      | _ =>
          rw [pc] at away
          exact sound.resting away
  | publisher producedFirst => exact sound.resting_stepPublisher producedFirst away

variable (options state) in
/-- Only its own steps move the hot loop on. -/
theorem hot_step (actor : PublishingActor) (other : ∀ input, actor ≠ .hot input) :
    (state.step options actor).path.hot = state.path.hot ∧
      (state.step options actor).path.left = state.path.left := by
  cases actor with
  | hot input => exact absurd rfl (other input)
  | frames value =>
      exact ⟨rfl, HotPath.left_congr rfl rfl (state.path.frames.stepProducer_keeps value).2.1⟩
  | main =>
      unfold Publishing.step
      cases state.path.hot.pc <;> exact ⟨rfl, rfl⟩
  | publisher producedFirst =>
      change (state.stepPublisher producedFirst).path.hot = state.path.hot ∧
        (state.stepPublisher producedFirst).path.left = state.path.left
      have popped : ({ state.path with events := state.path.events.stepConsumer } :
          HotPath D frameCapacity eventCapacity).left = state.path.left :=
        HotPath.left_congr rfl state.path.events.stepConsumer_keeps.2.1 rfl
      unfold stepPublisher
      cases state.pc with
      | popping =>
          dsimp only
          split <;> exact ⟨rfl, popped⟩
      | sizing produced consumed =>
          cases produced <;> cases consumed
          · dsimp only
            split <;> exact ⟨rfl, rfl⟩
          · exact ⟨rfl, rfl⟩
          · exact ⟨rfl, rfl⟩
          · exact ⟨rfl, rfl⟩
      | _ => exact ⟨rfl, rfl⟩

/-- A call that will find the ring empty was going to. -/
theorem turnsBack_of_miss {α : Type} {capacity : Capacity} {ring : SpscState α capacity}
    (miss : ring.popAnswer = some none) : ring.turnsBack := by
  unfold SpscState.popAnswer at miss
  unfold SpscState.turnsBack
  cases pc : ring.consumer with
  | recheck tail held =>
      rw [pc] at miss
      by_cases empty : tail = ring.ring.headCache
      · exact empty
      · simp [empty] at miss
  | publish tail out =>
      rw [pc] at miss
      cases miss
  | _ =>
      rw [pc] at miss
      cases miss

/-- Once `hot_done` is set, every step of the publisher counts. -/
theorem Sound.left_stepPublisher (sound : Sound options begin frameStart eventStart state)
    (set : state.done = true) (runs : state.pc ≠ .exited) (producedFirst : Bool) :
    (state.stepPublisher producedFirst).left < state.left := by
  have fifo := sound.drains.sequential.events
  unfold stepPublisher
  cases pc : state.pc with
  | exited => exact absurd pc runs
  | test =>
      simp only [left, pc, set, if_true]
      omega
  | sizing produced consumed =>
      have idle := sound.resting (by rw [pc]; nofun)
      obtain ⟨-, head, tail⟩ := sound.drains.sized produced consumed pc
      cases produced with
      | none =>
          cases consumed with
          | none =>
              dsimp only
              split
              · simp only [left, pc]
                omega
              · simp only [left, pc]
                omega
          | some loaded =>
              simp only [left, pc]
              omega
      | some loaded =>
          cases consumed with
          | none =>
              simp only [left, pc]
              omega
          | some loaded' =>
              dsimp only
              split
              · simp only [left, pc]
                omega
              · rename_i apart
                rw [head loaded rfl, tail loaded' rfl] at apart
                have nonempty : ¬ state.path.events.turnsBack := by
                  intro back
                  rw [SpscState.turnsBack, idle] at back
                  exact apart (by rw [back, UInt64.sub_self])
                simp only [left, pc, nonempty, if_false, idle, Consumer.left]
                omega
  | popping =>
      have pushed := state.path.events.stepConsumer_keeps.1
      have some := state.path.events.consumer.left_pos
      dsimp only
      obtain ⟨answer, popped, -⟩ | ⟨out, answer, popped, -⟩ | ⟨answer, popped, -⟩ :=
        state.path.events.stepConsumer_cases
      · have closer := SpscState.left_stepConsumer answer
        have back := SpscState.turnsBack_stepConsumer fifo answer
        rw [answer]
        simp only [left, pc, pushed, popped]
        split
        · rename_i later
          rw [if_pos (back later)]
          omega
        · omega
      · obtain ⟨-, -, order, -⟩ := fifo.stepConsumer.counts
        rw [pushed, popped, List.length_append, List.length_singleton] at order
        rw [answer]
        simp only [left, pc, pushed, popped, List.length_append, List.length_singleton]
        omega
      · rw [answer]
        simp only [left, pc, pushed, popped, if_pos (turnsBack_of_miss answer)]
        omega

/-! ## The four phases -/

/-- The hot loop is told to stop whenever it looks. -/
def obeys (actor : PublishingActor) : Prop :=
  ∀ input, actor = .hot input → input.stop = true

def isHot (actor : PublishingActor) : Prop :=
  ∃ input, actor = .hot input

def isPublisher (actor : PublishingActor) : Prop :=
  ∃ producedFirst, actor = .publisher producedFirst

/-- At the test of the stop flag the table is the one the sequential loop has reached. -/
theorem Sound.table_ok {maxSessions : Nat} {config : ChunkerConfig D} {startNs : UInt64}
    (small : maxSessions ≤ kTombstone)
    (sound : Sound options (HotLoop.start maxSessions config startNs) frameStart eventStart state)
    (pc : state.path.hot.pc = .test) : state.path.hot.loop.sessions.Ok := by
  have reached := sound.drains.sequential.simulates _ (HotPath.heeds_getD state.path.hot.refused)
  rw [HotPath.Simulates, pc] at reached
  exact HotLoop.ok_iterateAll (.make_clamped small config) reached

/-- First the hot loop gets to its final flush. -/
theorem approaches_finishing {maxSessions : Nat} {config : ChunkerConfig D} {startNs : UInt64}
    (small : maxSessions ≤ kTombstone) :
    Approaches
      (step options : Publishing D frameCapacity eventCapacity → PublishingActor → _)
      obeys isHot
      (Sound options (HotLoop.start maxSessions config startNs) frameStart eventStart)
      (fun state => state.path.hot.pc.finishing = true) (fun state => state.path.left) := by
  refine ⟨fun state actor obeyed sound => ?_⟩
  by_cases acts : isHot actor
  · obtain ⟨input, rfl⟩ := acts
    by_cases test : state.path.hot.pc = .test
    · exact .inl (HotPath.finishing_of_test options (obeyed input rfl) (sound.table_ok small test)
        test)
    · by_cases finishing : state.path.hot.pc.finishing = true
      · exact .inl (HotPath.finishing_stepHot options input finishing)
      · have runs : ∀ endNs, state.path.hot.pc ≠ .returned endNs := fun endNs returned =>
          finishing (by rw [returned]; rfl)
        have closer := HotPath.left_stepHot options input sound.drains.sequential.calling test runs
        exact .inr ⟨sound.step _, Nat.le_of_lt closer, fun _ => closer⟩
  · obtain ⟨-, same⟩ := hot_step options state actor
      fun input hot => acts ⟨input, hot⟩
    exact .inr ⟨sound.step actor, Nat.le_of_eq same, fun helps => absurd helps acts⟩

/-- Then it publishes what the flush has closed, and returns. -/
theorem approaches_returned :
    Approaches
      (step options : Publishing D frameCapacity eventCapacity → PublishingActor → _)
      (fun _ => True) isHot
      (fun state => Sound options begin frameStart eventStart state ∧
        state.path.hot.pc.finishing = true)
      (fun state => ∃ endNs, state.path.hot.pc = .returned endNs)
      (fun state => state.path.left) := by
  refine ⟨fun state actor _ ⟨sound, finishing⟩ => ?_⟩
  by_cases acts : isHot actor
  · obtain ⟨input, rfl⟩ := acts
    by_cases returned : ∃ endNs, state.path.hot.pc = .returned endNs
    · obtain ⟨endNs, pc⟩ := returned
      refine .inl ⟨endNs, ?_⟩
      change (state.path.stepHot options input).hot.pc = _
      rw [HotPath.stepHot_of_returned pc, pc]
    · have away : state.path.hot.pc ≠ .test := fun test => by
        rw [test] at finishing
        cases finishing
      have closer := HotPath.left_stepHot options input sound.drains.sequential.calling away
        fun endNs pc => returned ⟨endNs, pc⟩
      exact .inr ⟨⟨sound.step _, HotPath.finishing_stepHot options input finishing⟩,
        Nat.le_of_lt closer, fun _ => closer⟩
  · obtain ⟨hot, same⟩ := hot_step options state actor
      fun input hot => acts ⟨input, hot⟩
    refine .inr ⟨⟨sound.step actor, ?_⟩, Nat.le_of_eq same, fun helps => absurd helps acts⟩
    rw [hot]
    exact finishing

theorem returned_step {endNs : UInt64} (returned : state.path.hot.pc = .returned endNs)
    (actor : PublishingActor) : (state.step options actor).path.hot.pc = .returned endNs := by
  by_cases acts : isHot actor
  · obtain ⟨input, rfl⟩ := acts
    change (state.path.stepHot options input).hot.pc = _
    rw [HotPath.stepHot_of_returned returned, returned]
  · rw [(hot_step options state actor fun input hot => acts ⟨input, hot⟩).1, returned]

/-- Then `main` sets the flag. -/
theorem approaches_done :
    Approaches
      (step options : Publishing D frameCapacity eventCapacity → PublishingActor → _)
      (fun _ => True) (· = .main)
      (fun state => Sound options begin frameStart eventStart state ∧
        ∃ endNs, state.path.hot.pc = .returned endNs)
      (fun state => state.done = true) (fun _ => 0) := by
  refine ⟨fun state actor _ ⟨sound, endNs, returned⟩ => ?_⟩
  by_cases acts : actor = .main
  · subst acts
    refine .inl ?_
    rw [step, returned]
  · exact .inr ⟨⟨sound.step actor, endNs, returned_step returned actor⟩, Nat.le_refl _,
      fun helps => absurd helps acts⟩

/-- Once the flag is set, only the publisher moves the event ring. -/
theorem Sound.settled_step (sound : Sound options begin frameStart eventStart state)
    (set : state.done = true) (actor : PublishingActor) (other : ¬ isPublisher actor) :
    (state.step options actor).done = true ∧ (state.step options actor).pc = state.pc ∧
      (state.step options actor).path.events = state.path.events := by
  obtain ⟨endNs, returned⟩ := sound.drains.done set
  cases actor with
  | frames value => exact ⟨set, rfl, rfl⟩
  | hot input =>
      refine ⟨set, rfl, ?_⟩
      change (state.path.stepHot options input).events = _
      rw [HotPath.stepHot_of_returned returned]
  | main =>
      rw [Publishing.step, returned]
      exact ⟨rfl, rfl, rfl⟩
  | publisher producedFirst => exact absurd ⟨producedFirst, rfl⟩ other

theorem exited_step (exited : state.pc = .exited) (actor : PublishingActor) :
    (state.step options actor).pc = .exited := by
  cases actor with
  | publisher producedFirst =>
      change (state.stepPublisher producedFirst).pc = _
      rw [stepPublisher, exited]
      exact exited
  | main =>
      unfold Publishing.step
      cases state.path.hot.pc <;> exact exited
  | _ => exact exited

/-- Then the publisher empties the event ring. -/
theorem approaches_exited :
    Approaches
      (step options : Publishing D frameCapacity eventCapacity → PublishingActor → _)
      (fun _ => True) isPublisher
      (fun state => Sound options begin frameStart eventStart state ∧ state.done = true)
      (fun state => state.pc = .exited) left := by
  refine ⟨fun state actor _ ⟨sound, set⟩ => ?_⟩
  by_cases acts : isPublisher actor
  · obtain ⟨producedFirst, rfl⟩ := acts
    by_cases exited : state.pc = .exited
    · exact .inl (exited_step exited _)
    · have closer := sound.left_stepPublisher set exited producedFirst
      refine .inr ⟨⟨sound.step _, ?_⟩, Nat.le_of_lt closer, fun _ => closer⟩
      exact (state.done_stepPublisher producedFirst).trans set
  · obtain ⟨stays, pc, events⟩ := sound.settled_step set actor acts
    exact .inr ⟨⟨sound.step actor, stays⟩, Nat.le_of_eq (left_congr events pc),
      fun helps => absurd helps acts⟩

/-- Under any schedule in which the hot loop, `main` and the publisher keep taking steps
and the hot loop is told to stop from some point on, the publisher exits, for good, after
`main` has set `hot_done`, and has then printed every event published that the event ring
did not refuse. -/
theorem shutdown_completes (options : LoopOptions) {maxSessions : Nat}
    (small : maxSessions ≤ kTombstone) (config : ChunkerConfig D)
    (startNs frameStart eventStart : UInt64) (frameSlots : Vector AudioFrame frameCapacity.size)
    (eventSlots : Vector ChunkEvent eventCapacity.size) (schedule : Nat → PublishingActor)
    (stops : ∃ n, ∀ m, n ≤ m → obeys (schedule m)) (hot : Recurs schedule isHot)
    (main : Recurs schedule (· = .main)) (publisher : Recurs schedule isPublisher) :
    ∃ n, ∀ m, n ≤ m → ∃ state, state = states (step options) schedule
        (initial (HotLoop.start maxSessions config startNs) frameStart eventStart frameSlots
          eventSlots) m ∧
      state.pc = .exited ∧ state.done = true ∧ state.printed = state.path.events.pushed ∧
      state.path.events.pushed =
        HotPath.accepted state.path.hot.loop.emitted state.path.hot.refused ∧
      ∃ endNs, state.path.hot.pc = .returned endNs := by
  generalize begun : (initial (HotLoop.start maxSessions config startNs) frameStart eventStart
    frameSlots eventSlots : Publishing D frameCapacity eventCapacity) = start
  have begins : Sound options (HotLoop.start maxSessions config startNs) frameStart eventStart
      (states (step options) schedule start 0) :=
    ⟨begun ▸ drains_initial options rfl frameStart eventStart frameSlots eventSlots,
      fun _ => begun ▸ rfl⟩
  have sound : ∀ n, Sound options (HotLoop.start maxSessions config startNs) frameStart eventStart
      (states (step options) schedule start n) := fun n =>
    always _ (fun _ actor sound => sound.step actor) begins (Nat.zero_le n)
  obtain ⟨n, obeyed⟩ := stops
  obtain ⟨first, late, finishing⟩ :=
    (approaches_finishing small).eventually hot obeyed (sound n)
  obtain ⟨second, -, endNs, returned⟩ := approaches_returned.eventually hot
    (fun _ _ => trivial) ⟨sound first, finishing⟩
  obtain ⟨third, -, set⟩ := approaches_done.eventually main (fun _ _ => trivial)
    ⟨sound second, endNs, returned⟩
  obtain ⟨last, -, exited⟩ := approaches_exited.eventually publisher (fun _ _ => trivial)
    ⟨sound third, set⟩
  refine ⟨last, fun m later => ⟨_, rfl, ?_⟩⟩
  have stays : (states (step options) schedule start m).pc = .exited :=
    always (fun state : Publishing D frameCapacity eventCapacity => state.pc = .exited)
      (fun _ actor exited => exited_step exited actor) exited later
  obtain ⟨set, empty⟩ := (sound m).drains.exited stays
  have drained := (sound m).drains.sequential.events.drained empty
  exact ⟨stays, set, (sound m).drains.printed.trans drained, (sound m).drains.sequential.pushed,
    (sound m).drains.done set⟩

end

open Scenario Progress in
/-- Three frames come while the threads take turns; the stop is seen after a while. -/
theorem shutdown_completes_turns :
    ∃ n, ∀ m, n ≤ m → ∃ state : Publishing ℚ twoSlots twoSlots,
      state = states (step ⟨20000000, 100000000⟩) (fun n =>
          if n % 4 = 0 then .frames (toneFrame (UInt64.ofNat n))
          else if n % 4 = 1 then .hot ⟨decide (100 ≤ n), UInt64.ofNat (1000000 * n)⟩
          else if n % 4 = 2 then .main else .publisher true)
        (initial (HotLoop.start 1 shortConfig 0) 0 0 (Vector.replicate _ {})
          (Vector.replicate _ {})) m ∧
      state.pc = .exited ∧ state.done = true ∧ state.printed = state.path.events.pushed ∧
      state.path.events.pushed =
        HotPath.accepted state.path.hot.loop.emitted state.path.hot.refused ∧
      ∃ endNs, state.path.hot.pc = .returned endNs := by
  refine shutdown_completes _ (by decide) shortConfig 0 0 0 _ _ _ ⟨100, fun m late => ?_⟩
    (fun n => ⟨4 * n + 1, by omega, ?_⟩) (fun n => ⟨4 * n + 2, by omega, ?_⟩)
    (fun n => ⟨4 * n + 3, by omega, ?_⟩)
  · intro input same
    split at same
    · cases same
    · split at same
      · cases same
        exact decide_eq_true late
      · split at same <;> cases same
  · have turn : (4 * n + 1) % 4 = 1 := by omega
    simp [isHot, turn]
  · have turn : (4 * n + 2) % 4 = 2 := by omega
    simp [turn]
  · have turn : (4 * n + 3) % 4 = 3 := by omega
    simp [isPublisher, turn]

end Publishing

end VoiceHotPath
