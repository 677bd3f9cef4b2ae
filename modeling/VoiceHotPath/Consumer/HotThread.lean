import VoiceHotPath.Consumer.Journal
import VoiceHotPath.Ring.Calls

/-!
# The thread of the hot loop

`hot_loop` between the two rings, one step for each access to memory it shares.
Its private work, a sweep or a frame, is done in the step before the first event
is published; the events wait in the program counter.  The thread remembers the
iterations it has completed and which of its events were refused.
-/

namespace VoiceHotPath

namespace HotLoop

section

variable {D : Type}

/-- `++metrics.chunks` for an event about to be pushed. -/
def counted (loop : HotLoop D) (event : ChunkEvent) : HotLoop D :=
  { loop with
    emitted := loop.emitted ++ [event]
    metrics := { loop.metrics with chunks := loop.metrics.chunks + 1 } }

/-- `++metrics.event_drops` for an event the ring has refused. -/
def answered (loop : HotLoop D) (refused : Bool) : HotLoop D :=
  { loop with
    metrics := { loop.metrics with
      eventDrops :=
        if refused then loop.metrics.eventDrops + 1 else loop.metrics.eventDrops } }

/-- The idle sweep, when it is due, and the events it leaves to publish. -/
def expire (options : LoopOptions) (loop : HotLoop D) (loopNs : UInt64) :
    Option (HotLoop D × List ChunkEvent) :=
  if loop.nextSweepNs ≤ loopNs then
    (loop.sessions.expireIdle loopNs options.idleNs).map fun (sessions, tails) =>
      ({ loop with sessions := sessions, nextSweepNs := loopNs + sweepIntervalNs }, tails)
  else some (loop, [])

/-- The final flush, and the events it leaves to publish. -/
def close (loop : HotLoop D) (nowNs : UInt64) : Option (HotLoop D × List ChunkEvent) :=
  (loop.sessions.flushAll nowNs).map fun (sessions, tails) =>
    ({ loop with sessions := sessions }, tails)

/-- What `hot_loop` reports of its sessions before it returns. -/
def reported (loop : HotLoop D) : HotLoop D :=
  { loop with
    metrics := { loop.metrics with
      sessionsPeak := loop.sessions.peakLive
      sessionsOpened := loop.sessions.opened
      sessionsRejected := loop.sessions.rejected
      sessionsCapacity := loop.sessions.maxSessions } }

/-- A frame that has been popped, and the event it leaves to publish. -/
def feedFrame [Double D] (options : LoopOptions) (loop : HotLoop D) (frame : AudioFrame)
    (nowNs : UInt64) : HotLoop D × List ChunkEvent :=
  let sessions := (loop.sessions.acquire frame.hdr.sessionId nowNs).1
  match loop.sessions.feedOf frame nowNs with
  | none =>
      let metrics := loop.metrics.observeTransport frame nowNs
      ({ loop with
        sessions := sessions
        metrics := { metrics with framesRefused := metrics.framesRefused + 1 } }, [])
  | some feed =>
      ({ loop with
        sessions := sessions.modifySession feed.storage (Session.served frame nowNs)
        metrics := feed.observed options loop.metrics }, feed.closes.toList)

variable {full : Nat → Bool} {options : LoopOptions} {loop : HotLoop D}

theorem emit_eq (event : ChunkEvent) :
    loop.emit full event = (loop.counted event).answered (full loop.emitted.length) := rfl

theorem sweep_eq (loopNs : UInt64) :
    loop.sweep full options loopNs =
      (loop.expire options loopNs).map fun (worked, tails) => emitAll full worked tails := by
  unfold sweep expire
  split
  · rw [Option.map_map]
    rfl
  · rfl

theorem finish_eq (nowNs : UInt64) :
    loop.finish full nowNs =
      (loop.close nowNs).map fun (worked, tails) => (emitAll full worked tails).reported := by
  unfold finish close
  rw [Option.map_map]
  apply congrFun
  apply congrArg
  funext (sessions, tails)
  have kept := (emitAll_keeps full { loop with sessions := sessions } tails).1
  simp only [Function.comp, reported, kept]

theorem serve_eq [Double D] (frame : AudioFrame) (nowNs : UInt64) :
    loop.serve full options frame nowNs =
      emitAll full (loop.feedFrame options frame nowNs).1
        (loop.feedFrame options frame nowNs).2 := by
  unfold feedFrame
  cases fed : loop.sessions.feedOf frame nowNs with
  | none => exact serve_of_refused fed
  | some feed => exact serve_of_fed fed

/-- Private work publishes nothing. -/
theorem emitted_expire {loopNs : UInt64} {worked : HotLoop D} {tails : List ChunkEvent}
    (expired : loop.expire options loopNs = some (worked, tails)) :
    worked.emitted = loop.emitted ∧ worked.metrics = loop.metrics := by
  unfold expire at expired
  split at expired
  · obtain ⟨outcome, -, same⟩ := Option.map_eq_some_iff.mp expired
    cases same
    exact ⟨rfl, rfl⟩
  · cases expired
    exact ⟨rfl, rfl⟩

theorem emitted_close {endNs : UInt64} {worked : HotLoop D} {tails : List ChunkEvent}
    (closed : loop.close endNs = some (worked, tails)) :
    worked.emitted = loop.emitted ∧ worked.metrics = loop.metrics := by
  obtain ⟨outcome, -, same⟩ := Option.map_eq_some_iff.mp closed
  cases same
  exact ⟨rfl, rfl⟩

theorem emitted_feedFrame [Double D] (frame : AudioFrame) (nowNs : UInt64) :
    (loop.feedFrame options frame nowNs).1.emitted = loop.emitted := by
  unfold feedFrame
  cases loop.sessions.feedOf frame nowNs <;> rfl

/-- A frame is served or refused, and publishes nothing by itself. -/
theorem metrics_feedFrame [Double D] (frame : AudioFrame) (nowNs : UInt64) :
    let metrics := (loop.feedFrame options frame nowNs).1.metrics
    metrics.chunks = loop.metrics.chunks ∧ metrics.eventDrops = loop.metrics.eventDrops ∧
      ((metrics.frames = loop.metrics.frames + 1 ∧
          metrics.framesRefused = loop.metrics.framesRefused) ∨
        (metrics.frames = loop.metrics.frames ∧
          metrics.framesRefused = loop.metrics.framesRefused + 1)) := by
  unfold feedFrame
  cases loop.sessions.feedOf frame nowNs with
  | none =>
      dsimp only
      unfold HotPathMetrics.observeTransport
      split <;> exact ⟨rfl, rfl, .inr ⟨rfl, rfl⟩⟩
  | some feed =>
      dsimp only
      unfold Feed.observed HotPathMetrics.observeArrival HotPathMetrics.observeTransport
      dsimp only
      cases feed.closes with
      | none =>
          dsimp only
          split <;> exact ⟨rfl, rfl, .inl ⟨rfl, rfl⟩⟩
      | some event =>
          dsimp only
          unfold HotPathMetrics.observeEndpoint
          split <;> split <;> exact ⟨rfl, rfl, .inl ⟨rfl, rfl⟩⟩

end

end HotLoop

/-- What follows once the pending events are published. -/
inductive Afterwards where
  | test
  | pop (loopNs : UInt64)
  | finish (endNs : UInt64)
  deriving DecidableEq, Repr

/-- Where `hot_loop` is. -/
inductive HotPc where
  | test
  | emitting (pending : List ChunkEvent) (next : Afterwards)
  | pushing (event : ChunkEvent) (pending : List ChunkEvent) (next : Afterwards)
  | popping (loopNs : UInt64)
  | returned (endNs : UInt64)
  deriving DecidableEq, Repr

/-- What a step reads besides the rings: whether the loop ends here, and the clock. -/
structure HotInput where
  stop : Bool
  nowNs : UInt64
  deriving DecidableEq, Repr

structure HotThread (D : Type) where
  pc : HotPc := .test
  loop : HotLoop D
  /-- The iterations completed. -/
  ticks : List Tick := []
  /-- For each event pushed, whether the ring refused it. -/
  refused : List Bool := []

/-- The rings and the thread between them. -/
structure HotPath (D : Type) (frameCapacity eventCapacity : Capacity) where
  frames : SpscState AudioFrame frameCapacity
  events : SpscState ChunkEvent eventCapacity
  hot : HotThread D

namespace HotPath

variable {D : Type} {frameCapacity eventCapacity : Capacity}

def goOn (path : HotPath D frameCapacity eventCapacity) (next : Afterwards) :
    HotPath D frameCapacity eventCapacity :=
  match next with
  | .test => { path with hot := { path.hot with pc := .test } }
  | .pop loopNs => { path with hot := { path.hot with pc := .popping loopNs } }
  | .finish endNs =>
      { path with hot := { path.hot with pc := .returned endNs, loop := path.hot.loop.reported } }

/-- Go on with the outcome of private work; nothing moves if it does not return. -/
def settle (path : HotPath D frameCapacity eventCapacity) (next : Afterwards) :
    Option (HotLoop D × List ChunkEvent) → HotPath D frameCapacity eventCapacity
  | none => path
  | some (loop, tails) =>
      { path with hot := { path.hot with pc := .emitting tails next, loop := loop } }

variable [Double D]

/-- One step of `hot_loop`. -/
def stepHot (options : LoopOptions) (path : HotPath D frameCapacity eventCapacity)
    (input : HotInput) : HotPath D frameCapacity eventCapacity :=
  match path.hot.pc with
  | .test =>
      if input.stop then
        path.settle (.finish input.nowNs) (path.hot.loop.close input.nowNs)
      else path.settle (.pop input.nowNs) (path.hot.loop.expire options input.nowNs)
  | .emitting [] next => path.goOn next
  | .emitting (event :: pending) next =>
      { path with
        events := path.events.stepProducer event
        hot := { path.hot with
          pc := .pushing event pending next
          loop := path.hot.loop.counted event } }
  | .pushing event pending next =>
      let events := path.events.stepProducer event
      match path.events.pushAnswer with
      | none => { path with events := events }
      | some result =>
          let refused := result == .full
          { path with
            events := events
            hot := { path.hot with
              pc := .emitting pending next
              loop := path.hot.loop.answered refused
              refused := path.hot.refused ++ [refused] } }
  | .popping loopNs =>
      let frames := path.frames.stepConsumer
      match path.frames.popAnswer with
      | none => { path with frames := frames }
      | some none =>
          { path with
            frames := frames
            hot := { path.hot with
              pc := .test
              ticks := path.hot.ticks ++ [⟨loopNs, none, input.nowNs⟩] } }
      | some (some frame) =>
          let (loop, tails) := path.hot.loop.feedFrame options frame input.nowNs
          { path with
            frames := frames
            hot := { path.hot with
              pc := .emitting tails .test
              loop := loop
              ticks := path.hot.ticks ++ [⟨loopNs, some frame, input.nowNs⟩] } }
  | .returned _ => path

end HotPath

/-- The smallest ring. -/
def Scenario.twoSlots : Capacity :=
  ⟨2, by decide, 1, rfl⟩

end VoiceHotPath
