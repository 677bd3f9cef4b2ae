import VoiceHotPath.Histogram.Backfill
import VoiceHotPath.Session.Histories

/-!
# The hot loop

One iteration sweeps idle sessions when a sweep is due, pops at most one frame
and feeds it to the session of its call.  The clock and the two rings are
inputs: what `now_ns` and `try_pop` return, and whether the event ring has room.
-/

namespace VoiceHotPath

/-- The counters of `HotPathMetrics`, and what its histograms have recorded, latest first. -/
structure HotPathMetrics where
  frames : UInt64 := 0
  framesRefused : UInt64 := 0
  seqGaps : UInt64 := 0
  chunks : UInt64 := 0
  eventDrops : UInt64 := 0
  sessionsPeak : Nat := 0
  sessionsOpened : UInt64 := 0
  sessionsRejected : UInt64 := 0
  sessionsCapacity : Nat := 0
  transport : List UInt64 := []
  jitter : List UInt64 := []
  endpointLag : List UInt64 := []
  deriving DecidableEq, Repr

/-- What `hot_loop` derives from its options. -/
structure LoopOptions where
  nominalNs : UInt64
  idleNs : UInt64
  deriving DecidableEq, Repr

structure HotLoop (D : Type) where
  sessions : SessionTable D
  nextSweepNs : UInt64
  metrics : HotPathMetrics := {}
  /-- The events passed to `emit` so far. -/
  emitted : List ChunkEvent := []
  deriving DecidableEq, Repr

/-- What one iteration reads from outside. -/
structure Tick where
  loopNs : UInt64
  popped : Option AudioFrame
  dequeueNs : UInt64
  deriving DecidableEq, Repr

def sweepIntervalNs : UInt64 := 250000000

/-- How far the time between two readings is from the nominal cadence. -/
def offCadence (nominalNs earlierNs laterNs : UInt64) : UInt64 :=
  let delta := laterNs - earlierNs
  if nominalNs < delta then delta - nominalNs else nominalNs - delta

namespace Session

variable {D : Type}

/-- The bookkeeping of a frame before it is fed to the assembler. -/
def observe (frame : AudioFrame) (nowNs : UInt64) (session : Session D) : Session D :=
  { session with
    prevFrameNs := nowNs
    lastSeq := frame.hdr.seq
    haveLastSeq := true
    frames := session.frames + 1 }

/-- A frame the gate accepted as loud is remembered. -/
def hear (frame : AudioFrame) (session : Session D) : Session D :=
  if session.assembler.gate.speaking && session.assembler.gate.quietFrames == 0 then
    { session with lastLoudProduceNs := frame.hdr.tProduceNs }
  else session

def served [Double D] (frame : AudioFrame) (nowNs : UInt64) (session : Session D) : Session D :=
  ((session.observe frame nowNs).fed frame nowNs).hear frame

theorem served_keeps [Double D] (frame : AudioFrame) (nowNs : UInt64) (session : Session D) :
    (session.served frame nowNs).id = session.id ∧
      (session.served frame nowNs).active = session.active ∧
      (session.served frame nowNs).assembler = (session.assembler.onFrame frame nowNs).1 := by
  unfold served hear
  split <;> exact ⟨rfl, rfl, rfl⟩

/-- The deviation of a frame from the nominal cadence of its session. -/
def deviation (nominalNs nowNs : UInt64) (session : Session D) : UInt64 :=
  offCadence nominalNs session.prevFrameNs nowNs

/-- The frames missing before a frame. -/
def missing (frame : AudioFrame) (session : Session D) : UInt64 :=
  if session.haveLastSeq && session.lastSeq + 1 < frame.hdr.seq then
    frame.hdr.seq - session.lastSeq - 1
  else 0

end Session

namespace HotPathMetrics

variable {D : Type}

/-- Transport is recorded for producers whose clock we share. -/
def observeTransport (metrics : HotPathMetrics) (frame : AudioFrame) (nowNs : UInt64) :
    HotPathMetrics :=
  if frame.hdr.tProduceNs ≠ 0 ∧ frame.hdr.tProduceNs ≤ nowNs then
    { metrics with transport := (nowNs - frame.hdr.tProduceNs) :: metrics.transport }
  else metrics

/-- The jitter of a frame is recorded with the samples that a stall has swallowed. -/
def observeArrival (metrics : HotPathMetrics) (nominalNs : UInt64) (frame : AudioFrame)
    (nowNs : UInt64) (session : Session D) : HotPathMetrics :=
  { metrics with
    jitter :=
      if session.prevFrameNs ≠ 0 then
        (Histogram.withMissed (session.deviation nominalNs nowNs) nominalNs).reverse ++
          metrics.jitter
      else metrics.jitter
    seqGaps := metrics.seqGaps + session.missing frame
    frames := metrics.frames + 1 }

def observeEndpoint (metrics : HotPathMetrics) (event : ChunkEvent) (session : Session D) :
    HotPathMetrics :=
  if session.lastLoudProduceNs ≠ 0 ∧ session.lastLoudProduceNs < event.tEndpointNs then
    { metrics with
      endpointLag := (event.tEndpointNs - session.lastLoudProduceNs) :: metrics.endpointLag }
  else metrics

end HotPathMetrics

namespace HotLoop

section

variable {D : Type} (full : Nat → Bool)

/-- Publish one event; `full` says which emissions find the event ring full. -/
def emit (loop : HotLoop D) (event : ChunkEvent) : HotLoop D :=
  { loop with
    emitted := loop.emitted ++ [event]
    metrics := { loop.metrics with
      chunks := loop.metrics.chunks + 1
      eventDrops :=
        if full loop.emitted.length then loop.metrics.eventDrops + 1
        else loop.metrics.eventDrops } }

def emitAll (loop : HotLoop D) (events : List ChunkEvent) : HotLoop D :=
  events.foldl (emit full) loop

/-- The idle sweep, when it is due; nothing if it does not return. -/
def sweep (options : LoopOptions) (loop : HotLoop D) (loopNs : UInt64) : Option (HotLoop D) :=
  if loop.nextSweepNs ≤ loopNs then
    (loop.sessions.expireIdle loopNs options.idleNs).map fun (sessions, tails) =>
      emitAll full
        { loop with sessions := sessions, nextSweepNs := loopNs + sweepIntervalNs } tails
  else some loop

/-- The end of the loop: every open chunk is flushed. -/
def finish (loop : HotLoop D) (nowNs : UInt64) : Option (HotLoop D) :=
  (loop.sessions.flushAll nowNs).map fun (sessions, tails) =>
    let flushed := emitAll full { loop with sessions := sessions } tails
    { flushed with
      metrics := { flushed.metrics with
        sessionsPeak := sessions.peakLive
        sessionsOpened := sessions.opened
        sessionsRejected := sessions.rejected
        sessionsCapacity := sessions.maxSessions } }

variable [Double D]

def start (maxSessions : Nat) (config : ChunkerConfig D) (startNs : UInt64) : HotLoop D :=
  { sessions := SessionTable.make maxSessions config
    nextSweepNs := startNs + sweepIntervalNs }

/-- One frame: find or open its session, feed it, publish what it closes. -/
def serve (options : LoopOptions) (loop : HotLoop D) (frame : AudioFrame) (nowNs : UInt64) :
    HotLoop D :=
  let metrics := loop.metrics.observeTransport frame nowNs
  let (sessions, found) := loop.sessions.acquire frame.hdr.sessionId nowNs
  match found.bind fun index => sessions.sessions[index]?.map fun session => (index, session) with
  | none =>
      { loop with
        sessions := sessions
        metrics := { metrics with framesRefused := metrics.framesRefused + 1 } }
  | some (index, session) =>
      let metrics := metrics.observeArrival options.nominalNs frame nowNs session
      let sessions := sessions.modifySession index (Session.served frame nowNs)
      match (session.assembler.onFrame frame nowNs).2 with
      | none => { loop with sessions := sessions, metrics := metrics }
      | some closed =>
          let event := { closed with sessionId := session.id }
          let metrics := metrics.observeEndpoint event (session.served frame nowNs)
          emit full { loop with sessions := sessions, metrics := metrics } event

def iterate (options : LoopOptions) (loop : HotLoop D) (tick : Tick) : Option (HotLoop D) :=
  (loop.sweep full options tick.loopNs).map fun swept =>
    match tick.popped with
    | none => swept
    | some frame => swept.serve full options frame tick.dequeueNs

def iterateAll (options : LoopOptions) : HotLoop D → List Tick → Option (HotLoop D)
  | loop, [] => some loop
  | loop, tick :: ticks =>
      (loop.iterate full options tick).bind fun next => iterateAll options next ticks

/-- `hot_loop` over the iterations it makes before it stops. -/
def hotLoop (options : LoopOptions) (maxSessions : Nat) (config : ChunkerConfig D)
    (startNs : UInt64) (ticks : List Tick) (endNs : UInt64) : Option (HotLoop D) :=
  (iterateAll full options (start maxSessions config startNs) ticks).bind fun loop =>
    loop.finish full endNs

end

/-! ## What one iteration can do -/

section

variable {D : Type} {full : Nat → Bool} {options : LoopOptions} {loop : HotLoop D}

theorem emitAll_keeps (full : Nat → Bool) (loop : HotLoop D) (events : List ChunkEvent) :
    (emitAll full loop events).sessions = loop.sessions ∧
      (emitAll full loop events).emitted = loop.emitted ++ events := by
  induction events generalizing loop with
  | nil => exact ⟨rfl, (List.append_nil _).symm⟩
  | cons event rest ih =>
      obtain ⟨sessions, emitted⟩ := ih (emit full loop event)
      refine ⟨sessions, emitted.trans ?_⟩
      rw [emit, List.append_assoc, List.singleton_append]

/-- Publishing events moves two counters. -/
theorem metrics_emitAll (full : Nat → Bool) (loop : HotLoop D) (events : List ChunkEvent) :
    ∃ chunks drops, (emitAll full loop events).metrics =
      { loop.metrics with chunks := chunks, eventDrops := drops } := by
  induction events generalizing loop with
  | nil => exact ⟨_, _, rfl⟩
  | cons event rest ih =>
      obtain ⟨chunks, drops, same⟩ := ih (emit full loop event)
      exact ⟨chunks, drops, same⟩

/-- The two outcomes of the idle sweep, when it returns. -/
theorem sweep_cases {loopNs : UInt64} {swept : HotLoop D}
    (returned : loop.sweep full options loopNs = some swept) :
    (loop.nextSweepNs ≤ loopNs ∧ ∃ sessions tails,
      loop.sessions.expireIdle loopNs options.idleNs = some (sessions, tails) ∧
      swept = emitAll full
        { loop with sessions := sessions, nextSweepNs := loopNs + sweepIntervalNs } tails) ∨
    (¬ loop.nextSweepNs ≤ loopNs ∧ swept = loop) := by
  unfold sweep at returned
  split at returned
  · rename_i due
    obtain ⟨⟨sessions, tails⟩, same, rfl⟩ := Option.map_eq_some_iff.mp returned
    exact .inl ⟨due, sessions, tails, same, rfl⟩
  · rename_i early
    cases returned
    exact .inr ⟨early, rfl⟩

/-- Sweeps move two counters. -/
theorem metrics_sweep {loopNs : UInt64} {swept : HotLoop D}
    (returned : loop.sweep full options loopNs = some swept) :
    ∃ chunks drops, swept.metrics =
      { loop.metrics with chunks := chunks, eventDrops := drops } := by
  rcases sweep_cases returned with ⟨-, sessions, tails, -, rfl⟩ | ⟨-, rfl⟩
  · exact metrics_emitAll full _ tails
  · exact ⟨_, _, rfl⟩

variable [Double D]

theorem iterateAll_snoc (full : Nat → Bool) (options : LoopOptions) (loop : HotLoop D)
    (ticks : List Tick) (tick : Tick) :
    iterateAll full options loop (ticks ++ [tick]) =
      (iterateAll full options loop ticks).bind fun next => next.iterate full options tick := by
  induction ticks generalizing loop with
  | nil => exact Option.bind_fun_some _
  | cons first rest ih =>
      rw [List.cons_append, iterateAll, iterateAll, Option.bind_assoc]
      apply congrArg
      funext next
      exact ih next

/-- An iteration sweeps, then serves the frame it pops. -/
theorem iterate_cases {tick : Tick} {next : HotLoop D}
    (stepped : loop.iterate full options tick = some next) :
    ∃ swept, loop.sweep full options tick.loopNs = some swept ∧
      ((tick.popped = none ∧ next = swept) ∨
        ∃ frame, tick.popped = some frame ∧
          next = swept.serve full options frame tick.dequeueNs) := by
  obtain ⟨swept, returned, rfl⟩ := Option.map_eq_some_iff.mp stepped
  refine ⟨swept, returned, ?_⟩
  cases tick.popped with
  | none => exact .inl ⟨rfl, rfl⟩
  | some frame => exact .inr ⟨frame, rfl, rfl⟩

end

end HotLoop

/-- One iteration that pops a loud frame of a call. -/
def Scenario.tick (nowNs : UInt64) (id : UInt32) (seq : UInt64) : Tick :=
  { loopNs := nowNs
    popped := some { toneFrame seq with hdr := { (toneFrame seq).hdr with sessionId := id } }
    dequeueNs := nowNs }

/-- One iteration that pops a quiet frame of a call. -/
def Scenario.quietTick (nowNs : UInt64) (id : UInt32) (seq : UInt64) : Tick :=
  { loopNs := nowNs
    popped := some { silentFrame seq with hdr := { (silentFrame seq).hdr with sessionId := id } }
    dequeueNs := nowNs }

end VoiceHotPath
