import VoiceHotPath.Consumer.IngestBuffer
import VoiceHotPath.Consumer.OpenChunks
import VoiceHotPath.Consumer.Sequential
import VoiceHotPath.Consumer.WireEncoding
import VoiceHotPath.Vad.Scenario

/-!
# Conservation of frames and chunks

The socket pipeline: the ingest thread fills the frame ring one connection after
the other, the hot loop empties it, and whoever reads the event ring empties
that.  Every frame handed over and every chunk opened is found again in exactly
one of the counters.
-/

namespace VoiceHotPath

structure UdsPipeline (D : Type) (frameCapacity eventCapacity : Capacity) where
  path : HotPath D frameCapacity eventCapacity
  pump : Pump := {}
  pc : IngestPc := .accepting

/-- One entry of a schedule; the last one lets the reader of the event ring move. -/
inductive UdsActor where
  | ingest (input : IngestInput)
  | hot (input : HotInput)
  | publisher

namespace UdsPipeline

section

variable {D : Type} {frameCapacity eventCapacity : Capacity}

/-- One step of `run` and `pump`; `read` returns no more than there is room for. -/
def stepIngest (state : UdsPipeline D frameCapacity eventCapacity) (input : IngestInput) :
    UdsPipeline D frameCapacity eventCapacity :=
  match state.pc with
  | .accepting =>
      if input.stop then { state with pc := .ended }
      else { state with pc := .reading, pump := state.pump.reconnected }
  | .reading =>
      let bytes := input.bytes.take state.pump.room
      if input.stop ∨ bytes = [] then { state with pc := .accepting }
      else { state with pc := .scanning, pump := state.pump.receive bytes }
  | .scanning =>
      match state.pump.turn with
      | .more => { state with pc := .reading, pump := state.pump.compact.guardDesync }
      | .stop => { state with pc := .accepting }
      | .item frame need =>
          { state with
            path := { state.path with
              frames := state.path.frames.stepProducer (frame.stamped input.nowNs) }
            pc := .pushing frame need input.nowNs }
  | .pushing frame need nowNs =>
      let path := { state.path with
        frames := state.path.frames.stepProducer (frame.stamped nowNs) }
      match state.path.frames.pushAnswer with
      | none => { state with path := path }
      | some result =>
          { state with
            path := path
            pc := .scanning
            pump := state.pump.hand ⟨fun _ => nowNs, fun _ => result == .full⟩ frame need }
  | .ended => state

variable [Double D]

def step (options : LoopOptions) (state : UdsPipeline D frameCapacity eventCapacity) :
    UdsActor → UdsPipeline D frameCapacity eventCapacity
  | .ingest input => state.stepIngest input
  | .hot input => { state with path := state.path.stepHot options input }
  | .publisher =>
      { state with path := { state.path with events := state.path.events.stepConsumer } }

def run (options : LoopOptions) (state : UdsPipeline D frameCapacity eventCapacity)
    (schedule : List UdsActor) : UdsPipeline D frameCapacity eventCapacity :=
  schedule.foldl (step options) state

/-- The rings are empty, and no thread has taken a step. -/
def initial (begin : HotLoop D) (frameStart eventStart : UInt64)
    (frameSlots : Vector AudioFrame frameCapacity.size)
    (eventSlots : Vector ChunkEvent eventCapacity.size) :
    UdsPipeline D frameCapacity eventCapacity where
  path := .initial begin frameStart eventStart frameSlots eventSlots

end

end UdsPipeline

/-! ## The pipeline without the read buffer -/

/-- A step of `try_push`, if a frame is being handed over. -/
def HotPath.offer {D : Type} {frameCapacity eventCapacity : Capacity}
    (path : HotPath D frameCapacity eventCapacity) :
    Option AudioFrame → HotPath D frameCapacity eventCapacity
  | none => path
  | some frame => { path with frames := path.frames.stepProducer frame }

namespace UdsPipeline

section

variable {D : Type} {frameCapacity eventCapacity : Capacity}
  {state : UdsPipeline D frameCapacity eventCapacity} {view : IngestView}

/-- Step lemma: a step of `run` and `pump` is that of the view. -/
theorem views_stepIngest (views : Views state.pump state.pc view) (input : IngestInput) :
    (state.stepIngest input).path =
        state.path.offer (view.step input state.path.frames.pushAnswer).2 ∧
      Views (state.stepIngest input).pump (state.stepIngest input).pc
        (view.step input state.path.frames.pushAnswer).1 := by
  obtain ⟨path, pump, pc⟩ := state
  obtain ⟨left, handed, ringFullDrops, pc'⟩ := view
  obtain ⟨located, holds, sameHanded, sameDrops⟩ := views
  dsimp only at located holds sameHanded sameDrops
  subst located sameHanded sameDrops
  unfold UdsPipeline.stepIngest IngestView.step
  cases pc' with
  | accepting =>
      dsimp only
      split
      · exact ⟨rfl, rfl, nofun, rfl, rfl⟩
      · exact ⟨rfl, rfl, fun _ => holds_reconnected pump, rfl, rfl⟩
  | reading =>
      have reads := holds rfl
      dsimp only
      rw [← reads.room_eq]
      split
      · exact ⟨rfl, rfl, nofun, rfl, rfl⟩
      · refine ⟨rfl, rfl, fun _ => ?_, ?_, ?_⟩
        · exact reads.receive (List.length_take_le _ _)
        · exact (Pump.receive_handed _ _).symm
        · exact (Pump.receive_ringFullDrops _ _).symm
  | scanning =>
      have scans := holds rfl
      dsimp only
      rw [scans.turn]
      cases verdict : nextFrame left with
      | more =>
          obtain ⟨handed, drops⟩ := pump.counts_carry
          exact ⟨rfl, rfl, fun _ => scans.carry verdict, handed.symm, drops.symm⟩
      | stop => exact ⟨rfl, rfl, nofun, rfl, rfl⟩
      | item frame need => exact ⟨rfl, rfl, fun _ => ⟨scans.1, scans.2, verdict⟩, rfl, rfl⟩
  | pushing frame need nowNs =>
      have pushes := holds rfl
      dsimp only
      cases path.frames.pushAnswer with
      | none => exact ⟨rfl, rfl, fun _ => pushes, rfl, rfl⟩
      | some result => exact ⟨rfl, rfl, fun _ => pushes.hand _, rfl, rfl⟩
  | ended => exact ⟨rfl, rfl, nofun, rfl, rfl⟩

variable [Double D]

def stepView (options : LoopOptions)
    (state : HotPath D frameCapacity eventCapacity × IngestView) :
    UdsActor → HotPath D frameCapacity eventCapacity × IngestView
  | .ingest input =>
      let (view, offered) := state.2.step input state.1.frames.pushAnswer
      (state.1.offer offered, view)
  | .hot input => (state.1.stepHot options input, state.2)
  | .publisher => ({ state.1 with events := state.1.events.stepConsumer }, state.2)

/-- Run lemma: whatever the read buffer holds beyond, the schedule leads where the view says. -/
theorem run_eq_view (options : LoopOptions) (views : Views state.pump state.pc view)
    (schedule : List UdsActor) :
    (state.run options schedule).path =
        (schedule.foldl (stepView options) (state.path, view)).1 ∧
      Views (state.run options schedule).pump (state.run options schedule).pc
        (schedule.foldl (stepView options) (state.path, view)).2 := by
  induction schedule generalizing state view with
  | nil => exact ⟨rfl, views⟩
  | cons actor rest ih =>
      change ((state.step options actor).run options rest).path = _ ∧ _
      cases actor with
      | ingest input =>
          obtain ⟨path, next⟩ := views_stepIngest views input
          have later := ih next
          rw [path] at later
          exact later
      | hot input => exact @ih { state with path := state.path.stepHot options input } view views
      | publisher =>
          exact @ih { state with
            path := { state.path with events := state.path.events.stepConsumer } } view views

end

end UdsPipeline

namespace HotPath

variable {D : Type} {frameCapacity eventCapacity : Capacity}
  {path next : HotPath D frameCapacity eventCapacity}

/-- What the counters of the hot loop count. -/
structure Tallied (path : HotPath D frameCapacity eventCapacity) : Prop where
  popped : ∃ served refused : Nat, served + refused = path.frames.popped.length ∧
    path.hot.loop.metrics.frames = UInt64.ofNat served ∧
    path.hot.loop.metrics.framesRefused = UInt64.ofNat refused
  chunks : path.hot.loop.metrics.chunks = UInt64.ofNat path.hot.loop.emitted.length
  drops : path.hot.loop.metrics.eventDrops = UInt64.ofNat (path.hot.refused.count true)

/-- The tally concerns the thread and the frames it has popped. -/
theorem Tallied.congr (tallied : Tallied path) (hot : next.hot = path.hot)
    (popped : next.frames.popped = path.frames.popped) : Tallied next := by
  refine ⟨?_, ?_, ?_⟩
  · rw [hot, popped]
    exact tallied.popped
  · rw [hot]
    exact tallied.chunks
  · rw [hot]
    exact tallied.drops

theorem ofNat_succ (n : Nat) : UInt64.ofNat (n + 1) = UInt64.ofNat n + 1 :=
  UInt64.ofNat_add n 1

/-- Step lemma: `hot_loop` counts what it does. -/
theorem Tallied.hotStep [Double D] {options : LoopOptions} (tallied : Tallied path)
    (step : HotStep options path next) : Tallied next := by
  obtain ⟨served, refused, total, frames, framesRefused⟩ := tallied.popped
  cases step with
  | stay => exact tallied
  | sweep loopNs loop tails pc expired =>
      obtain ⟨emitted, metrics⟩ := HotLoop.emitted_expire expired
      refine ⟨⟨served, refused, total, ?_, ?_⟩, ?_, ?_⟩
      · exact metrics ▸ frames
      · exact metrics ▸ framesRefused
      · change loop.metrics.chunks = UInt64.ofNat loop.emitted.length
        rw [emitted, metrics]
        exact tallied.chunks
      · exact metrics ▸ tallied.drops
  | flush endNs loop tails pc closed =>
      obtain ⟨emitted, metrics⟩ := HotLoop.emitted_close closed
      refine ⟨⟨served, refused, total, ?_, ?_⟩, ?_, ?_⟩
      · exact metrics ▸ frames
      · exact metrics ▸ framesRefused
      · change loop.metrics.chunks = UInt64.ofNat loop.emitted.length
        rw [emitted, metrics]
        exact tallied.chunks
      · exact metrics ▸ tallied.drops
  | goOn after pc => cases after <;> exact ⟨tallied.popped, tallied.chunks, tallied.drops⟩
  | call event pending after pc =>
      refine ⟨tallied.popped, ?_, tallied.drops⟩
      change path.hot.loop.metrics.chunks + 1 =
        UInt64.ofNat (path.hot.loop.emitted ++ [event]).length
      rw [List.length_append, List.length_singleton, ofNat_succ, tallied.chunks]
  | push event pending after pc running =>
      exact ⟨tallied.popped, tallied.chunks, tallied.drops⟩
  | answer event pending after result pc answered =>
      refine ⟨tallied.popped, tallied.chunks, ?_⟩
      change (if (result == .full) = true then path.hot.loop.metrics.eventDrops + 1
        else path.hot.loop.metrics.eventDrops) =
          UInt64.ofNat ((path.hot.refused ++ [result == .full]).count true)
      rw [List.count_append]
      cases result with
      | ok => exact tallied.drops
      | full => exact (congrArg (· + 1) tallied.drops).trans (ofNat_succ _).symm
  | pop loopNs pc running =>
      have unchanged := path.frames.popped_stepConsumer
      rw [running, Option.join_none, Option.toList_none, List.append_nil] at unchanged
      exact ⟨⟨served, refused, by rw [unchanged]; exact total, frames, framesRefused⟩,
        tallied.chunks, tallied.drops⟩
  | miss loopNs nowNs pc empty =>
      have unchanged := path.frames.popped_stepConsumer
      rw [empty, Option.join_some, Option.toList_none, List.append_nil] at unchanged
      exact ⟨⟨served, refused, by rw [unchanged]; exact total, frames, framesRefused⟩,
        tallied.chunks, tallied.drops⟩
  | serve loopNs nowNs frame pc popped =>
      have grown := path.frames.popped_stepConsumer
      rw [popped, Option.join_some, Option.toList_some] at grown
      have length : path.frames.stepConsumer.popped.length = served + refused + 1 := by
        rw [grown, List.length_append, total]
        rfl
      have emitted := @HotLoop.emitted_feedFrame D options path.hot.loop _ frame nowNs
      obtain ⟨chunks, drops, counted⟩ :=
        @HotLoop.metrics_feedFrame D options path.hot.loop _ frame nowNs
      refine ⟨?_, ?_, drops.trans tallied.drops⟩
      · rcases counted with ⟨more, same⟩ | ⟨same, more⟩
        · refine ⟨served + 1, refused, by rw [length]; omega, ?_, same.trans framesRefused⟩
          rw [ofNat_succ, ← frames]
          exact more
        · refine ⟨served, refused + 1, by rw [length]; omega, same.trans frames, ?_⟩
          rw [ofNat_succ, ← framesRefused]
          exact more
      · refine chunks.trans (tallied.chunks.trans ?_)
        exact congrArg (UInt64.ofNat ·.length) emitted.symm

/-- Of the events published, those the ring holds or has held and those it refused. -/
theorem length_accepted {events : List ChunkEvent} {refused : List Bool}
    (same : refused.length = events.length) :
    (accepted events refused).length + refused.count true = events.length := by
  induction refused generalizing events with
  | nil =>
      obtain rfl := List.length_eq_zero_iff.mp same.symm
      rfl
  | cons answer rest ih =>
      cases events with
      | nil => cases same
      | cons event events =>
          have later := ih (Nat.succ.inj same)
          cases answer with
          | true =>
              rw [List.count_cons_self, List.length_cons, ← later]
              rfl
          | false =>
              rw [List.length_cons, ← later, List.count_cons_of_ne (by decide)]
              exact Nat.succ_add _ _

end HotPath

namespace UdsPipeline

variable {D : Type} [Double D] {frameCapacity eventCapacity : Capacity}
  {options : LoopOptions} {begin : HotLoop D} {frameStart eventStart : UInt64}
  {state : UdsPipeline D frameCapacity eventCapacity}

/-- What holds in every state of every schedule. -/
structure Accounted (options : LoopOptions) (begin : HotLoop D) (frameStart eventStart : UInt64)
    (state : UdsPipeline D frameCapacity eventCapacity) : Prop where
  sequential : state.path.Sequential options begin frameStart eventStart
  tallied : state.path.Tallied
  offering : state.path.frames.producer.offered = state.pc.offering
  handed : ∃ full : Nat, state.pump.handed.length = state.path.frames.pushed.length + full ∧
    state.pump.ringFullDrops = UInt64.ofNat full

/-- Steps of `pump` that hand over nothing. -/
theorem Accounted.idle (accounted : Accounted options begin frameStart eventStart state)
    {pump : Pump} {pc : IngestPc} (handed : pump.handed = state.pump.handed)
    (drops : pump.ringFullDrops = state.pump.ringFullDrops)
    (before : state.pc.offering = none) (after : pc.offering = none) :
    Accounted options begin frameStart eventStart { state with pump := pump, pc := pc } := by
  refine ⟨accounted.sequential, accounted.tallied, ?_, ?_⟩
  · rw [accounted.offering, before, after]
  · rw [handed, drops]
    exact accounted.handed

theorem Accounted.stepIngest (accounted : Accounted options begin frameStart eventStart state)
    (input : IngestInput) :
    Accounted options begin frameStart eventStart (state.stepIngest input) := by
  have offering := accounted.offering
  have keeps := fun frame => (state.path.frames.stepProducer_keeps frame).1
  unfold UdsPipeline.stepIngest
  cases pc : state.pc with
  | accepting =>
      dsimp only
      split <;> exact accounted.idle rfl rfl (by rw [pc]; rfl) rfl
  | reading =>
      dsimp only
      split
      · exact accounted.idle rfl rfl (by rw [pc]; rfl) rfl
      · exact accounted.idle (Pump.receive_handed _ _) (Pump.receive_ringFullDrops _ _)
          (by rw [pc]; rfl) rfl
  | scanning =>
      rw [pc] at offering
      cases state.pump.turn with
      | more =>
          obtain ⟨handed, drops⟩ := state.pump.counts_carry
          exact accounted.idle handed drops (by rw [pc]; rfl) rfl
      | stop => exact accounted.idle rfl rfl (by rw [pc]; rfl) rfl
      | item frame need =>
          obtain ⟨pushed, offered⟩ :=
            SpscState.stepProducer_begin offering (frame.stamped input.nowNs)
          refine ⟨accounted.sequential.frameProducer _, ?_, offered, ?_⟩
          · exact accounted.tallied.congr rfl (keeps _)
          · rw [pushed]
            exact accounted.handed
  | pushing frame need nowNs =>
      rw [pc] at offering
      obtain ⟨full, handed, drops⟩ := accounted.handed
      have tallied : { state.path with
          frames := state.path.frames.stepProducer (frame.stamped nowNs) }.Tallied :=
        accounted.tallied.congr rfl (keeps _)
      have sequential := accounted.sequential.frameProducer (frame.stamped nowNs)
      cases answer : state.path.frames.pushAnswer with
      | none =>
          obtain ⟨pushed, offered⟩ :=
            SpscState.stepProducer_goOn offering answer (frame.stamped nowNs)
          refine ⟨sequential, tallied, offered, ?_⟩
          rw [pushed]
          exact accounted.handed
      | some result =>
          obtain ⟨pushed, idle⟩ :=
            SpscState.stepProducer_return offering answer (frame.stamped nowNs)
          cases result with
          | ok =>
              refine ⟨sequential, tallied, congrArg Producer.offered idle, full, ?_, drops⟩
              change (state.pump.handed ++ _).length = _
              rw [pushed, List.length_append, List.length_append, handed]
              exact Nat.add_right_comm _ _ _
          | full =>
              refine ⟨sequential, tallied, congrArg Producer.offered idle, full + 1, ?_, ?_⟩
              · change (state.pump.handed ++ _).length = _
                rw [pushed, List.length_append, List.length_append, handed]
                rfl
              · exact (congrArg (· + 1) drops).trans (HotPath.ofNat_succ full).symm
  | ended => exact accounted

/-- Step lemma: every entry of a schedule keeps the accounts. -/
theorem Accounted.step (accounted : Accounted options begin frameStart eventStart state)
    (actor : UdsActor) :
    Accounted options begin frameStart eventStart (state.step options actor) := by
  cases actor with
  | ingest input => exact accounted.stepIngest input
  | hot input =>
      have step := state.path.hotStep options input
      obtain ⟨pushed, producer⟩ := step.frames_keeps
      refine ⟨accounted.sequential.hotStep step, accounted.tallied.hotStep step, ?_, ?_⟩
      · exact (congrArg Producer.offered producer).trans accounted.offering
      · change ∃ full, state.pump.handed.length =
          (state.path.stepHot options input).frames.pushed.length + full ∧ _
        rw [pushed]
        exact accounted.handed
  | publisher =>
      exact ⟨accounted.sequential.eventConsumer, accounted.tallied.congr rfl rfl,
        accounted.offering, accounted.handed⟩

/-- Run lemma: every schedule keeps the accounts. -/
theorem Accounted.run (accounted : Accounted options begin frameStart eventStart state)
    (schedule : List UdsActor) :
    Accounted options begin frameStart eventStart (state.run options schedule) := by
  induction schedule generalizing state with
  | nil => exact accounted
  | cons actor rest ih => exact ih (accounted.step actor)

theorem accounted_initial (options : LoopOptions) (maxSessions : Nat) (config : ChunkerConfig D)
    (startNs frameStart eventStart : UInt64) (frameSlots : Vector AudioFrame frameCapacity.size)
    (eventSlots : Vector ChunkEvent eventCapacity.size) :
    Accounted options (.start maxSessions config startNs) frameStart eventStart
      (initial (.start maxSessions config startNs) frameStart eventStart frameSlots
        eventSlots) where
  sequential :=
    HotPath.sequential_initial options rfl frameStart eventStart frameSlots eventSlots
  tallied := ⟨⟨0, 0, rfl, rfl, rfl⟩, rfl, rfl⟩
  offering := rfl
  handed := ⟨0, rfl, rfl⟩

/--
In every schedule, whenever `pump` is between frames, the frames it has handed
over are those served, those refused, those the full ring has dropped and those
in the ring.  When the hot loop has returned, the chunks counted are those ever
opened, each emitted once and none open, and they are the events accepted by the
event ring and those it has dropped.
-/
theorem frames_and_chunks_conserved (options : LoopOptions) (maxSessions : Nat)
    (config : ChunkerConfig D) (startNs frameStart eventStart : UInt64)
    (frameSlots : Vector AudioFrame frameCapacity.size)
    (eventSlots : Vector ChunkEvent eventCapacity.size) (schedule : List UdsActor)
    {state : UdsPipeline D frameCapacity eventCapacity}
    (ran : (initial (.start maxSessions config startNs) frameStart eventStart frameSlots
      eventSlots).run options schedule = state) :
    let metrics := state.path.hot.loop.metrics
    let ring := state.path.frames.ring
    let opened := (HotLoop.start maxSessions config startNs).openedAll
      (fun n => state.path.hot.refused.getD n false) options state.path.hot.ticks
    (state.pc.offering = none →
      UInt64.ofNat state.pump.handed.length =
          metrics.frames + metrics.framesRefused + state.pump.ringFullDrops +
            (ring.head - ring.tail) ∧
        (state.pump.handed.length < 2 ^ 64 →
          state.pump.handed.length =
            metrics.frames.toNat + metrics.framesRefused.toNat +
              state.pump.ringFullDrops.toNat + (ring.head - ring.tail).toNat)) ∧
    ∀ endNs, state.path.hot.pc = .returned endNs →
      metrics.chunks = UInt64.ofNat opened.length ∧
        (state.path.hot.loop.emitted.map ChunkEvent.identity).Perm opened ∧
        (∀ session ∈ state.path.hot.loop.sessions.sessions, session.assembler.active = false) ∧
        metrics.chunks =
          UInt64.ofNat state.path.events.pushed.length + metrics.eventDrops := by
  intro metrics ring opened
  have accounted : Accounted options (.start maxSessions config startNs) frameStart eventStart
      state := by
    rw [← ran]
    exact (accounted_initial options maxSessions config startNs frameStart eventStart frameSlots
      eventSlots).run schedule
  obtain ⟨served, refused, total, frames, framesRefused⟩ := accounted.tallied.popped
  obtain ⟨full, handed, drops⟩ := accounted.handed
  have size := accounted.sequential.frames.toNat_size
  have order := accounted.sequential.frames.popped_prefix.length_le
  constructor
  · intro _
    have held : ring.head - ring.tail =
        UInt64.ofNat (state.path.frames.pushed.length - state.path.frames.popped.length) := by
      rw [← size]
      exact (UInt64.ofNat_toNat).symm
    have sum : state.pump.handed.length = served + refused + full +
        (state.path.frames.pushed.length - state.path.frames.popped.length) := by omega
    constructor
    · rw [held, sum, UInt64.ofNat_add, UInt64.ofNat_add, UInt64.ofNat_add, ← frames,
        ← framesRefused, ← drops]
    · intro small
      have exact : ∀ {counter : UInt64} {n : Nat}, counter = UInt64.ofNat n →
          n ≤ state.pump.handed.length → counter.toNat = n := by
        rintro _ n rfl below
        exact UInt64.toNat_ofNat_of_lt' (Nat.lt_of_le_of_lt below small)
      rw [exact frames (by omega), exact framesRefused (by omega), exact drops (by omega), size]
      exact sum
  · intro endNs returned
    have answered := accounted.sequential.answered
    rw [returned] at answered
    have loop := accounted.sequential.hotLoop returned (HotPath.heeds_getD _)
    obtain ⟨once, closed⟩ := HotLoop.emitted_opened loop
    have length : state.path.hot.loop.emitted.length = opened.length := by
      rw [← once.length_eq, List.length_map]
    have split := HotPath.length_accepted answered
    refine ⟨?_, once, closed, ?_⟩
    · rw [← length]
      exact accounted.tallied.chunks
    · rw [accounted.sequential.pushed]
      refine accounted.tallied.chunks.trans ?_
      rw [← split, UInt64.ofNat_add]
      exact congrArg (_ + ·) accounted.tallied.drops.symm

end UdsPipeline

namespace Scenario

/-- Tones of one caller, as `vhp_producer` writes them. -/
def toneBytes (id : UInt32) (seqs : List UInt64) : List UInt8 :=
  seqs.flatMap fun seq =>
    let frame := toneFrame seq
    toLittleEndian kWireLengthBytes frame.hdr.byteLen.toNat ++
      { frame.hdr with sessionId := id }.toBytes ++ frame.audio

/-- A caller overruns a ring of two slots by a frame before the hot loop runs, and a
second one calls while the first holds the only session. -/
def busySchedule : List UdsActor :=
  [.ingest ⟨false, [], 0⟩, .ingest ⟨false, toneBytes 7 [0, 1, 2], 0⟩] ++
    List.replicate 17 (.ingest ⟨false, [], 5⟩) ++ List.replicate 28 (.hot ⟨false, 10000000⟩) ++
    [.ingest ⟨false, toneBytes 9 [0], 0⟩] ++ List.replicate 9 (.ingest ⟨false, [], 5⟩) ++
    List.replicate 20 (.hot ⟨false, 20000000⟩) ++ List.replicate 13 (.hot ⟨true, 30000000⟩)

/-- Both rings have two slots, and there is one session. -/
def smallPipeline : UdsPipeline ℚ twoSlots twoSlots :=
  .initial (.start 1 shortConfig 0) 0 0 (Vector.replicate _ {}) (Vector.replicate _ {})

end Scenario

open Scenario in
/-- Of four frames handed over two are served, one is refused and one finds the ring
full; the chunk of the two is published when the hot loop returns. -/
theorem UdsPipeline.frames_and_chunks_conserved_busy :
    ∃ state : UdsPipeline ℚ twoSlots twoSlots,
      smallPipeline.run ⟨20000000, 100000000⟩ busySchedule = state ∧
      let metrics := state.path.hot.loop.metrics
      let ring := state.path.frames.ring
      (state.pump.handed.length = 4 ∧ metrics.frames = 2 ∧ metrics.framesRefused = 1 ∧
        state.pump.ringFullDrops = 1) ∧
      (metrics.chunks = 1 ∧ state.path.events.pushed.length = 1) ∧
      state.pc.offering = none ∧
      state.pump.handed.length =
        metrics.frames.toNat + metrics.framesRefused.toNat +
          state.pump.ringFullDrops.toNat + (ring.head - ring.tail).toNat ∧
      ∃ endNs, state.path.hot.pc = .returned endNs ∧
        metrics.chunks =
          UInt64.ofNat state.path.events.pushed.length + metrics.eventDrops := by
  refine ⟨_, rfl, ?_⟩
  generalize ran : smallPipeline.run _ _ = state
  -- Only the view is evaluated, since the read buffer has 65536 bytes.
  obtain ⟨path, views⟩ : state.path = _ ∧ Views state.pump state.pc _ :=
    ran ▸ smallPipeline.run_eq_view _ views_initial _
  have counts : (state.pump.handed.length = 4 ∧ state.path.hot.loop.metrics.frames = 2 ∧
      state.path.hot.loop.metrics.framesRefused = 1 ∧ state.pump.ringFullDrops = 1) ∧
      (state.path.hot.loop.metrics.chunks = 1 ∧ state.path.events.pushed.length = 1) ∧
      state.pc.offering = none ∧ state.path.hot.pc = .returned 30000000 := by
    rw [path, ← views.handed, ← views.drops, ← views.located]
    decide +kernel
  obtain ⟨frames, chunks, between, returned⟩ := counts
  obtain ⟨handed, published⟩ :=
    frames_and_chunks_conserved _ 1 shortConfig 0 0 0 _ _ _ ran
  obtain ⟨-, -, -, pushed⟩ := published _ returned
  have small : state.pump.handed.length < 2 ^ 64 := by
    rw [frames.1]
    decide
  exact ⟨frames, chunks, between, (handed between).2 small, _, returned, pushed⟩

end VoiceHotPath
