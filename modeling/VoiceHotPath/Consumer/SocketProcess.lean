import VoiceHotPath.Consumer.Conservation
import VoiceHotPath.Consumer.Publisher
import VoiceHotPath.Ring.Depth

/-!
# The consumer process on a socket

All threads of `vhp_consumer` together: the ingest thread serves one connection
after the other, the hot loop empties the frame ring, the publisher prints, and
`main` waits for the hot loop and then for the ingest thread before it lets the
publisher go.  What is printed is determined by the bytes the connections have
delivered, the clock, and which pushes have found a ring full.
-/

namespace VoiceHotPath

/-- What has gone into a bounded queue: the items whose push was not refused. -/
def kept {α : Type} (items : List α) (refused : List Bool) : List α :=
  ((items.zip refused).filter fun (_, refused) => !refused).map Prod.fst

theorem kept_snoc {α : Type} {items : List α} {refused : List Bool}
    (same : refused.length = items.length) (item : α) (answer : Bool) :
    kept (items ++ [item]) (refused ++ [answer]) =
      kept items refused ++ if answer then [] else [item] := by
  rw [kept, List.zip_append same.symm, List.filter_append, List.map_append, kept]
  cases answer <;> rfl

/-- Frames as they were handed over, each stamped by some clock reading if it came unstamped. -/
def Stamped (frames handed : List AudioFrame) : Prop :=
  List.Forall₂ (fun frame sent => ∃ now, sent = AudioFrame.stamped now frame) frames handed

/-- The frames handed over, connection after connection, each parsed by itself. -/
inductive Delivered : List (List UInt8) → List AudioFrame → Prop where
  | none : Delivered [] []
  | connection {streams : List (List UInt8)} {stream : List UInt8}
      {handed frames sent : List AudioFrame} {rest : Option (List UInt8)}
      (earlier : Delivered streams handed) (wire : Wire stream frames rest)
      (stamped : Stamped frames sent) : Delivered (streams ++ [stream]) (handed ++ sent)

/-- The process, with the streams of the connections and the answers of the frame ring. -/
structure SocketProcess (D : Type) (frameCapacity eventCapacity : Capacity) where
  publishing : Publishing D frameCapacity eventCapacity
  pump : Pump := {}
  ingest : IngestPc := .accepting
  /-- The bytes read on the connections that have ended. -/
  ended : List (List UInt8) := []
  /-- The bytes read on the connection being served. -/
  current : List UInt8 := []
  /-- For each frame handed over, whether the ring refused it. -/
  refused : List Bool := []

/-- One entry of a schedule. -/
inductive SocketActor where
  | ingest (input : IngestInput)
  | hot (input : HotInput)
  | main
  | publisher (producedFirst : Bool)

/-- A step of `try_push` on the frame ring. -/
def Publishing.pushFrame {D : Type} {frameCapacity eventCapacity : Capacity}
    (state : Publishing D frameCapacity eventCapacity) (frame : AudioFrame) :
    Publishing D frameCapacity eventCapacity :=
  { state with path := { state.path with frames := state.path.frames.stepProducer frame } }

namespace SocketProcess

section

variable {D : Type} {frameCapacity eventCapacity : Capacity}

/-- The pipeline without `main` and the publisher. -/
def pipeline (state : SocketProcess D frameCapacity eventCapacity) :
    UdsPipeline D frameCapacity eventCapacity where
  path := state.publishing.path
  pump := state.pump
  pc := state.ingest

/-- What the ingest thread reads, hands over and gives up, beside the step it takes. -/
def record (state : SocketProcess D frameCapacity eventCapacity) (input : IngestInput)
    (next : IngestPc) : List (List UInt8) × List UInt8 × List Bool :=
  match state.ingest, next with
  | .accepting, .reading => (state.ended, [], state.refused)
  | .reading, .scanning =>
      (state.ended, state.current ++ input.bytes.take state.pump.room, state.refused)
  | .reading, .accepting => (state.ended ++ [state.current], state.current, state.refused)
  | .scanning, .accepting => (state.ended ++ [state.current], state.current, state.refused)
  | .pushing _ _ _, .scanning =>
      let answer := state.publishing.path.frames.pushAnswer == some .full
      (state.ended, state.current, state.refused ++ [answer])
  | _, _ => (state.ended, state.current, state.refused)

/-- One step of `run` and `pump`. -/
def stepIngest (state : SocketProcess D frameCapacity eventCapacity) (input : IngestInput) :
    SocketProcess D frameCapacity eventCapacity :=
  let next := state.pipeline.stepIngest input
  let recorded := state.record input next.pc
  { publishing := { state.publishing with path := next.path }
    pump := next.pump
    ingest := next.pc
    ended := recorded.1
    current := recorded.2.1
    refused := recorded.2.2 }

variable [Double D]

/-- `main` stops the ingest thread, and waits for it, before it stores `hot_done`. -/
def step (options : LoopOptions) (state : SocketProcess D frameCapacity eventCapacity) :
    SocketActor → SocketProcess D frameCapacity eventCapacity
  | .ingest input => state.stepIngest input
  | .hot input => { state with publishing := state.publishing.step options (.hot input) }
  | .main =>
      match state.ingest with
      | .ended => { state with publishing := state.publishing.step options .main }
      | _ => state
  | .publisher producedFirst =>
      { state with publishing := state.publishing.step options (.publisher producedFirst) }

def run (options : LoopOptions) (state : SocketProcess D frameCapacity eventCapacity)
    (schedule : List SocketActor) : SocketProcess D frameCapacity eventCapacity :=
  schedule.foldl (step options) state

/-- The rings are empty, and no thread has taken a step. -/
def initial (begin : HotLoop D) (frameStart eventStart : UInt64)
    (frameSlots : Vector AudioFrame frameCapacity.size)
    (eventSlots : Vector ChunkEvent eventCapacity.size) :
    SocketProcess D frameCapacity eventCapacity where
  publishing := .initial begin frameStart eventStart frameSlots eventSlots

end

/-! ## The connections -/

section

variable {D : Type} {frameCapacity eventCapacity : Capacity}
  {state : SocketProcess D frameCapacity eventCapacity}

/-- The connection being served: the frames taken off its stream have been handed over. -/
structure Serving (state : SocketProcess D frameCapacity eventCapacity)
    (frames : List AudioFrame) (left : List UInt8) : Prop where
  taken : Framing.Takes nextFrame state.current frames left
  holds : Holds state.ingest state.pump left
  handed : ∃ earlier sent, state.pump.handed = earlier ++ sent ∧
    Delivered state.ended earlier ∧ Stamped frames sent

/-- Between connections everything handed over was parsed off a connection that has ended. -/
def Receives (state : SocketProcess D frameCapacity eventCapacity) : Prop :=
  match state.ingest with
  | .accepting | .ended => Delivered state.ended state.pump.handed
  | _ => ∃ frames left, Serving state frames left

/-- What one step of `run` and `pump` can do. -/
inductive IngestStep (state : SocketProcess D frameCapacity eventCapacity) :
    SocketProcess D frameCapacity eventCapacity → Prop where
  | stay : IngestStep state state
  | stopped (pc : state.ingest = .accepting) : IngestStep state { state with ingest := .ended }
  | accepted (pc : state.ingest = .accepting) :
      IngestStep state
        { state with ingest := .reading, pump := state.pump.reconnected, current := [] }
  | hungUp (pc : state.ingest = .reading) :
      IngestStep state
        { state with ingest := .accepting, ended := state.ended ++ [state.current] }
  | read (bytes : List UInt8) (pc : state.ingest = .reading)
      (room : bytes.length ≤ state.pump.room) :
      IngestStep state
        { state with
          ingest := .scanning
          pump := state.pump.receive bytes
          current := state.current ++ bytes }
  | more (pc : state.ingest = .scanning) (verdict : state.pump.turn = .more) :
      IngestStep state
        { state with ingest := .reading, pump := state.pump.compact.guardDesync }
  | oversized (pc : state.ingest = .scanning) (verdict : state.pump.turn = .stop) :
      IngestStep state
        { state with ingest := .accepting, ended := state.ended ++ [state.current] }
  | call (frame : AudioFrame) (need : Nat) (nowNs : UInt64) (pc : state.ingest = .scanning)
      (verdict : state.pump.turn = .item frame need) :
      IngestStep state
        { state with
          publishing := state.publishing.pushFrame (frame.stamped nowNs)
          ingest := .pushing frame need nowNs }
  | push (frame : AudioFrame) (need : Nat) (nowNs : UInt64)
      (pc : state.ingest = .pushing frame need nowNs)
      (running : state.publishing.path.frames.pushAnswer = none) :
      IngestStep state
        { state with publishing := state.publishing.pushFrame (frame.stamped nowNs) }
  | answer (frame : AudioFrame) (need : Nat) (nowNs : UInt64) (result : PushResult)
      (pc : state.ingest = .pushing frame need nowNs)
      (answered : state.publishing.path.frames.pushAnswer = some result) :
      IngestStep state
        { state with
          publishing := state.publishing.pushFrame (frame.stamped nowNs)
          ingest := .scanning
          pump := state.pump.hand ⟨fun _ => nowNs, fun _ => result == .full⟩ frame need
          refused := state.refused ++ [result == .full] }

theorem ingestStep (state : SocketProcess D frameCapacity eventCapacity) (input : IngestInput) :
    IngestStep state (state.stepIngest input) := by
  obtain ⟨publishing, pump, ingest, ended, current, refused⟩ := state
  unfold stepIngest record pipeline UdsPipeline.stepIngest
  cases ingest with
  | accepting =>
      dsimp only
      split
      · exact .stopped rfl
      · exact .accepted rfl
  | reading =>
      dsimp only
      split
      · exact .hungUp rfl
      · exact .read _ rfl (List.length_take_le _ _)
  | scanning =>
      dsimp only
      cases verdict : pump.turn with
      | more => exact .more rfl verdict
      | stop => exact .oversized rfl verdict
      | item frame need => exact .call frame need input.nowNs rfl verdict
  | pushing frame need nowNs =>
      dsimp only
      cases answered : publishing.path.frames.pushAnswer with
      | none => exact .push frame need nowNs rfl answered
      | some result => exact .answer frame need nowNs result rfl answered
  | ended => exact .stay

variable {next : SocketProcess D frameCapacity eventCapacity} {frames : List AudioFrame}
  {left : List UInt8}

theorem Serving.connected (serving : Serving state frames left) :
    state.ingest.connected = true := by
  have holds := serving.holds
  cases pc : state.ingest with
  | accepting | ended =>
      rw [pc] at holds
      exact holds.elim
  | _ => rfl

theorem Serving.holding (serving : Serving state frames left) {ingest : IngestPc}
    (pc : state.ingest = ingest) : Holds ingest state.pump left :=
  pc ▸ serving.holds

theorem Receives.idle (receives : Receives state) (pc : state.ingest = .accepting) :
    Delivered state.ended state.pump.handed := by
  unfold Receives at receives
  rwa [pc] at receives

theorem Receives.busy (receives : Receives state) (connected : state.ingest.connected = true) :
    ∃ frames left, Serving state frames left := by
  unfold Receives at receives
  cases pc : state.ingest with
  | accepting | ended =>
      rw [pc] at connected
      cases connected
  | _ =>
      rw [pc] at receives
      exact receives

theorem Serving.receives (serving : Serving state frames left) : Receives state := by
  have connected := serving.connected
  unfold Receives
  cases pc : state.ingest with
  | accepting | ended =>
      rw [pc] at connected
      cases connected
  | _ => exact ⟨frames, left, serving⟩

theorem Receives.withPublishing (receives : Receives state)
    (publishing : Publishing D frameCapacity eventCapacity) :
    Receives { state with publishing := publishing } := by
  unfold Receives at receives ⊢
  cases pc : state.ingest with
  | accepting | ended =>
      rw [pc] at receives
      exact receives
  | _ =>
      rw [pc] at receives
      obtain ⟨frames, left, serving⟩ := receives
      exact ⟨frames, left, serving.taken, pc ▸ serving.holds, serving.handed⟩

/-- A connection that ends has delivered what its stream parses to. -/
theorem Serving.ends (serving : Serving state frames left) {rest : Option (List UInt8)}
    (parse : Framing.Parse nextFrame left [] rest) :
    Delivered (state.ended ++ [state.current]) state.pump.handed := by
  obtain ⟨earlier, sent, handed, delivered, stamped⟩ := serving.handed
  have whole := serving.taken.parse parse
  rw [List.append_nil] at whole
  rw [handed]
  exact .connection delivered (.of_parse whole) stamped

/-- A connection begins with nothing read. -/
theorem Receives.accept (receives : Receives state) (pc : state.ingest = .accepting) :
    Serving { state with
      ingest := .reading, pump := state.pump.reconnected, current := [] } [] [] where
  taken := .start
  holds := holds_reconnected state.pump
  handed := ⟨state.pump.handed, [], (List.append_nil _).symm, receives.idle pc, .nil⟩

theorem Serving.hangUp (serving : Serving state frames left) (pc : state.ingest = .reading) :
    Delivered (state.ended ++ [state.current]) state.pump.handed := by
  obtain ⟨-, -, verdict⟩ := serving.holding pc
  exact serving.ends (.more verdict)

theorem Serving.read (serving : Serving state frames left) (pc : state.ingest = .reading)
    {bytes : List UInt8} (room : bytes.length ≤ state.pump.room) :
    Serving { state with
      ingest := .scanning
      pump := state.pump.receive bytes
      current := state.current ++ bytes } frames (left ++ bytes) where
  taken := serving.taken.append nextFrame_stable bytes
  holds := (serving.holding pc).receive room
  handed := by
    rw [Pump.receive_handed]
    exact serving.handed

theorem Serving.carry (serving : Serving state frames left) (pc : state.ingest = .scanning)
    (verdict : state.pump.turn = .more) :
    Serving { state with
      ingest := .reading, pump := state.pump.compact.guardDesync } frames left := by
  have holds := serving.holding pc
  rw [holds.turn] at verdict
  refine ⟨serving.taken, holds.carry verdict, ?_⟩
  rw [state.pump.counts_carry.1]
  exact serving.handed

/-- `pump` gives up a connection whose next frame is longer than a slot. -/
theorem Serving.giveUp (serving : Serving state frames left) (pc : state.ingest = .scanning)
    (verdict : state.pump.turn = .stop) :
    Delivered (state.ended ++ [state.current]) state.pump.handed := by
  rw [(serving.holding pc).turn] at verdict
  exact serving.ends (.stop verdict)

theorem Serving.offer (serving : Serving state frames left) (pc : state.ingest = .scanning)
    {frame : AudioFrame} {need : Nat} (verdict : state.pump.turn = .item frame need)
    (nowNs : UInt64) :
    Serving { state with
      publishing := state.publishing.pushFrame (frame.stamped nowNs)
      ingest := .pushing frame need nowNs } frames left := by
  have holds := serving.holding pc
  rw [holds.turn] at verdict
  exact ⟨serving.taken, ⟨holds.1, holds.2, verdict⟩, serving.handed⟩

/-- Whatever the ring answers, the frame has been handed over. -/
theorem Serving.hand (serving : Serving state frames left) {frame : AudioFrame} {need : Nat}
    {nowNs : UInt64} (pc : state.ingest = .pushing frame need nowNs) (result : PushResult) :
    Serving { state with
      publishing := state.publishing.pushFrame (frame.stamped nowNs)
      ingest := .scanning
      pump := state.pump.hand ⟨fun _ => nowNs, fun _ => result == .full⟩ frame need
      refused := state.refused ++ [result == .full] } (frames ++ [frame]) (left.drop need) := by
  have holds := serving.holding pc
  obtain ⟨earlier, sent, handed, delivered, stamped⟩ := serving.handed
  refine ⟨serving.taken.item holds.2.2, holds.hand _, earlier, sent ++ [frame.stamped nowNs], ?_,
    delivered, ?_⟩
  · change state.pump.handed ++ _ = _
    rw [handed, List.append_assoc]
  · exact List.rel_append stamped (.cons ⟨nowNs, rfl⟩ .nil)

/-- Step lemma: the ingest thread hands over what the streams parse to. -/
theorem Receives.ingestStep (receives : Receives state) (step : IngestStep state next) :
    Receives next := by
  have serving : ∀ {ingest}, state.ingest = ingest → ingest.connected = true →
      ∃ frames left, Serving state frames left := by
    rintro _ rfl connected
    exact receives.busy connected
  cases step with
  | stay => exact receives
  | stopped pc => exact receives.idle pc
  | accepted pc => exact (receives.accept pc).receives
  | hungUp pc =>
      obtain ⟨frames, left, serving⟩ := serving pc rfl
      exact serving.hangUp pc
  | read bytes pc room =>
      obtain ⟨frames, left, serving⟩ := serving pc rfl
      exact (serving.read pc room).receives
  | more pc verdict =>
      obtain ⟨frames, left, serving⟩ := serving pc rfl
      exact (serving.carry pc verdict).receives
  | oversized pc verdict =>
      obtain ⟨frames, left, serving⟩ := serving pc rfl
      exact serving.giveUp pc verdict
  | call frame need nowNs pc verdict =>
      obtain ⟨frames, left, serving⟩ := serving pc rfl
      exact (serving.offer pc verdict nowNs).receives
  | push frame need nowNs pc running =>
      obtain ⟨frames, left, serving⟩ := serving pc rfl
      have offering : Serving { state with
          publishing := state.publishing.pushFrame (frame.stamped nowNs) } frames left :=
        ⟨serving.taken, serving.holds, serving.handed⟩
      exact offering.receives
  | answer frame need nowNs result pc answered =>
      obtain ⟨frames, left, serving⟩ := serving pc rfl
      exact (serving.hand pc result).receives

end

/-! ## All threads together -/

section

variable {D : Type} [Double D] {frameCapacity eventCapacity : Capacity} {options : LoopOptions}
  {begin : HotLoop D} {frameStart eventStart : UInt64}
  {state next : SocketProcess D frameCapacity eventCapacity}

/-- What holds in every state of every schedule. -/
structure Conducts (options : LoopOptions) (begin : HotLoop D) (frameStart eventStart : UInt64)
    (state : SocketProcess D frameCapacity eventCapacity) : Prop where
  drains : state.publishing.Drains options begin frameStart eventStart
  joined : state.publishing.done = true → state.ingest = .ended
  offering : state.publishing.path.frames.producer.offered = state.ingest.offering
  receives : Receives state
  answered : state.refused.length = state.pump.handed.length
  pushed : state.publishing.path.frames.pushed = kept state.pump.handed state.refused
  drops : state.pump.ringFullDrops = UInt64.ofNat (state.refused.count true)

/-- The ingest thread while it leaves the frame ring alone. -/
theorem Conducts.offRing (conducts : Conducts options begin frameStart eventStart state)
    {pump : Pump} {ingest : IngestPc} {ended : List (List UInt8)} {current : List UInt8}
    (runs : state.ingest ≠ .ended) (before : state.ingest.offering = none)
    (after : ingest.offering = none) (handed : pump.handed = state.pump.handed)
    (drops : pump.ringFullDrops = state.pump.ringFullDrops)
    (receives : Receives
      { state with pump := pump, ingest := ingest, ended := ended, current := current }) :
    Conducts options begin frameStart eventStart
      { state with pump := pump, ingest := ingest, ended := ended, current := current } where
  drains := conducts.drains
  joined := fun done => absurd (conducts.joined done) runs
  offering := conducts.offering.trans (before.trans after.symm)
  receives := receives
  answered := conducts.answered.trans (congrArg List.length handed.symm)
  pushed := by
    rw [handed]
    exact conducts.pushed
  drops := drops.trans conducts.drops

/-- The answer of the ring goes to the counter and to the record alike. -/
theorem Conducts.answer (conducts : Conducts options begin frameStart eventStart state)
    {frame : AudioFrame} {need : Nat} {nowNs : UInt64} {result : PushResult}
    (pc : state.ingest = .pushing frame need nowNs)
    (answered : state.publishing.path.frames.pushAnswer = some result) :
    Conducts options begin frameStart eventStart
      { state with
        publishing := state.publishing.pushFrame (frame.stamped nowNs)
        ingest := .scanning
        pump := state.pump.hand ⟨fun _ => nowNs, fun _ => result == .full⟩ frame need
        refused := state.refused ++ [result == .full] } := by
  have receives := conducts.receives.ingestStep (.answer frame need nowNs result pc answered)
  have drains := conducts.drains.step (.frames (frame.stamped nowNs))
  have offering := conducts.offering
  rw [pc] at offering
  have length : (state.refused ++ [result == .full]).length =
      (state.pump.handed ++ [frame.stamped nowNs]).length := by
    rw [List.length_append, List.length_append, conducts.answered]
    rfl
  obtain ⟨pushed, idle⟩ := SpscState.stepProducer_return offering answered (frame.stamped nowNs)
  have joined : state.publishing.done = true → IngestPc.scanning = .ended := by
    intro done
    cases pc.symm.trans (conducts.joined done)
  have drops := conducts.drops
  refine ⟨drains, joined, congrArg Producer.offered idle, receives, length, ?_, ?_⟩
  · refine pushed.trans ?_
    rw [conducts.pushed]
    exact (kept_snoc conducts.answered (frame.stamped nowNs) (result == .full)).symm
  · rw [List.count_append]
    cases result with
    | ok => exact drops
    | full => exact (congrArg (· + 1) drops).trans (HotPath.ofNat_succ _).symm

theorem Conducts.ingestStep (conducts : Conducts options begin frameStart eventStart state)
    (step : IngestStep state next) : Conducts options begin frameStart eventStart next := by
  have receives := conducts.receives.ingestStep step
  have drains := fun frame => conducts.drains.step (.frames frame)
  have offering := conducts.offering
  cases step with
  | stay => exact conducts
  | stopped pc => exact conducts.offRing (by simp [pc]) (by rw [pc]; rfl) rfl rfl rfl receives
  | accepted pc => exact conducts.offRing (by simp [pc]) (by rw [pc]; rfl) rfl rfl rfl receives
  | hungUp pc => exact conducts.offRing (by simp [pc]) (by rw [pc]; rfl) rfl rfl rfl receives
  | read bytes pc room =>
      exact conducts.offRing (by simp [pc]) (by rw [pc]; rfl) rfl (Pump.receive_handed _ _)
        (Pump.receive_ringFullDrops _ _) receives
  | more pc verdict =>
      obtain ⟨handed, drops⟩ := state.pump.counts_carry
      exact conducts.offRing (by simp [pc]) (by rw [pc]; rfl) rfl handed drops receives
  | oversized pc verdict =>
      exact conducts.offRing (by simp [pc]) (by rw [pc]; rfl) rfl rfl rfl receives
  | call frame need nowNs pc verdict =>
      rw [pc] at offering
      obtain ⟨pushed, offered⟩ := SpscState.stepProducer_begin offering (frame.stamped nowNs)
      refine ⟨drains _, ?_, offered, receives, conducts.answered, pushed.trans conducts.pushed,
        conducts.drops⟩
      intro done
      cases pc.symm.trans (conducts.joined done)
  | push frame need nowNs pc running =>
      rw [pc] at offering
      obtain ⟨pushed, offered⟩ :=
        SpscState.stepProducer_goOn offering running (frame.stamped nowNs)
      exact ⟨drains _, conducts.joined, offered.trans (congrArg IngestPc.offering pc.symm),
        receives, conducts.answered, pushed.trans conducts.pushed, conducts.drops⟩
  | answer frame need nowNs result pc answered => exact conducts.answer pc answered

/-- A step of another thread. -/
theorem Conducts.others (conducts : Conducts options begin frameStart eventStart state)
    {publishing : Publishing D frameCapacity eventCapacity}
    (drains : publishing.Drains options begin frameStart eventStart)
    (joined : publishing.done = true → state.ingest = .ended)
    (producer : publishing.path.frames.producer = state.publishing.path.frames.producer)
    (pushed : publishing.path.frames.pushed = state.publishing.path.frames.pushed) :
    Conducts options begin frameStart eventStart { state with publishing := publishing } where
  drains := drains
  joined := joined
  offering := (congrArg Producer.offered producer).trans conducts.offering
  receives := conducts.receives.withPublishing publishing
  answered := conducts.answered
  pushed := pushed.trans conducts.pushed
  drops := conducts.drops

theorem step_main (options : LoopOptions) (state : SocketProcess D frameCapacity eventCapacity) :
    state.step options .main = state ∨ state.ingest = .ended ∧
      state.step options .main =
        { state with publishing := state.publishing.step options .main } := by
  unfold SocketProcess.step
  cases state.ingest with
  | ended => exact .inr ⟨rfl, rfl⟩
  | _ => exact .inl rfl

/-- Step lemma: every entry of a schedule keeps the invariant. -/
theorem Conducts.step (conducts : Conducts options begin frameStart eventStart state)
    (actor : SocketActor) :
    Conducts options begin frameStart eventStart (state.step options actor) := by
  cases actor with
  | ingest input => exact conducts.ingestStep (state.ingestStep input)
  | hot input =>
      obtain ⟨pushed, producer⟩ := (state.publishing.path.hotStep options input).frames_keeps
      exact conducts.others (conducts.drains.step (.hot input)) conducts.joined producer pushed
  | main =>
      rcases state.step_main options with still | ⟨ended, stored⟩
      · rw [still]
        exact conducts
      · have same : (state.publishing.step options .main).path = state.publishing.path := by
          unfold Publishing.step
          dsimp only
          split <;> rfl
        rw [stored]
        exact conducts.others (conducts.drains.step .main) (fun _ => ended)
          (congrArg (·.frames.producer) same) (congrArg (·.frames.pushed) same)
  | publisher producedFirst =>
      have same : (state.publishing.stepPublisher producedFirst).path.frames =
            state.publishing.path.frames ∧
          (state.publishing.stepPublisher producedFirst).done = state.publishing.done := by
        unfold Publishing.stepPublisher
        repeat' split
        all_goals exact ⟨rfl, rfl⟩
      exact conducts.others (conducts.drains.step (.publisher producedFirst))
        (fun done => conducts.joined (same.2.symm.trans done))
        (congrArg (·.producer) same.1) (congrArg (·.pushed) same.1)

/-- Run lemma: every schedule keeps the invariant. -/
theorem Conducts.run (conducts : Conducts options begin frameStart eventStart state)
    (schedule : List SocketActor) :
    Conducts options begin frameStart eventStart (state.run options schedule) := by
  induction schedule generalizing state with
  | nil => exact conducts
  | cons actor rest ih => exact ih (conducts.step actor)

theorem conducts_initial (options : LoopOptions) {begin : HotLoop D} (silent : begin.emitted = [])
    (frameStart eventStart : UInt64) (frameSlots : Vector AudioFrame frameCapacity.size)
    (eventSlots : Vector ChunkEvent eventCapacity.size) :
    Conducts options begin frameStart eventStart
      (initial begin frameStart eventStart frameSlots eventSlots) where
  drains := Publishing.drains_initial options silent frameStart eventStart frameSlots eventSlots
  joined := nofun
  offering := rfl
  receives := .none
  answered := rfl
  pushed := rfl
  drops := rfl

/--
In every schedule, when the publisher has exited, every connection has ended, and
the frames handed over are those of its stream, up to where it broke off, stamped
on the way.  The frames the ring did not refuse are those the hot loop has popped
and at most a ring of frames left behind at the end, and what is printed are the
events the sequential loop publishes over the popped ones, but for those the event
ring has refused.
-/
theorem socket_end_to_end (options : LoopOptions) (maxSessions : Nat) (config : ChunkerConfig D)
    (startNs frameStart eventStart : UInt64) (frameSlots : Vector AudioFrame frameCapacity.size)
    (eventSlots : Vector ChunkEvent eventCapacity.size) (schedule : List SocketActor)
    {state : SocketProcess D frameCapacity eventCapacity}
    (ran : (initial (.start maxSessions config startNs) frameStart eventStart frameSlots
      eventSlots).run options schedule = state) (exited : state.publishing.pc = .exited) :
    let hot := state.publishing.path.hot
    state.ingest = .ended ∧ Delivered state.ended state.pump.handed ∧
      (state.refused.length = state.pump.handed.length ∧
        state.pump.ringFullDrops = UInt64.ofNat (state.refused.count true) ∧
        ∃ left, kept state.pump.handed state.refused = hot.ticks.filterMap Tick.popped ++ left ∧
          left.length ≤ frameCapacity.size) ∧
      ∃ endNs, hot.pc = .returned endNs ∧
        HotLoop.hotLoop (fun n => hot.refused.getD n false) options maxSessions config startNs
          hot.ticks endNs = some hot.loop ∧
        state.publishing.printed = HotPath.accepted hot.loop.emitted hot.refused := by
  have conducts : Conducts options (.start maxSessions config startNs) frameStart eventStart
      state := by
    rw [← ran]
    exact (conducts_initial options rfl frameStart eventStart frameSlots eventSlots).run schedule
  have drains := conducts.drains
  obtain ⟨set, empty⟩ := drains.exited exited
  have ended := conducts.joined set
  have delivered := conducts.receives
  unfold Receives at delivered
  rw [ended] at delivered
  obtain ⟨left, rest⟩ := drains.sequential.frames.popped_prefix
  obtain ⟨-, -, -, room⟩ := drains.sequential.frames.counts
  obtain ⟨endNs, pc⟩ := drains.done set
  refine ⟨ended, delivered, ⟨conducts.answered, conducts.drops, left, ?_, ?_⟩, endNs, pc,
    drains.sequential.hotLoop pc (HotPath.heeds_getD _), ?_⟩
  · rw [drains.sequential.popped, rest]
    exact conducts.pushed.symm
  · rw [← rest, List.length_append] at room
    omega
  · calc state.publishing.printed = state.publishing.path.events.popped := drains.printed
      _ = state.publishing.path.events.pushed := drains.sequential.events.drained empty
      _ = HotPath.accepted state.publishing.path.hot.loop.emitted
            state.publishing.path.hot.refused := drains.sequential.pushed

end

/-! ## The process without the read buffer -/

section

variable {D : Type} [Double D] {frameCapacity eventCapacity : Capacity}
  {state : SocketProcess D frameCapacity eventCapacity} {view : IngestView}

def stepView (options : LoopOptions)
    (state : Publishing D frameCapacity eventCapacity × IngestView) :
    SocketActor → Publishing D frameCapacity eventCapacity × IngestView
  | .ingest input =>
      let (view, offered) := state.2.step input state.1.path.frames.pushAnswer
      ({ state.1 with path := state.1.path.offer offered }, view)
  | .hot input => (state.1.step options (.hot input), state.2)
  | .main =>
      match state.2.pc with
      | .ended => (state.1.step options .main, state.2)
      | _ => state
  | .publisher producedFirst => (state.1.step options (.publisher producedFirst), state.2)

/-- Run lemma: the schedule leads where the view says. -/
theorem run_eq_view (options : LoopOptions) (views : Views state.pump state.ingest view)
    (schedule : List SocketActor) :
    (state.run options schedule).publishing =
        (schedule.foldl (stepView options) (state.publishing, view)).1 ∧
      Views (state.run options schedule).pump (state.run options schedule).ingest
        (schedule.foldl (stepView options) (state.publishing, view)).2 := by
  induction schedule generalizing state view with
  | nil => exact ⟨rfl, views⟩
  | cons actor rest ih =>
      change ((state.step options actor).run options rest).publishing = _ ∧ _
      cases actor with
      | ingest input =>
          obtain ⟨path, next⟩ :=
            @UdsPipeline.views_stepIngest _ _ _ state.pipeline view views input
          have later := @ih (state.stepIngest input) _ next
          have publishing : (state.stepIngest input).publishing =
              { state.publishing with
                path := state.publishing.path.offer
                  (view.step input state.publishing.path.frames.pushAnswer).2 } :=
            congrArg (fun path => { state.publishing with path := path }) path
          rw [publishing] at later
          exact later
      | hot input =>
          exact @ih
            { state with publishing := state.publishing.step options (.hot input) } view views
      | main =>
          have same : stepView options (state.publishing, view) .main =
              ((state.step options .main).publishing, view) := by
            unfold stepView SocketProcess.step
            rw [← views.located]
            cases view.pc <;> rfl
          have still : (state.step options .main).pump = state.pump ∧
              (state.step options .main).ingest = state.ingest := by
            rcases state.step_main options with unmoved | ⟨-, stored⟩
            · rw [unmoved]
              exact ⟨rfl, rfl⟩
            · rw [stored]
              exact ⟨rfl, rfl⟩
          rw [List.foldl_cons, same]
          refine ih ?_
          rw [still.1, still.2]
          exact views
      | publisher producedFirst =>
          exact @ih { state with
            publishing := state.publishing.step options (.publisher producedFirst) } view views

end

end SocketProcess

namespace Scenario

/-- The two calls of `busySchedule` on a connection each, with the publisher beside them. -/
def busyProcess : List SocketActor :=
  [.main, .ingest ⟨false, [], 0⟩, .ingest ⟨false, toneBytes 7 [0, 1, 2], 0⟩] ++
    List.replicate 18 (.ingest ⟨false, [], 5⟩) ++ List.replicate 28 (.hot ⟨false, 10000000⟩) ++
    List.replicate 7 (.publisher true) ++
    [.ingest ⟨false, [], 5⟩, .ingest ⟨false, toneBytes 9 [0], 0⟩] ++
    List.replicate 10 (.ingest ⟨false, [], 5⟩) ++ List.replicate 20 (.hot ⟨false, 20000000⟩) ++
    List.replicate 13 (.hot ⟨true, 30000000⟩) ++ [.ingest ⟨true, [], 6⟩, .main] ++
    List.replicate 16 (.publisher false)

/-- Both rings have two slots, and there is one session. -/
def smallProcess : SocketProcess ℚ twoSlots twoSlots :=
  .initial (.start 1 shortConfig 0) 0 0 (Vector.replicate _ {}) (Vector.replicate _ {})

end Scenario

open Scenario in
/-- One frame is dropped by the ring, one refused by the table, and the chunk of the
other two is printed. -/
theorem SocketProcess.socket_end_to_end_busy :
    ∃ state : SocketProcess ℚ twoSlots twoSlots,
      smallProcess.run ⟨20000000, 100000000⟩ busyProcess = state ∧
      let hot := state.publishing.path.hot
      (state.pump.handed.length = 4 ∧ hot.loop.metrics.frames = 2 ∧
        hot.loop.metrics.framesRefused = 1 ∧ state.pump.ringFullDrops = 1 ∧
        state.publishing.printed.length = 1) ∧
      state.publishing.pc = .exited ∧ state.ingest = .ended ∧
      Delivered state.ended state.pump.handed ∧ state.refused.length = 4 ∧
      (∃ left, kept state.pump.handed state.refused = hot.ticks.filterMap Tick.popped ++ left ∧
        left.length ≤ twoSlots.size) ∧
      ∃ endNs, hot.pc = .returned endNs ∧
        state.publishing.printed = HotPath.accepted hot.loop.emitted hot.refused := by
  refine ⟨_, rfl, ?_⟩
  generalize ran : smallProcess.run _ _ = state
  -- Again only the view is evaluated.
  obtain ⟨publishing, views⟩ : state.publishing = _ ∧ Views state.pump state.ingest _ :=
    ran ▸ smallProcess.run_eq_view _ views_initial _
  have counts : (state.pump.handed.length = 4 ∧
      state.publishing.path.hot.loop.metrics.frames = 2 ∧
      state.publishing.path.hot.loop.metrics.framesRefused = 1 ∧
      state.pump.ringFullDrops = 1 ∧ state.publishing.printed.length = 1) ∧
      state.publishing.pc = .exited := by
    rw [publishing, ← views.handed, ← views.drops]
    decide +kernel
  obtain ⟨counts, exited⟩ := counts
  obtain ⟨ended, delivered, ⟨answered, -, kept⟩, endNs, pc, -, printed⟩ :=
    socket_end_to_end _ 1 shortConfig 0 0 0 _ _ _ ran exited
  exact ⟨counts, exited, ended, delivered, answered.trans counts.1, kept, endNs, pc, printed⟩

end VoiceHotPath
