import VoiceHotPath.Consumer.Sequential
import VoiceHotPath.Lib.LossySequence

/-!
# The send loop of the producer

`vhp_producer` on the shared ring: each tick sends one frame for each session,
numbered by the tick, and sheds what the full ring refuses.  What it has sent of
a call is, in order, what it has pushed and what it has shed.
-/

namespace VoiceHotPath

def kFlagNone : UInt16 := 0

def kFlagStreamStart : UInt16 := 1

structure SendOptions where
  sessions : UInt32
  totalFrames : UInt64
  sampleRate : UInt32
  format : AudioFormat
  deriving DecidableEq, Repr

/-- What a step of the producer reads: whether it stops, the audio made, and the clocks. -/
structure SendInput where
  stop : Bool
  payload : Vector UInt8 kFramePayloadBytes
  byteLen : UInt32
  targetNs : UInt64
  nowNs : UInt64

/-- Where the send loop is. -/
inductive SendPc where
  | tick
  | session
  | pushing (frame : AudioFrame)
  | ended

/-- The loop variables of the send loop, its counter, and the frames it has shed. -/
structure SendLoop where
  pc : SendPc := .tick
  seq : UInt64 := 0
  session : UInt32 := 0
  dropped : UInt64 := 0
  shed : List AudioFrame := []

/-- The producer's process, the ring it shares, and the consumer's. -/
structure ShmPipeline (D : Type) (frameCapacity eventCapacity : Capacity) where
  path : HotPath D frameCapacity eventCapacity
  send : SendLoop := {}

/-- One entry of a schedule; the last one lets the reader of the event ring move. -/
inductive ShmActor where
  | producer (input : SendInput)
  | hot (input : HotInput)
  | publisher

/-- The frame of one session in one tick. -/
def SendLoop.frame (options : SendOptions) (send : SendLoop) (input : SendInput) : AudioFrame where
  hdr :=
    { seq := send.seq
      tProduceNs := input.nowNs
      tCaptureNs := input.targetNs
      byteLen := input.byteLen
      sampleRate := options.sampleRate
      format := options.format.code
      flags := if send.seq = 0 then kFlagStreamStart else kFlagNone
      sessionId := send.session }
  payload := input.payload

/-- The frame the loop is pushing. -/
def SendPc.offering : SendPc → Option AudioFrame
  | .pushing frame => some frame
  | _ => none

namespace ShmPipeline

section

variable {D : Type} {frameCapacity eventCapacity : Capacity}

/-- One step of the send loop. -/
def stepSend (options : SendOptions) (state : ShmPipeline D frameCapacity eventCapacity)
    (input : SendInput) : ShmPipeline D frameCapacity eventCapacity :=
  match state.send.pc with
  | .tick =>
      if state.send.seq < options.totalFrames ∧ ¬ input.stop then
        { state with send := { state.send with pc := .session } }
      else { state with send := { state.send with pc := .ended } }
  | .session =>
      if state.send.session < options.sessions then
        let frame := state.send.frame options input
        { state with
          path := { state.path with frames := state.path.frames.stepProducer frame }
          send := { state.send with pc := .pushing frame } }
      else
        -- The inner loop of the next tick starts over.
        { state with
          send := { state.send with pc := .tick, seq := state.send.seq + 1, session := 0 } }
  | .pushing frame =>
      let path := { state.path with frames := state.path.frames.stepProducer frame }
      match state.path.frames.pushAnswer with
      | none => { state with path := path }
      | some .ok =>
          { state with
            path := path
            send := { state.send with pc := .session, session := state.send.session + 1 } }
      | some .full =>
          { state with
            path := path
            send := { state.send with
              pc := .session
              session := state.send.session + 1
              dropped := state.send.dropped + 1
              shed := state.send.shed ++ [frame] } }
  | .ended => state

variable [Double D]

def step (sendOptions : SendOptions) (options : LoopOptions)
    (state : ShmPipeline D frameCapacity eventCapacity) :
    ShmActor → ShmPipeline D frameCapacity eventCapacity
  | .producer input => state.stepSend sendOptions input
  | .hot input => { state with path := state.path.stepHot options input }
  | .publisher =>
      { state with path := { state.path with events := state.path.events.stepConsumer } }

def run (sendOptions : SendOptions) (options : LoopOptions)
    (state : ShmPipeline D frameCapacity eventCapacity) (schedule : List ShmActor) :
    ShmPipeline D frameCapacity eventCapacity :=
  schedule.foldl (step sendOptions options) state

/-- The rings are empty, and no thread has taken a step. -/
def initial (begin : HotLoop D) (frameStart eventStart : UInt64)
    (frameSlots : Vector AudioFrame frameCapacity.size)
    (eventSlots : Vector ChunkEvent eventCapacity.size) :
    ShmPipeline D frameCapacity eventCapacity where
  path := .initial begin frameStart eventStart frameSlots eventSlots

end

end ShmPipeline

/-! ## The numbers of the frames of a call -/

/-- The sequence numbers of a call among some frames. -/
def seqsOf (id : UInt32) (frames : List AudioFrame) : List Nat :=
  (frames.filter fun frame => frame.hdr.sessionId = id).map fun frame => frame.hdr.seq.toNat

section

variable {id : UInt32} {frames : List AudioFrame} {frame : AudioFrame}

theorem seqsOf_snoc_same (same : frame.hdr.sessionId = id) :
    seqsOf id (frames ++ [frame]) = seqsOf id frames ++ [frame.hdr.seq.toNat] := by
  simp [seqsOf, same]

theorem seqsOf_snoc_other (other : frame.hdr.sessionId ≠ id) :
    seqsOf id (frames ++ [frame]) = seqsOf id frames := by
  simp [seqsOf, other]

theorem seqsOf_prefix {earlier : List AudioFrame} (front : earlier <+: frames) :
    seqsOf id earlier <+: seqsOf id frames := by
  obtain ⟨later, rfl⟩ := front
  rw [seqsOf, seqsOf, List.filter_append, List.map_append]
  exact List.prefix_append _ _

end

namespace SendLoop

/-- How many frames of a call have been pushed or shed. -/
def sent (options : SendOptions) (send : SendLoop) (id : UInt32) : Nat :=
  if id < options.sessions then send.seq.toNat + (if id < send.session then 1 else 0) else 0

/-- The frames of each call are numbered without a break, and each is pushed or shed. -/
structure Numbers (options : SendOptions) (pushed : List AudioFrame) (send : SendLoop) : Prop where
  bounds : send.session ≤ options.sessions ∧ send.seq ≤ options.totalFrames
  within : send.pc = .session ∨ (∃ frame, send.pc = .pushing frame) →
    send.seq < options.totalFrames
  current : ∀ frame, send.pc = .pushing frame →
    frame.hdr.seq = send.seq ∧ frame.hdr.sessionId = send.session ∧
      send.session < options.sessions
  ascending : ∀ id, (seqsOf id pushed).Pairwise (· < ·)
  all : ∀ id, (seqsOf id pushed ++ seqsOf id send.shed).Perm (List.range (send.sent options id))
  dropped : send.dropped = UInt64.ofNat send.shed.length

variable {options : SendOptions} {pushed : List AudioFrame} {send : SendLoop}

theorem numbers_start (options : SendOptions) : Numbers options [] {} where
  bounds := ⟨UInt32.zero_le, UInt64.zero_le⟩
  within := by
    rintro (absent | ⟨frame, absent⟩)
    · cases absent
    · cases absent
  current := fun _ absent => by cases absent
  ascending := fun _ => .nil
  all := by
    intro id
    have none : sent options {} id = 0 := by
      unfold sent
      split <;> rfl
    rw [none]
    exact List.Perm.refl _
  dropped := rfl

/-- A frame pushed or shed is the next of its call. -/
theorem Numbers.sent_next (numbers : Numbers options pushed send) {frame : AudioFrame}
    (pc : send.pc = .pushing frame) (id : UInt32) {next : SendLoop} (seq : next.seq = send.seq)
    (session : next.session = send.session + 1) :
    next.session ≤ options.sessions ∧
      List.range (next.sent options id) = List.range (send.sent options id) ++
        if frame.hdr.sessionId = id then [frame.hdr.seq.toNat] else [] := by
  obtain ⟨sameSeq, sameId, small⟩ := numbers.current frame pc
  have below := UInt32.lt_iff_toNat_lt.mp small
  have more := WrappingCounter.toNat_succ32_of_lt small
  refine ⟨?_, ?_⟩
  · rw [session, UInt32.le_iff_toNat_le, more]
    exact below
  · unfold sent
    rw [seq, session, sameSeq, sameId]
    simp only [UInt32.lt_iff_toNat_lt, more]
    by_cases same : send.session = id
    · subst same
      rw [if_pos below, if_pos (Nat.lt_succ_self _), if_pos below,
        if_neg (Nat.lt_irrefl _), if_pos rfl]
      exact List.range_succ
    · have apart : send.session.toNat ≠ id.toNat := fun equal => same (UInt32.toNat_inj.mp equal)
      rw [if_neg same, List.append_nil]
      split
      · by_cases earlier : id.toNat < send.session.toNat
        · rw [if_pos earlier, if_pos (by omega)]
        · rw [if_neg earlier, if_neg (by omega)]
      · rfl

/-- A frame of the tick has been pushed. -/
theorem Numbers.push (numbers : Numbers options pushed send) {frame : AudioFrame}
    (pc : send.pc = .pushing frame) :
    Numbers options (pushed ++ [frame])
      { send with pc := .session, session := send.session + 1 } := by
  have within := numbers.within (.inr ⟨frame, pc⟩)
  have next := fun id => @Numbers.sent_next options pushed send numbers frame pc id
    { send with pc := .session, session := send.session + 1 } rfl rfl
  have seqs : ∀ id, seqsOf id (pushed ++ [frame]) =
      seqsOf id pushed ++ if frame.hdr.sessionId = id then [frame.hdr.seq.toNat] else [] := by
    intro id
    split
    · exact seqsOf_snoc_same ‹_›
    · rw [List.append_nil]
      exact seqsOf_snoc_other ‹_›
  refine ⟨⟨(next 0).1, numbers.bounds.2⟩, fun _ => within, (fun _ absent => by cases absent),
    ?_, ?_, numbers.dropped⟩
  · intro id
    rw [seqs]
    split
    · rename_i same
      refine List.pairwise_append.mpr ⟨numbers.ascending id, List.pairwise_singleton _ _, ?_⟩
      intro n earlier m last
      rw [List.mem_singleton.mp last]
      -- The numbers of the call so far are those below the tick.
      obtain ⟨sameSeq, sameId, small⟩ := numbers.current frame pc
      have listed := (numbers.all id).subset (List.mem_append_left _ earlier)
      rw [List.mem_range, sent, ← same, sameId, if_pos small, if_neg (UInt32.lt_irrefl _)]
        at listed
      rw [sameSeq]
      exact listed
    · rw [List.append_nil]
      exact numbers.ascending id
  · intro id
    rw [seqs, (next id).2, List.append_assoc]
    refine List.Perm.trans ?_ ((numbers.all id).append_right _)
    rw [List.append_assoc]
    exact List.perm_append_comm.append_left _

/-- A frame of the tick has been shed. -/
theorem Numbers.drop (numbers : Numbers options pushed send) {frame : AudioFrame}
    (pc : send.pc = .pushing frame) :
    Numbers options pushed
      { send with
        pc := .session
        session := send.session + 1
        dropped := send.dropped + 1
        shed := send.shed ++ [frame] } := by
  have within := numbers.within (.inr ⟨frame, pc⟩)
  have next := fun id => @Numbers.sent_next options pushed send numbers frame pc id
    { send with
      pc := .session
      session := send.session + 1
      dropped := send.dropped + 1
      shed := send.shed ++ [frame] } rfl rfl
  refine ⟨⟨(next 0).1, numbers.bounds.2⟩, fun _ => within, (fun _ absent => by cases absent),
    numbers.ascending, ?_, ?_⟩
  · intro id
    rw [(next id).2]
    have all := (numbers.all id).append_right
      (if frame.hdr.sessionId = id then [frame.hdr.seq.toNat] else [])
    rw [List.append_assoc] at all
    split at all
    · rename_i same
      rw [if_pos same, seqsOf_snoc_same same]
      exact all
    · rename_i other
      rw [if_neg other, seqsOf_snoc_other other]
      rw [List.append_nil] at all
      exact all
  · rw [numbers.dropped, List.length_append]
    exact (UInt64.ofNat_add _ 1).symm

/-- The tick is over. -/
theorem Numbers.endTick (numbers : Numbers options pushed send) (pc : send.pc = .session)
    (ended : ¬ send.session < options.sessions) :
    Numbers options pushed { send with pc := .tick, seq := send.seq + 1, session := 0 } := by
  have within := numbers.within (.inl pc)
  have below := UInt64.lt_iff_toNat_lt.mp within
  have more := WrappingCounter.toNat_succ_of_lt within
  have same : ∀ id,
      sent options { send with pc := .tick, seq := send.seq + 1, session := 0 } id =
        sent options send id := by
    intro id
    unfold sent
    split
    · rename_i small
      have reached : id < send.session := UInt32.lt_of_lt_of_le small (UInt32.not_lt.mp ended)
      rw [if_pos reached]
      exact more
    · rfl
  refine ⟨⟨UInt32.zero_le, ?_⟩, ?_, (fun _ absent => by cases absent), numbers.ascending, ?_,
    numbers.dropped⟩
  · rw [UInt64.le_iff_toNat_le, more]
    exact below
  · rintro (absent | ⟨frame, absent⟩)
    · cases absent
    · cases absent
  · intro id
    rw [same]
    exact numbers.all id

end SendLoop

namespace ShmPipeline

variable {D : Type} [Double D] {frameCapacity eventCapacity : Capacity}
  {sendOptions : SendOptions} {options : LoopOptions} {begin : HotLoop D}
  {frameStart eventStart : UInt64} {state : ShmPipeline D frameCapacity eventCapacity}

/-- What holds in every state of every schedule. -/
structure Sends (sendOptions : SendOptions) (options : LoopOptions) (begin : HotLoop D)
    (frameStart eventStart : UInt64) (state : ShmPipeline D frameCapacity eventCapacity) :
    Prop where
  sequential : state.path.Sequential options begin frameStart eventStart
  offering : state.path.frames.producer.offered = state.send.pc.offering
  numbers : state.send.Numbers sendOptions state.path.frames.pushed

theorem Sends.stepSend (sends : Sends sendOptions options begin frameStart eventStart state)
    (input : SendInput) :
    Sends sendOptions options begin frameStart eventStart (state.stepSend sendOptions input) := by
  have offering := sends.offering
  have numbers := sends.numbers
  unfold ShmPipeline.stepSend
  cases pc : state.send.pc with
  | tick =>
      rw [pc] at offering
      dsimp only
      split
      · rename_i going
        exact ⟨sends.sequential, offering, { numbers with
          within := fun _ => going.1
          current := fun _ absent => by cases absent }⟩
      · refine ⟨sends.sequential, offering, { numbers with
          within := ?_
          current := fun _ absent => by cases absent }⟩
        rintro (absent | ⟨frame, absent⟩)
        · cases absent
        · cases absent
  | session =>
      rw [pc] at offering
      dsimp only
      split
      · rename_i small
        obtain ⟨pushed, offered⟩ :=
          SpscState.stepProducer_begin offering (state.send.frame sendOptions input)
        refine ⟨sends.sequential.frameProducer _, offered, ?_⟩
        rw [pushed]
        exact { numbers with
          within := fun _ => numbers.within (.inl pc)
          current := fun frame same => by
            cases same
            exact ⟨rfl, rfl, small⟩ }
      · rename_i ended
        exact ⟨sends.sequential, offering, numbers.endTick pc ended⟩
  | pushing frame =>
      rw [pc] at offering
      have sequential := sends.sequential.frameProducer frame
      cases answer : state.path.frames.pushAnswer with
      | none =>
          obtain ⟨pushed, offered⟩ := SpscState.stepProducer_goOn offering answer frame
          refine ⟨sequential, offered.trans (congrArg SendPc.offering pc.symm), ?_⟩
          rw [pushed]
          exact numbers
      | some result =>
          obtain ⟨pushed, idle⟩ := SpscState.stepProducer_return offering answer frame
          cases result with
          | ok =>
              refine ⟨sequential, congrArg Producer.offered idle, ?_⟩
              rw [pushed]
              exact numbers.push pc
          | full =>
              refine ⟨sequential, congrArg Producer.offered idle, ?_⟩
              rw [pushed]
              exact (List.append_nil state.path.frames.pushed).symm ▸ numbers.drop pc
  | ended => exact sends

/-- Step lemma: every entry of a schedule keeps the numbering. -/
theorem Sends.step (sends : Sends sendOptions options begin frameStart eventStart state)
    (actor : ShmActor) :
    Sends sendOptions options begin frameStart eventStart
      (state.step sendOptions options actor) := by
  cases actor with
  | producer input => exact sends.stepSend input
  | hot input =>
      have step := state.path.hotStep options input
      obtain ⟨pushed, producer⟩ := step.frames_keeps
      refine ⟨sends.sequential.hotStep step, ?_, ?_⟩
      · exact (congrArg Producer.offered producer).trans sends.offering
      · exact pushed.symm ▸ sends.numbers
  | publisher => exact ⟨sends.sequential.eventConsumer, sends.offering, sends.numbers⟩

/-- Run lemma: every schedule keeps the numbering. -/
theorem Sends.run (sends : Sends sendOptions options begin frameStart eventStart state)
    (schedule : List ShmActor) :
    Sends sendOptions options begin frameStart eventStart
      (state.run sendOptions options schedule) := by
  induction schedule generalizing state with
  | nil => exact sends
  | cons actor rest ih => exact ih (sends.step actor)

theorem sends_initial (sendOptions : SendOptions) (options : LoopOptions) {begin : HotLoop D}
    (silent : begin.emitted = []) (frameStart eventStart : UInt64)
    (frameSlots : Vector AudioFrame frameCapacity.size)
    (eventSlots : Vector ChunkEvent eventCapacity.size) :
    Sends sendOptions options begin frameStart eventStart
      (initial begin frameStart eventStart frameSlots eventSlots) :=
  ⟨HotPath.sequential_initial options silent frameStart eventStart frameSlots eventSlots, rfl,
    SendLoop.numbers_start sendOptions⟩

end ShmPipeline

end VoiceHotPath
