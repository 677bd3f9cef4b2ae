import VoiceHotPath.Vad.ChunkRecord
import VoiceHotPath.Vad.Timeline

/-!
# The assembler refines the abstract chunker

Every call on an assembler moves a timeline, and the two stay in step: the
pre-roll ring holds the idle frames, the open chunk's record is exactly that of
the frames received since the chunk began, and an event is published precisely
when the timeline closes an interval.
-/

namespace VoiceHotPath

/-- One call on an assembler. -/
inductive Call where
  | frame (frame : AudioFrame) (nowNs : UInt64)
  | flush (nowNs : UInt64)
  deriving DecidableEq, Repr

namespace Call

def frame? : Call → Option AudioFrame
  | .frame audio _ => some audio
  | .flush _ => none

def nowNs : Call → UInt64
  | .frame _ nowNs => nowNs
  | .flush nowNs => nowNs

end Call

/-- The frames received over a history of calls. -/
def receivedFrames (calls : List Call) : List AudioFrame :=
  calls.filterMap Call.frame?

@[simp] theorem receivedFrames_append (first second : List Call) :
    receivedFrames (first ++ second) = receivedFrames first ++ receivedFrames second :=
  List.filterMap_append

/-- Gaps count towards a chunk from just after its onset frame. -/
def gapsFrom (start : Nat) (onset : Option Nat) : Nat :=
  match onset with
  | some position => position + 1
  | none => start

/-- An event is the record of a closed interval of the received frames. -/
structure Describes (maxBytes : Nat) (frames : List AudioFrame) (event : ChunkEvent)
    (closing : Closing) : Prop where
  stop_le : closing.stop ≤ frames.length
  frameCount : event.frameCount = UInt32.ofNat (closing.stop - closing.start)
  firstSeq : event.firstSeq =
    ((slice frames closing.start closing.stop).head?.map (·.hdr.seq)).getD 0
  lastSeq : event.lastSeq =
    ((slice frames closing.start closing.stop).getLast?.map (·.hdr.seq)).getD 0
  firstFrame : ∀ first, (slice frames closing.start closing.stop).head? = some first →
    event.tFirstFrameNs = first.hdr.tProduceNs ∧ event.format = first.hdr.format
  byteCount : event.byteCount =
    UInt32.ofNat (fillBuffer maxBytes (slice frames closing.start closing.stop)).length
  droppedFrames : event.droppedFrames =
    gapsBetween frames (gapsFrom closing.start closing.onset) closing.stop
  reason : event.reason = closing.reason

/-- A description stays true as further frames arrive. -/
theorem Describes.append {maxBytes : Nat} {frames : List AudioFrame} {event : ChunkEvent}
    {closing : Closing} (describes : Describes maxBytes frames event closing)
    (later : List AudioFrame) : Describes maxBytes (frames ++ later) event closing := by
  have same : slice (frames ++ later) closing.start closing.stop =
      slice frames closing.start closing.stop := slice_append describes.stop_le later
  refine ⟨?_, describes.frameCount, ?_, ?_, ?_, ?_, ?_, describes.reason⟩
  · rw [List.length_append]
    exact Nat.le_add_right_of_le describes.stop_le
  · rw [same]
    exact describes.firstSeq
  · rw [same]
    exact describes.lastSeq
  · rw [same]
    exact describes.firstFrame
  · rw [same]
    exact describes.byteCount
  · rw [gapsBetween_append describes.stop_le]
    exact describes.droppedFrames

namespace ChunkAssembler

section

variable {D : Type}

/-- What a phase of the timeline says about the assembler's storage. -/
def InPhase (frames : List AudioFrame) (assembler : ChunkAssembler D) : Phase → Prop
  | .idle since =>
      assembler.active = false ∧ assembler.preRoll.Holds (frames.drop since)
  | .recording start onset =>
      assembler.active = true ∧ assembler.preRoll.Holds [] ∧
        assembler.Carries (frames.drop start) ∧
        assembler.gapFrames = gapsBetween frames (gapsFrom start onset) frames.length ∧
        start ≤ frames.length ∧ gapsFrom start onset ≤ frames.length

/-- The record closed now describes the interval up to the present. -/
theorem describes_closeChunk {frames : List AudioFrame} {assembler : ChunkAssembler D}
    {start : Nat} {onset : Option Nat}
    (inPhase : assembler.InPhase frames (.recording start onset))
    (reason : CloseReason) (nowNs : UInt64) (event : ChunkEvent)
    (closed : (assembler.closeChunk reason nowNs).2 = some event) :
    Describes assembler.cfg.maxChunkBytes frames event ⟨start, frames.length, onset, reason⟩ := by
  obtain ⟨-, -, carries, gaps, order, -⟩ := inPhase
  cases closed
  refine ⟨Nat.le_refl _, ?_, ?_, ?_, ?_, ?_, gaps, rfl⟩
  · simp [carries.frameCount]
  · rw [slice_to_end]
    exact carries.firstSeq
  · rw [slice_to_end]
    exact carries.lastSeq
  · intro first head
    rw [slice_to_end] at head
    refine ⟨?_, carries.format first head⟩
    rw [carries.tFirstFrameNs, head]
    rfl
  · rw [slice_to_end]
    exact congrArg (fun bytes => UInt32.ofNat (List.length bytes)) carries.buffer

theorem inPhase_closeChunk {frames : List AudioFrame} {assembler : ChunkAssembler D}
    {start : Nat} {onset : Option Nat}
    (inPhase : assembler.InPhase frames (.recording start onset))
    (reason : CloseReason) (nowNs : UInt64) :
    (assembler.closeChunk reason nowNs).1.InPhase frames (.idle frames.length) := by
  refine ⟨rfl, ?_⟩
  rw [List.drop_length]
  exact inPhase.2.1

/-- Reopening on the spot records an empty interval from the present. -/
theorem inPhase_openChunk {frames : List AudioFrame} {assembler : ChunkAssembler D}
    (holds : assembler.preRoll.Holds []) (nowNs : UInt64) :
    (assembler.openChunk nowNs).InPhase frames (.recording frames.length none) := by
  refine ⟨rfl, holds, ?_, ?_, Nat.le_refl _, Nat.le_refl _⟩
  · rw [List.drop_length]
    exact carries_openChunk assembler nowNs
  · exact (gapsBetween_self frames frames.length).symm

/-- As `InPhase`, but between running the gate and routing the frame. -/
def Entered (frames : List AudioFrame) (frame : AudioFrame) (assembler : ChunkAssembler D) :
    Phase → Prop
  | .idle since =>
      assembler.active = false ∧ assembler.preRoll.Holds (frames.drop since) ∧
        since ≤ frames.length
  | .recording start onset =>
      assembler.active = true ∧ assembler.preRoll.Holds [] ∧
        assembler.Carries (frames.drop start) ∧
        assembler.gapFrames =
          gapsBetween (frames ++ [frame]) (gapsFrom start onset) (frames.length + 1) ∧
        start ≤ frames.length ∧ gapsFrom start onset ≤ frames.length + 1

/-- Routing a frame completes the phase entered on it. -/
theorem inPhase_routeFrame {frames : List AudioFrame} {frame : AudioFrame}
    {assembler : ChunkAssembler D} {phase : Phase}
    (entered : assembler.Entered frames frame phase) :
    (assembler.routeFrame frame).InPhase (frames ++ [frame]) phase := by
  cases phase with
  | idle since =>
      obtain ⟨inactive, holds, order⟩ := entered
      simp only [routeFrame, inactive, Bool.false_eq_true, if_false]
      refine ⟨rfl, ?_⟩
      rw [List.drop_append_of_le_length order]
      exact holds.push frame
  | recording start onset =>
      obtain ⟨active, holds, carries, gaps, order, counted⟩ := entered
      simp only [routeFrame, active, if_true]
      refine ⟨by simpa using active, by simpa using holds, ?_, ?_, ?_, ?_⟩
      · rw [List.drop_append_of_le_length order]
        exact carries.append frame
      · simpa using gaps
      · simp
        omega
      · simpa using counted

/-- The assembler and the timeline agree about a history of received frames. -/
structure Tracks (config : ChunkerConfig D) (frames : List AudioFrame)
    (assembler : ChunkAssembler D) (timeline : Timeline) : Prop where
  cfg_eq : assembler.cfg = config
  cap_eq : assembler.preRoll.cap = config.preRollFrames.toNat
  received : timeline.received = frames.length
  lastSeqSeen : assembler.lastSeqSeen = frames.getLast?.map (·.hdr.seq)
  inPhase : assembler.InPhase frames timeline.phase
  since_le : ∀ since, timeline.phase = .idle since → since ≤ frames.length

/-- The gap counted on arrival is the gap before the arriving frame. -/
theorem gapFrames_countGap {config : ChunkerConfig D} {frames : List AudioFrame}
    {assembler : ChunkAssembler D} {timeline : Timeline}
    (tracks : Tracks config frames assembler timeline) (frame : AudioFrame) :
    (assembler.countGap frame.hdr.seq).gapFrames =
      assembler.gapFrames + gapBefore (frames ++ [frame]) frames.length := by
  rw [countGap_eq, tracks.lastSeqSeen]
  cases frames using List.reverseRecOn with
  | nil => rfl
  | append_singleton frames last =>
      have here : (frames ++ [last] ++ [frame])[frames.length]? = some last := by simp
      have there : (frames ++ [last] ++ [frame])[frames.length + 1]? = some frame := by simp
      simp [gapBefore]

end

section

variable {D : Type} [Double D]

def call (assembler : ChunkAssembler D) : Call → ChunkAssembler D × Option ChunkEvent
  | .frame frame nowNs => assembler.onFrame frame nowNs
  | .flush nowNs => assembler.flush nowNs

/-- The gate's verdict on a frame. -/
def gated (assembler : ChunkAssembler D) (frame : AudioFrame) (nowNs : UInt64) :
    Bool × SpeechThresholdGate D :=
  assembler.gate.accept (frameEnergy frame) (nsToMs nowNs)

/-- Whether a frame opens a chunk. -/
def opens (assembler : ChunkAssembler D) (frame : AudioFrame) (nowNs : UInt64) : Bool :=
  (assembler.gated frame nowNs).1 && !assembler.active

/-- What the gate and the clock decide on a frame, read off the state before it. -/
def move (assembler : ChunkAssembler D) : Call → Move
  | .frame frame nowNs =>
      let openedNs := if assembler.opens frame nowNs then nowNs else assembler.tSpeechStartNs
      .frame (assembler.gated frame nowNs).1 (assembler.gated frame nowNs).2.speaking
        (assembler.cfg.maxChunkMs ≤ nsToMs (nowNs - openedNs))
  | .flush _ => .flush

/-- The assembler after a history of calls on a fresh one. -/
def after (config : ChunkerConfig D) (calls : List Call) : ChunkAssembler D :=
  Machine.final call (make config) calls

/-- The events of a history, one entry for each call. -/
def events (config : ChunkerConfig D) (calls : List Call) : List (Option ChunkEvent) :=
  Machine.outputs call (make config) calls

def moves (config : ChunkerConfig D) (calls : List Call) : List Move :=
  Machine.views call move (make config) calls

def timelineStep (config : ChunkerConfig D) : Timeline → Move → Timeline × Option Closing :=
  Timeline.step config.preRollFrames.toNat

/-- The timeline of a history of calls. -/
def timeline (config : ChunkerConfig D) (calls : List Call) : Timeline :=
  Machine.final (timelineStep config) {} (moves config calls)

/-- The intervals closed over a history, one entry for each call. -/
def ledger (config : ChunkerConfig D) (calls : List Call) : List (Option Closing) :=
  Machine.outputs (timelineStep config) {} (moves config calls)

/-- The interval a call closes after a history, if it closes one. -/
def closingOf (config : ChunkerConfig D) (past : List Call) (next : Call) : Option Closing :=
  (timelineStep config (timeline config past) ((after config past).move next)).2

theorem after_snoc (config : ChunkerConfig D) (calls : List Call) (next : Call) :
    after config (calls ++ [next]) = ((after config calls).call next).1 :=
  Machine.final_append call _ _ _

theorem events_snoc (config : ChunkerConfig D) (calls : List Call) (next : Call) :
    events config (calls ++ [next]) =
      events config calls ++ [((after config calls).call next).2] :=
  Machine.outputs_append call _ _ _

theorem moves_snoc (config : ChunkerConfig D) (calls : List Call) (next : Call) :
    moves config (calls ++ [next]) = moves config calls ++ [(after config calls).move next] :=
  Machine.views_append call move _ _ _

theorem timeline_snoc (config : ChunkerConfig D) (calls : List Call) (next : Call) :
    timeline config (calls ++ [next]) =
      (timelineStep config (timeline config calls) ((after config calls).move next)).1 := by
  unfold timeline
  rw [moves_snoc, Machine.final_append]
  rfl

theorem ledger_snoc (config : ChunkerConfig D) (calls : List Call) (next : Call) :
    ledger config (calls ++ [next]) = ledger config calls ++ [closingOf config calls next] := by
  unfold ledger
  rw [moves_snoc, Machine.outputs_append]
  rfl

@[simp] theorem length_ledger (config : ChunkerConfig D) (calls : List Call) :
    (ledger config calls).length = calls.length := by
  simp [ledger, moves]

/-- The ledger entry of a call is what that call closes after the calls before it. -/
theorem ledger_getElem? (config : ChunkerConfig D) (calls : List Call) (i : Nat) :
    (ledger config calls)[i]? = calls[i]?.map (closingOf config (calls.take i)) := by
  induction calls using List.reverseRecOn with
  | nil => simp [ledger, moves, Machine.views]
  | append_singleton calls next ih =>
      rw [ledger_snoc]
      rcases Nat.lt_trichotomy i calls.length with before | rfl | beyond
      · rw [List.getElem?_append_left (by simpa using before), ih,
          List.getElem?_append_left before, List.take_append_of_le_length (Nat.le_of_lt before)]
      · simp
      · rw [List.getElem?_eq_none (by simpa using Nat.succ_le_of_lt beyond),
          List.getElem?_eq_none (by simpa using Nat.succ_le_of_lt beyond)]
        rfl

theorem tracks_make (config : ChunkerConfig D) : Tracks config [] (make config) {} := by
  refine ⟨rfl, OverwriteRing.cap_empty _ _, rfl, rfl, ⟨rfl, ?_⟩, ?_⟩
  · exact OverwriteRing.holds_empty _ _
  · intro since idle
    cases idle
    exact Nat.le_refl 0

theorem gateFrame_of_opens {assembler : ChunkAssembler D} {frame : AudioFrame} {nowNs : UInt64}
    (opened : assembler.opens frame nowNs = true) :
    assembler.gateFrame frame nowNs =
      { assembler with gate := (assembler.gated frame nowNs).2 }.openOnPreRoll nowNs := by
  unfold opens gated at opened
  simp [gateFrame, opened, openOnPreRoll, gated]

theorem gateFrame_of_not_opens {assembler : ChunkAssembler D} {frame : AudioFrame}
    {nowNs : UInt64} (closed : assembler.opens frame nowNs = false) :
    assembler.gateFrame frame nowNs =
      { assembler with gate := (assembler.gated frame nowNs).2 } := by
  unfold opens gated at closed
  simp [gateFrame, closed, gated]

/-- Counting a gap changes neither the gate's verdict nor what it opens. -/
theorem gated_countGap (assembler : ChunkAssembler D) (seq : UInt64) (frame : AudioFrame)
    (nowNs : UInt64) :
    (assembler.countGap seq).gated frame nowNs = assembler.gated frame nowNs := by
  rw [countGap_eq]
  rfl

theorem opens_countGap (assembler : ChunkAssembler D) (seq : UInt64) (frame : AudioFrame)
    (nowNs : UInt64) :
    (assembler.countGap seq).opens frame nowNs = assembler.opens frame nowNs := by
  rw [countGap_eq]
  rfl

/-- The state of `on_frame` after the gate has run and a chunk may have opened. -/
def gatedState (assembler : ChunkAssembler D) (frame : AudioFrame) (nowNs : UInt64) :
    ChunkAssembler D :=
  (assembler.countGap frame.hdr.seq).gateFrame frame nowNs

theorem gatedState_of_opens {assembler : ChunkAssembler D} {frame : AudioFrame} {nowNs : UInt64}
    (opened : assembler.opens frame nowNs = true) :
    assembler.gatedState frame nowNs =
      { assembler.countGap frame.hdr.seq with
        gate := (assembler.gated frame nowNs).2 }.openOnPreRoll nowNs := by
  rw [← opens_countGap assembler frame.hdr.seq] at opened
  rw [gatedState, gateFrame_of_opens opened, gated_countGap]

theorem gatedState_of_not_opens {assembler : ChunkAssembler D} {frame : AudioFrame}
    {nowNs : UInt64} (closed : assembler.opens frame nowNs = false) :
    assembler.gatedState frame nowNs =
      { assembler.countGap frame.hdr.seq with gate := (assembler.gated frame nowNs).2 } := by
  rw [← opens_countGap assembler frame.hdr.seq] at closed
  rw [gatedState, gateFrame_of_not_opens closed, gated_countGap]

@[simp] theorem cfg_gatedState (assembler : ChunkAssembler D) (frame : AudioFrame)
    (nowNs : UInt64) : (assembler.gatedState frame nowNs).cfg = assembler.cfg := by
  cases opened : assembler.opens frame nowNs with
  | true => simp [gatedState_of_opens opened, countGap_eq]
  | false => simp [gatedState_of_not_opens opened, countGap_eq]

@[simp] theorem gate_gatedState (assembler : ChunkAssembler D) (frame : AudioFrame)
    (nowNs : UInt64) :
    (assembler.gatedState frame nowNs).gate = (assembler.gated frame nowNs).2 := by
  cases opened : assembler.opens frame nowNs with
  | true => simp [gatedState_of_opens opened]
  | false => simp [gatedState_of_not_opens opened]

@[simp] theorem cap_gatedState (assembler : ChunkAssembler D) (frame : AudioFrame)
    (nowNs : UInt64) :
    (assembler.gatedState frame nowNs).preRoll.cap = assembler.preRoll.cap := by
  cases opened : assembler.opens frame nowNs with
  | true => simp [gatedState_of_opens opened, countGap_eq]
  | false => simp [gatedState_of_not_opens opened, countGap_eq]

@[simp] theorem lastSeqSeen_gatedState (assembler : ChunkAssembler D) (frame : AudioFrame)
    (nowNs : UInt64) :
    (assembler.gatedState frame nowNs).lastSeqSeen = some frame.hdr.seq := by
  cases opened : assembler.opens frame nowNs with
  | true => simp [gatedState_of_opens opened, countGap_eq]
  | false => simp [gatedState_of_not_opens opened, countGap_eq]

theorem tSpeechStartNs_gatedState (assembler : ChunkAssembler D) (frame : AudioFrame)
    (nowNs : UInt64) :
    (assembler.gatedState frame nowNs).tSpeechStartNs =
      if assembler.opens frame nowNs then nowNs else assembler.tSpeechStartNs := by
  cases opened : assembler.opens frame nowNs with
  | true => simp [gatedState_of_opens opened]
  | false => simp [gatedState_of_not_opens opened, countGap_eq]

theorem active_gatedState (assembler : ChunkAssembler D) (frame : AudioFrame) (nowNs : UInt64) :
    (assembler.gatedState frame nowNs).active =
      (assembler.opens frame nowNs || assembler.active) := by
  cases opened : assembler.opens frame nowNs with
  | true => simp [gatedState_of_opens opened]
  | false => simp [gatedState_of_not_opens opened, countGap_eq]

/-- Running the gate enters the phase the timeline enters. -/
theorem entered_gatedState {config : ChunkerConfig D} {frames : List AudioFrame}
    {assembler : ChunkAssembler D} {timeline : Timeline}
    (tracks : Tracks config frames assembler timeline) (frame : AudioFrame) (nowNs : UInt64) :
    (assembler.gatedState frame nowNs).Entered frames frame
      (timeline.enter config.preRollFrames.toNat (assembler.gated frame nowNs).1) := by
  have inPhase := tracks.inPhase
  have gap := gapFrames_countGap tracks frame
  cases phase : timeline.phase with
  | idle since =>
      rw [phase] at inPhase
      obtain ⟨inactive, holds⟩ := inPhase
      have order := tracks.since_le since phase
      have verdict : assembler.opens frame nowNs = (assembler.gated frame nowNs).1 := by
        simp [opens, inactive]
      cases onset : (assembler.gated frame nowNs).1 with
      | false =>
          rw [gatedState_of_not_opens (verdict.trans onset)]
          simpa [Timeline.enter, phase, Entered, countGap_eq, inactive, order] using holds
      | true =>
          rw [gatedState_of_opens (verdict.trans onset)]
          have contents : assembler.preRoll.contents = frames.drop
              (timeline.received - min config.preRollFrames.toNat (timeline.received - since)) := by
            rw [holds.contents_eq, tracks.cap_eq, rtake_drop order, tracks.received]
          have carries := carries_openOnPreRoll
            { assembler.countGap frame.hdr.seq with
              gate := (assembler.gated frame nowNs).2 } nowNs
          have received := tracks.received
          simp only [Timeline.enter, phase, if_true]
          refine ⟨by simp, ?_, ?_, ?_, by omega, ?_⟩
          · rw [preRoll_openOnPreRoll]
            exact OverwriteRing.holds_clear _
          · rw [← contents]
            simpa [countGap_eq] using carries
          · simp [gapsFrom, received]
          · simp [gapsFrom, received]
  | recording start opened =>
      rw [phase] at inPhase
      obtain ⟨active, holds, carries, gaps, order, counted⟩ := inPhase
      have verdict : assembler.opens frame nowNs = false := by simp [opens, active]
      rw [gatedState_of_not_opens verdict]
      simp only [Timeline.enter, phase]
      refine ⟨by simpa [countGap_eq] using active, by simpa [countGap_eq] using holds, ?_, ?_,
        order, Nat.le_succ_of_le counted⟩
      · rw [countGap_eq]
        exact ⟨carries.1, carries.2, carries.3, carries.4, carries.5, carries.6, carries.7⟩
      · rw [gapsBetween_succ _ counted, gapsBetween_append (Nat.le_refl _), ← gaps]
        exact gap

/-- `on_frame` in terms of its four stages. -/
theorem onFrame_eq (assembler : ChunkAssembler D) (frame : AudioFrame) (nowNs : UInt64) :
    assembler.onFrame frame nowNs =
      ((assembler.gatedState frame nowNs).routeFrame frame).closeFrame nowNs :=
  rfl

/-- The state in which a call runs its closing tests. -/
def prepared (assembler : ChunkAssembler D) : Call → ChunkAssembler D
  | .frame frame nowNs => (assembler.gatedState frame nowNs).routeFrame frame
  | .flush _ => assembler

theorem elapsedMs_prepared (assembler : ChunkAssembler D) (frame : AudioFrame) (nowNs : UInt64) :
    (assembler.prepared (.frame frame nowNs)).elapsedMs nowNs =
      nsToMs (nowNs - if assembler.opens frame nowNs then nowNs
        else assembler.tSpeechStartNs) := by
  simp [prepared, elapsedMs, tSpeechStartNs_gatedState]

/-- The four outcomes of the closing tests, guards included. -/
theorem closeFrame_cases (assembler : ChunkAssembler D) (nowNs : UInt64) :
    (assembler.active = false ∧ assembler.closeFrame nowNs = (assembler, none)) ∨
    (assembler.active = true ∧ assembler.gate.speaking = false ∧
      assembler.closeFrame nowNs = assembler.closeChunk .hangover nowNs) ∨
    (assembler.active = true ∧ assembler.gate.speaking = true ∧
      assembler.cfg.maxChunkMs ≤ assembler.elapsedMs nowNs ∧
      assembler.closeFrame nowNs =
        ((assembler.closeChunk .maxLength nowNs).1.openChunk nowNs,
          (assembler.closeChunk .maxLength nowNs).2)) ∨
    (assembler.active = true ∧ assembler.gate.speaking = true ∧
      ¬ assembler.cfg.maxChunkMs ≤ assembler.elapsedMs nowNs ∧
      assembler.closeFrame nowNs = (assembler, none)) := by
  cases active : assembler.active with
  | false => simp [closeFrame, active]
  | true =>
      cases speaking : assembler.gate.speaking with
      | false => simp [closeFrame, active, speaking]
      | true =>
          by_cases capped : assembler.cfg.maxChunkMs ≤ assembler.elapsedMs nowNs <;>
            simp [closeFrame, active, speaking, capped]

/-- The closing tests leave the phase the timeline leaves, and publish what it closes. -/
theorem tracks_closeFrame {config : ChunkerConfig D} {frames : List AudioFrame}
    {assembler : ChunkAssembler D} {phase : Phase} (nowNs : UInt64)
    (cfg : assembler.cfg = config) (cap : assembler.preRoll.cap = config.preRollFrames.toNat)
    (seen : assembler.lastSeqSeen = frames.getLast?.map (·.hdr.seq))
    (inPhase : assembler.InPhase frames phase)
    (order : ∀ since, phase = .idle since → since ≤ frames.length) :
    let left := Timeline.leave frames.length assembler.gate.speaking
      (config.maxChunkMs ≤ assembler.elapsedMs nowNs) phase
    Tracks config frames (assembler.closeFrame nowNs).1 left.1 ∧
      Option.Rel (Describes config.maxChunkBytes frames) (assembler.closeFrame nowNs).2 left.2 := by
  subst cfg
  cases phase with
  | idle since =>
      have inactive := inPhase.1
      simp only [closeFrame, Timeline.leave, inactive, Bool.not_false, if_true]
      exact ⟨⟨rfl, cap, rfl, seen, inPhase, order⟩, .none⟩
  | recording start onset =>
      have active := inPhase.1
      have described := describes_closeChunk inPhase
      have idleOrder : ∀ since, Phase.idle frames.length = .idle since →
          since ≤ frames.length := by
        intro since same
        cases same
        exact Nat.le_refl _
      simp only [closeFrame, Timeline.leave, active]
      cases speaking : assembler.gate.speaking with
      | false =>
          simp only [Bool.not_true, Bool.not_false, Bool.false_eq_true, if_true, if_false]
          exact ⟨⟨rfl, cap, rfl, seen, inPhase_closeChunk inPhase .hangover nowNs, idleOrder⟩,
            .some (described .hangover nowNs _ rfl)⟩
      | true =>
          by_cases capped : assembler.cfg.maxChunkMs ≤ assembler.elapsedMs nowNs
          · simp only [Bool.not_true, Bool.false_eq_true, if_false, capped, if_true,
              decide_true]
            have emptied : (assembler.closeChunk .maxLength nowNs).1.preRoll.Holds [] :=
              inPhase.2.1
            have reopened : ((assembler.closeChunk .maxLength nowNs).1.openChunk nowNs).InPhase
                frames (.recording frames.length none) := inPhase_openChunk emptied nowNs
            exact ⟨⟨rfl, cap, rfl, seen, reopened, fun _ absent => by cases absent⟩,
              .some (described .maxLength nowNs _ rfl)⟩
          · simp only [Bool.not_true, Bool.false_eq_true, if_false, capped, decide_false]
            exact ⟨⟨rfl, cap, rfl, seen, inPhase, order⟩, .none⟩

/-- Step lemma: one call keeps assembler and timeline in step. -/
theorem tracks_call {config : ChunkerConfig D} {frames : List AudioFrame}
    {assembler : ChunkAssembler D} {timeline : Timeline}
    (tracks : Tracks config frames assembler timeline) (next : Call) :
    Tracks config (frames ++ next.frame?.toList) (assembler.call next).1
        (timelineStep config timeline (assembler.move next)).1 ∧
      Option.Rel (Describes config.maxChunkBytes (frames ++ next.frame?.toList))
        (assembler.call next).2 (timelineStep config timeline (assembler.move next)).2 := by
  cases next with
  | frame frame nowNs =>
      have entered := entered_gatedState tracks frame nowNs
      have routed := inPhase_routeFrame entered
      have cfg : ((assembler.gatedState frame nowNs).routeFrame frame).cfg = config := by
        simpa using tracks.cfg_eq
      have cap : ((assembler.gatedState frame nowNs).routeFrame frame).preRoll.cap =
          config.preRollFrames.toNat := by
        simpa using tracks.cap_eq
      have order : ∀ since, timeline.enter config.preRollFrames.toNat
          (assembler.gated frame nowNs).1 = .idle since → since ≤ (frames ++ [frame]).length := by
        intro since idle
        rw [idle] at entered
        simpa using Nat.le_succ_of_le entered.2.2
      have closed := tracks_closeFrame nowNs cfg cap (by simp) routed order
      have elapsed := elapsedMs_prepared assembler frame nowNs
      simp only [prepared] at elapsed
      simp only [elapsed, gate_routeFrame, gate_gatedState, List.length_append,
        List.length_singleton, ← tracks.received] at closed
      simpa only [call, onFrame_eq, move, tracks.cfg_eq, timelineStep, Timeline.step,
        Call.frame?, Option.toList_some] using closed
  | flush nowNs =>
      have inPhase := tracks.inPhase
      obtain ⟨received, phase⟩ := timeline
      have counted : received = frames.length := tracks.received
      subst counted
      simp only [Call.frame?, Option.toList_none, List.append_nil]
      cases phase with
      | idle since =>
          have inactive := inPhase.1
          simp only [call, flush, inactive, Bool.not_false, if_true]
          exact ⟨tracks, .none⟩
      | recording start onset =>
          have active := inPhase.1
          have described := describes_closeChunk inPhase .streamEnd nowNs _ rfl
          rw [tracks.cfg_eq] at described
          simp only [call, flush, active, Bool.not_true, Bool.false_eq_true, if_false]
          refine ⟨⟨tracks.cfg_eq, tracks.cap_eq, rfl, tracks.lastSeqSeen,
            inPhase_closeChunk inPhase .streamEnd nowNs, ?_⟩, .some described⟩
          intro since same
          cases same
          exact Nat.le_refl _

/-- Run lemma: after any history the assembler refines the timeline. -/
theorem tracks_after (config : ChunkerConfig D) (calls : List Call) :
    Tracks config (receivedFrames calls) (after config calls) (timeline config calls) := by
  induction calls using List.reverseRecOn with
  | nil => exact tracks_make config
  | append_singleton calls next ih =>
      have stepped := (tracks_call ih next).1
      rw [after_snoc, timeline_snoc, receivedFrames_append]
      cases next <;> exact stepped

/-- Every event of a history is the record of the interval the timeline closes there. -/
theorem events_described (config : ChunkerConfig D) (calls : List Call) :
    List.Forall₂ (Option.Rel (Describes config.maxChunkBytes (receivedFrames calls)))
      (events config calls) (ledger config calls) := by
  induction calls using List.reverseRecOn with
  | nil => exact .nil
  | append_singleton calls next ih =>
      have stepped := (tracks_call (tracks_after config calls) next).2
      rw [events_snoc, ledger_snoc]
      refine List.rel_append (List.Forall₂.imp ?_ ih) (.cons ?_ .nil)
      · intro event closing related
        rw [receivedFrames_append]
        cases related with
        | none => exact .none
        | some described => exact .some (described.append _)
      · rw [receivedFrames_append]
        cases next <;> exact stepped

end

end ChunkAssembler

end VoiceHotPath
