import VoiceHotPath.Vad.Refinement
import VoiceHotPath.Vad.Scenario

/-!
# The audio behind a published chunk

An event announces bytes that the consumer reads from the assembler right after
the call.  They are there unless the call has already reopened the buffer for
the chunk that continues a capped one.
-/

namespace VoiceHotPath

namespace ChunkAssembler

section

variable {D : Type} [Double D]

/-- The frames of the chunk a call closes. -/
def chunkFrames (config : ChunkerConfig D) (past : List Call) (next : Call) : List AudioFrame :=
  match closingOf config past next with
  | some closing =>
      slice (receivedFrames (past ++ [next])) closing.start closing.stop
  | none => []

/-- The call closes its chunk at the cap while the gate is still speaking. -/
def forceFlushes (assembler : ChunkAssembler D) (next : Call) : Bool :=
  match assembler.move next with
  | .frame _ speaking capped => speaking && capped
  | .flush => false

/-- The announced audio can be read back: size and bytes are those of the frames. -/
structure AudioPublished (event : ChunkEvent) (frames : List AudioFrame)
    (assembler : ChunkAssembler D) : Prop where
  size_eq_byteCount : assembler.chunkSize = event.byteCount.toNat
  size_eq_total : assembler.chunkSize = totalBytes frames
  data_eq : assembler.chunkData = frames.flatMap AudioFrame.audio

/-- The record closed by a call is that of the chunk's frames. -/
theorem carries_prepared {config : ChunkerConfig D} {past : List Call} {next : Call}
    {closing : Closing} (closed : closingOf config past next = some closing) :
    ((after config past).prepared next).Carries (chunkFrames config past next) ∧
      ((after config past).prepared next).cfg = config := by
  have tracks := tracks_after config past
  unfold chunkFrames
  rw [closed]
  unfold closingOf at closed
  cases next with
  | frame frame nowNs =>
      have routed := inPhase_routeFrame (entered_gatedState tracks frame nowNs)
      refine ⟨?_, by simpa [prepared] using tracks.cfg_eq⟩
      simp only [timelineStep, move, Timeline.step, tracks.received] at closed
      cases phase : (timeline config past).enter config.preRollFrames.toNat
          ((after config past).gated frame nowNs).1 with
      | idle since => simp [Timeline.leave, phase] at closed
      | recording start onset =>
          rw [phase] at routed closed
          obtain ⟨_, _, same, rfl, _⟩ := Timeline.leave_eq_some closed
          cases same
          have received : receivedFrames (past ++ [.frame frame nowNs]) =
              receivedFrames past ++ [frame] := by
            rw [receivedFrames_append]
            rfl
          have present : (receivedFrames past).length + 1 =
              (receivedFrames past ++ [frame]).length := by
            simp
          simp only [received, present, slice_to_end]
          exact routed.2.2.1
  | flush nowNs =>
      refine ⟨?_, tracks.cfg_eq⟩
      have inPhase := tracks.inPhase
      have received : receivedFrames (past ++ [.flush nowNs]) = receivedFrames past := by
        rw [receivedFrames_append]
        exact List.append_nil _
      cases phase : (timeline config past).phase with
      | idle since => simp [timelineStep, move, Timeline.step, phase] at closed
      | recording start onset =>
          rw [phase] at inPhase
          simp only [timelineStep, move, Timeline.step, phase, Option.some.injEq] at closed
          cases closed
          simp only [received, tracks.received, slice_to_end]
          exact inPhase.2.2.1

/-- A closing call leaves the buffer as it was, unless it has already reopened it. -/
theorem buffer_after_close {assembler : ChunkAssembler D} {next : Call} {event : ChunkEvent}
    (published : (assembler.call next).2 = some event) :
    event.byteCount = UInt32.ofNat (assembler.prepared next).buffer.length ∧
      (assembler.call next).1.buffer =
        if assembler.forceFlushes next then [] else (assembler.prepared next).buffer := by
  cases next with
  | frame frame nowNs =>
      have elapsed := elapsedMs_prepared assembler frame nowNs
      have speaking : (assembler.prepared (.frame frame nowNs)).gate.speaking =
          (assembler.gated frame nowNs).2.speaking := by
        simp [prepared]
      have cfg : (assembler.prepared (.frame frame nowNs)).cfg = assembler.cfg := by
        simp [prepared]
      change ((assembler.prepared (.frame frame nowNs)).closeFrame nowNs).2 = some event
        at published
      change _ ∧ ((assembler.prepared (.frame frame nowNs)).closeFrame nowNs).1.buffer = _
      obtain ⟨-, closed⟩ | ⟨-, ended, closed⟩ | ⟨-, going, capped, closed⟩ | ⟨-, -, -, closed⟩ :=
        closeFrame_cases (assembler.prepared (.frame frame nowNs)) nowNs
      · rw [closed] at published
        cases published
      · rw [closed] at published ⊢
        cases published
        rw [speaking] at ended
        simp [forceFlushes, move, ended, closeChunk]
      · rw [closed] at published ⊢
        cases published
        rw [speaking] at going
        rw [cfg, elapsed] at capped
        simp [forceFlushes, move, going, capped, openChunk]
      · rw [closed] at published
        cases published
  | flush nowNs =>
      simp only [call, flush, forceFlushes, move, prepared] at published ⊢
      split at published
      · cases published
      · rename_i active
        cases published
        rw [if_neg active]
        exact ⟨rfl, rfl⟩

theorem closingOf_isSome {config : ChunkerConfig D} {past : List Call} {next : Call}
    {event : ChunkEvent} (published : ((after config past).call next).2 = some event) :
    ∃ closing, closingOf config past next = some closing := by
  have related := (tracks_call (tracks_after config past) next).2
  rw [published] at related
  change Option.Rel _ _ (closingOf config past next) at related
  cases closed : closingOf config past next with
  | none =>
      rw [closed] at related
      cases related
  | some closing => exact ⟨closing, rfl⟩

/--
Exactly when a published chunk carries its audio: its size fits the 32-bit
count, and the call did not force-flush, unless there were no bytes to lose.
-/
theorem audioPublished_iff {config : ChunkerConfig D} {past : List Call} {next : Call}
    {event : ChunkEvent} (published : ((after config past).call next).2 = some event)
    (fits : totalBytes (chunkFrames config past next) ≤ config.maxChunkBytes) :
    AudioPublished event (chunkFrames config past next) ((after config past).call next).1 ↔
      totalBytes (chunkFrames config past next) < 2 ^ 32 ∧
        ((after config past).forceFlushes next = false ∨
          totalBytes (chunkFrames config past next) = 0) := by
  obtain ⟨closing, closed⟩ := closingOf_isSome published
  obtain ⟨carries, cfg⟩ := carries_prepared closed
  obtain ⟨count, buffer⟩ := buffer_after_close published
  have filled := carries.buffer
  rw [cfg] at filled
  obtain ⟨bytes, length⟩ := fillBuffer_of_fits fits
  rw [filled, length] at count
  rw [filled, bytes] at buffer
  rw [bytes] at length
  have announced : event.byteCount.toNat =
      totalBytes (chunkFrames config past next) % 2 ^ 32 := by
    rw [count]
    exact UInt32.toNat_ofNat'
  constructor
  · rintro ⟨sizeCount, sizeTotal, -⟩
    simp only [chunkSize, buffer] at sizeCount sizeTotal
    have wide : totalBytes (chunkFrames config past next) < 2 ^ 32 := by
      rw [← sizeTotal, sizeCount]
      exact UInt32.toNat_lt _
    refine ⟨wide, ?_⟩
    cases flushed : (after config past).forceFlushes next with
    | false => exact Or.inl rfl
    | true =>
        rw [flushed] at sizeTotal
        exact Or.inr sizeTotal.symm
  · rintro ⟨wide, kept⟩
    have same : ((after config past).call next).1.buffer =
        (chunkFrames config past next).flatMap AudioFrame.audio := by
      rw [buffer]
      rcases kept with kept | empty
      · rw [kept]
        rfl
      · have nothing : (chunkFrames config past next).flatMap AudioFrame.audio = [] :=
          List.length_eq_zero_iff.mp (length.trans empty)
        rw [nothing]
        split <;> rfl
    have size : ((after config past).call next).1.buffer.length =
        totalBytes (chunkFrames config past next) := by
      rw [same]
      exact length
    refine ⟨?_, size, same⟩
    rw [announced, Nat.mod_eq_of_lt wide]
    exact size

end

section

open Scenario

/-- Four tones; a fifth one reaches the cap of `shortConfig`. -/
def cappedSpeech : List Call :=
  [.frame (toneFrame 0) 0, .frame (toneFrame 1) 20000000, .frame (toneFrame 2) 40000000,
    .frame (toneFrame 3) 60000000]

/-- The event the fifth tone publishes. -/
def cappedEvent : ChunkEvent :=
  { lastSeq := 4
    tFirstFrameNs := 1000
    tSpeechStartNs := 20000000
    tEndpointNs := 80000000
    frameCount := 5
    byteCount := 10
    reason := .maxLength }

/-- The capped chunk announces ten bytes, and the buffer is already empty. -/
theorem audioPublished_fails_at_cap :
    ((after shortConfig cappedSpeech).call (.frame (toneFrame 4) 80000000)).2 =
        some cappedEvent ∧
      totalBytes (chunkFrames shortConfig cappedSpeech (.frame (toneFrame 4) 80000000)) ≤
        shortConfig.maxChunkBytes ∧
      ¬ AudioPublished cappedEvent
        (chunkFrames shortConfig cappedSpeech (.frame (toneFrame 4) 80000000))
        ((after shortConfig cappedSpeech).call (.frame (toneFrame 4) 80000000)).1 := by
  refine ⟨by decide +kernel, by decide +kernel, ?_⟩
  rintro ⟨size, -, -⟩
  revert size
  decide +kernel

/-- On a flush of the same speech the audio is published. -/
theorem audioPublished_iff_flush :
    AudioPublished
      (((after shortConfig cappedSpeech).call (.flush 80000000)).2.get (by decide +kernel))
      (chunkFrames shortConfig cappedSpeech (.flush 80000000))
      ((after shortConfig cappedSpeech).call (.flush 80000000)).1 :=
  (audioPublished_iff (Option.some_get _).symm (by decide +kernel)).mpr
    ⟨by decide +kernel, Or.inl (by decide +kernel)⟩

end

end ChunkAssembler

end VoiceHotPath
