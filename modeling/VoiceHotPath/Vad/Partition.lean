import VoiceHotPath.Vad.Refinement
import VoiceHotPath.Vad.Scenario

/-!
# Chunks partition the input

Over a stream of frames ended by one flush, the published events describe
disjoint contiguous blocks of the input, in order; where a block begins is
determined by the onset frame and the pre-roll, or by the capped block it
continues.
-/

namespace VoiceHotPath

/-- Frames with the times at which they are dequeued. -/
abbrev Stream := List (AudioFrame × UInt64)

namespace Stream

def frames (stream : Stream) : List AudioFrame :=
  stream.map Prod.fst

def calls (stream : Stream) : List Call :=
  stream.map fun input => .frame input.1 input.2

/-- A stream ended by one flush. -/
def flushed (stream : Stream) (endNs : UInt64) : List Call :=
  stream.calls ++ [.flush endNs]

@[simp] theorem receivedFrames_calls (stream : Stream) :
    receivedFrames stream.calls = stream.frames := by
  induction stream with
  | nil => rfl
  | cons input rest ih =>
      change input.1 :: receivedFrames (Stream.calls rest) = _
      rw [ih]
      rfl

@[simp] theorem receivedFrames_flushed (stream : Stream) (endNs : UInt64) :
    receivedFrames (stream.flushed endNs) = stream.frames := by
  unfold flushed
  rw [receivedFrames_append, receivedFrames_calls]
  exact List.append_nil _

@[simp] theorem length_calls (stream : Stream) : stream.calls.length = stream.length :=
  List.length_map _

theorem calls_take (stream : Stream) (i : Nat) :
    stream.calls.take i = Stream.calls (stream.take i) := by
  simp [calls, List.map_take]

theorem calls_snoc (stream : Stream) (frame : AudioFrame) (nowNs : UInt64) :
    calls (stream ++ [(frame, nowNs)]) = stream.calls ++ [.frame frame nowNs] := by
  simp [calls]

theorem frames_snoc (stream : Stream) (frame : AudioFrame) (nowNs : UInt64) :
    frames (stream ++ [(frame, nowNs)]) = stream.frames ++ [frame] := by
  simp [frames]

end Stream

namespace ChunkAssembler

section

variable {D : Type} [Double D]

/-- The call after `before` runs the gate on a frame, and its onset opens a chunk. -/
def OnsetAfter (config : ChunkerConfig D) (before : List Call) (next : Call) : Prop :=
  ∃ frame nowNs, next = .frame frame nowNs ∧ (after config before).opens frame nowNs = true

/-- The frame at a position opened a chunk when it was received. -/
def OnsetAt (config : ChunkerConfig D) (calls : List Call) (position : Nat) : Prop :=
  ∃ before next rest, calls = before ++ next :: rest ∧
    (receivedFrames before).length = position ∧ OnsetAfter config before next

theorem OnsetAt.snoc {config : ChunkerConfig D} {calls : List Call} {position : Nat}
    (onset : OnsetAt config calls position) (next : Call) :
    OnsetAt config (calls ++ [next]) position := by
  obtain ⟨before, opener, rest, rfl, rest'⟩ := onset
  exact ⟨before, opener, rest ++ [next], by simp, rest'⟩

/-- The phase entered on a frame names a frame that opened a chunk. -/
theorem onsetAt_enter {config : ChunkerConfig D} {calls : List Call} {frame : AudioFrame}
    {nowNs : UInt64} {position : Nat}
    (before : ∀ position, Timeline.Phase.onset? (timeline config calls).phase = some position →
      OnsetAt config calls position)
    (opened : Timeline.Phase.onset? ((timeline config calls).enter config.preRollFrames.toNat
      ((after config calls).gated frame nowNs).1) = some position) :
    OnsetAt config (calls ++ [.frame frame nowNs]) position := by
  have tracks := tracks_after config calls
  rcases Timeline.enter_onset opened with carried | ⟨onset, here, since, idle⟩
  · exact (before position carried).snoc _
  · have inPhase := tracks.inPhase
    rw [idle] at inPhase
    have opens : (after config calls).opens frame nowNs = true := by
      simp [opens, onset, inPhase.1]
    exact ⟨calls, _, [], rfl, by rw [here, tracks.received], frame, nowNs, rfl, opens⟩

/-- Every onset the timeline remembers belongs to a frame that opened a chunk. -/
theorem onsetAt_phase (config : ChunkerConfig D) (calls : List Call) (position : Nat)
    (opened : Timeline.Phase.onset? (timeline config calls).phase = some position) :
    OnsetAt config calls position := by
  induction calls using List.reverseRecOn generalizing position with
  | nil => cases opened
  | append_singleton calls next ih =>
      rw [timeline_snoc] at opened
      cases next with
      | frame frame nowNs =>
          simp only [timelineStep, move, Timeline.step] at opened
          exact onsetAt_enter ih (Timeline.leave_onset opened)
      | flush nowNs =>
          simp only [timelineStep, move, Timeline.step] at opened
          split at opened
          · exact (ih position opened).snoc _
          · cases opened

/-- What the ledger records for a call: where its chunk stops and what opened it. -/
theorem closing_of_call {config : ChunkerConfig D} {past : List Call} {next : Call}
    {closing : Closing}
    (closed : closingOf config past next = some closing) :
    closing.stop = (receivedFrames (past ++ [next])).length ∧
      ∀ position, closing.onset = some position → OnsetAt config (past ++ [next]) position := by
  have received := (tracks_after config past).received
  unfold closingOf at closed
  cases next with
  | frame frame nowNs =>
      simp only [timelineStep, move, Timeline.step] at closed
      obtain ⟨start, onset, phase, rfl, -⟩ := Timeline.leave_eq_some closed
      refine ⟨?_, fun position same => onsetAt_enter (onsetAt_phase config past) ?_⟩
      · simp [received, receivedFrames, Call.frame?]
      · rw [phase]
        exact same
  | flush nowNs =>
      simp only [timelineStep, move, Timeline.step] at closed
      split at closed
      · cases closed
      · rename_i start onset phase
        cases closed
        refine ⟨by simp [received, receivedFrames, Call.frame?], fun position same => ?_⟩
        exact (onsetAt_phase config past position (by rw [phase]; exact same)).snoc _

/-- The intervals of any history are chained. -/
theorem ledger_chained (config : ChunkerConfig D) (calls : List Call) :
    Closing.Chained config.preRollFrames.toNat none ((ledger config calls).filterMap id) :=
  Timeline.closings_chained (Timeline.ready_initial _) _

/-- An event is the record of a block of the received frames. -/
structure RecordsBlock (frames : List AudioFrame) (event : ChunkEvent) (block : Closing) :
    Prop where
  start_le : block.start ≤ block.stop
  stop_le : block.stop ≤ frames.length
  frameCount : event.frameCount = UInt32.ofNat (block.stop - block.start)
  reason : event.reason = block.reason
  ends : block.start < block.stop → ∃ first last,
    frames[block.start]? = some first ∧ frames[block.stop - 1]? = some last ∧
      event.firstSeq = first.hdr.seq ∧ event.lastSeq = last.hdr.seq

/-- A nonempty block's first and last frames are the ends of its slice. -/
theorem recordsBlock_of_describes {maxBytes : Nat} {frames : List AudioFrame}
    {event : ChunkEvent} {block : Closing} (order : block.start ≤ block.stop)
    (describes : Describes maxBytes frames event block) : RecordsBlock frames event block := by
  have inside := describes.stop_le
  refine ⟨order, inside, describes.frameCount, describes.reason, ?_⟩
  intro nonempty
  have first : (slice frames block.start block.stop).head? = frames[block.start]? := by
    rw [List.head?_eq_getElem?, slice, List.getElem?_take_of_lt (by omega), List.getElem?_drop]
    simp
  have last : (slice frames block.start block.stop).getLast? = frames[block.stop - 1]? := by
    rw [List.getLast?_eq_getElem?, length_slice inside, slice,
      List.getElem?_take_of_lt (by omega), List.getElem?_drop]
    congr 1
    omega
  have firstSeq := describes.firstSeq
  have lastSeq := describes.lastSeq
  rw [first, List.getElem?_eq_getElem (by omega)] at firstSeq
  rw [last, List.getElem?_eq_getElem (by omega)] at lastSeq
  exact ⟨_, _, List.getElem?_eq_getElem (by omega), List.getElem?_eq_getElem (by omega),
    firstSeq, lastSeq⟩

/-- In a stream, an onset position is the index of the frame that opened a chunk. -/
def StreamOnset (config : ChunkerConfig D) (stream : Stream) (position : Nat) : Prop :=
  ∃ frame nowNs, stream[position]? = some (frame, nowNs) ∧
    (after config (Stream.calls (stream.take position))).opens frame nowNs = true

theorem streamOnset_of_onsetAt (config : ChunkerConfig D) (stream : Stream) (endNs : UInt64)
    (position : Nat) (onset : OnsetAt config (stream.flushed endNs) position) :
    StreamOnset config stream position := by
  obtain ⟨before, _, rest, split, here, frame, nowNs, rfl, opens⟩ := onset
  have index : before.length < (stream.flushed endNs).length := by simp [split]
  have next : (stream.flushed endNs)[before.length]? = some (.frame frame nowNs) := by
    simp [split]
  have inside : before.length < stream.calls.length := by
    by_contra outside
    have last : before.length = stream.calls.length := by
      simp [Stream.flushed] at index outside ⊢
      omega
    rw [last] at next
    simp [Stream.flushed] at next
  have prefixed : before = Stream.calls (stream.take before.length) := by
    have taken : (stream.flushed endNs).take before.length = before := by simp [split]
    rw [Stream.flushed, List.take_append_of_le_length (Nat.le_of_lt inside),
      Stream.calls_take] at taken
    exact taken.symm
  have counted : before.length = position := by
    rw [← here, prefixed, Stream.receivedFrames_calls]
    simp [Stream.frames, Stream.calls]
  rw [counted] at prefixed inside next
  rw [prefixed] at opens
  refine ⟨frame, nowNs, ?_, opens⟩
  rw [Stream.flushed, List.getElem?_append_left inside] at next
  simpa [Stream.calls, List.getElem?_map] using next

/-- The blocks of a stream, one entry for each call, and all that ties them to the input. -/
structure Partitions (config : ChunkerConfig D) (stream : Stream) (endNs : UInt64)
    (blocks : List (Option Closing)) : Prop where
  records : List.Forall₂ (Option.Rel (RecordsBlock stream.frames))
    (events config (stream.flushed endNs)) blocks
  closes : ∀ i block, blocks[i]? = some (some block) → block.stop = min (i + 1) stream.length
  onsets : ∀ block, some block ∈ blocks → ∀ position, block.onset = some position →
    StreamOnset config stream position
  chained : Closing.Chained config.preRollFrames.toNat none (blocks.filterMap id)
  ordered : (blocks.filterMap id).Pairwise fun earlier later => earlier.stop ≤ later.start

theorem partitions_ledger (config : ChunkerConfig D) (stream : Stream) (endNs : UInt64) :
    Partitions config stream endNs (ledger config (stream.flushed endNs)) := by
  have chained := ledger_chained config (stream.flushed endNs)
  have described := events_described config (stream.flushed endNs)
  rw [Stream.receivedFrames_flushed] at described
  have entry : ∀ i block, (ledger config (stream.flushed endNs))[i]? = some (some block) →
      ∃ next, (stream.flushed endNs)[i]? = some next ∧
        closingOf config ((stream.flushed endNs).take i) next = some block := by
    intro i block closed
    rw [ledger_getElem?, Option.map_eq_some_iff] at closed
    exact closed
  refine ⟨?_, ?_, ?_, chained, chained.ordered.2⟩
  · have order := chained.start_le_stop
    rw [List.forall₂_iff_get] at described ⊢
    refine ⟨described.1, fun i here there => ?_⟩
    have related := described.2 i here there
    revert related
    generalize same : (ledger config (stream.flushed endNs)).get ⟨i, there⟩ = closing
    generalize (events config (stream.flushed endNs)).get ⟨i, here⟩ = event
    intro related
    cases related with
    | none => exact .none
    | some describes =>
        refine .some (recordsBlock_of_describes (order _ ?_) describes)
        exact List.mem_filterMap.mpr ⟨_, List.get_mem _ ⟨i, there⟩, same⟩
  · intro i block closed
    obtain ⟨next, here, closing⟩ := entry i block closed
    have prefixed : (stream.flushed endNs).take i ++ [next] =
        (stream.flushed endNs).take (i + 1) := by
      rw [List.take_add_one, here]
      rfl
    rw [(closing_of_call closing).1, prefixed]
    by_cases inside : i + 1 ≤ stream.length
    · rw [Stream.flushed, List.take_append_of_le_length (by simpa using inside),
        Stream.calls_take, Stream.receivedFrames_calls]
      simp [Stream.frames]
    · rw [List.take_of_length_le (by simp [Stream.flushed]; omega),
        Stream.receivedFrames_flushed]
      simp [Stream.frames]
      omega
  · intro block member position same
    obtain ⟨i, inside, closed⟩ := List.mem_iff_getElem.mp member
    obtain ⟨next, here, closing⟩ := entry i block (by rw [List.getElem?_eq_getElem inside, closed])
    obtain ⟨before, opener, rest, split, counted, onset⟩ :=
      (closing_of_call closing).2 position same
    refine streamOnset_of_onsetAt config stream endNs position ⟨before, opener,
      rest ++ (stream.flushed endNs).drop (i + 1), ?_, counted, onset⟩
    calc
      stream.flushed endNs
          = (stream.flushed endNs).take (i + 1) ++ (stream.flushed endNs).drop (i + 1) :=
        (List.take_append_drop _ _).symm
      _ = ((stream.flushed endNs).take i ++ [next]) ++ (stream.flushed endNs).drop (i + 1) := by
        rw [List.take_add_one, here]
        rfl
      _ = before ++ opener :: (rest ++ (stream.flushed endNs).drop (i + 1)) := by
        rw [split]
        simp

/--
Every frame stream is partitioned: events record disjoint blocks in input
order, a block opened by an onset reaches back over the idle frames as far as
the pre-roll allows, and a block after a capped one starts where that stopped.
-/
theorem stream_partitioned (config : ChunkerConfig D) (stream : Stream) (endNs : UInt64)
    (bounded : stream.length < 2 ^ 32) :
    ∃ blocks, Partitions config stream endNs blocks ∧
      List.Forall₂ (Option.Rel fun event block =>
          event.frameCount.toNat = block.stop - block.start)
        (events config (stream.flushed endNs)) blocks := by
  refine ⟨_, partitions_ledger config stream endNs, ?_⟩
  refine List.Forall₂.imp ?_ (partitions_ledger config stream endNs).records
  intro event closing related
  cases related with
  | none => exact .none
  | @some event block records =>
      have inside := records.stop_le
      simp only [Stream.frames, List.length_map] at inside
      refine .some ?_
      rw [records.frameCount, UInt32.toNat_ofNat', Nat.mod_eq_of_lt (by omega)]

end

section

open Scenario

/-- Two utterances: one capped and continued, one ended by the flush. -/
def twoUtterances : Stream :=
  [(silentFrame 0, 0), (toneFrame 1, 20000000), (toneFrame 2, 40000000),
    (toneFrame 3, 60000000), (toneFrame 4, 80000000), (toneFrame 5, 100000000),
    (silentFrame 6, 120000000), (silentFrame 7, 140000000), (silentFrame 8, 160000000),
    (toneFrame 9, 180000000), (toneFrame 10, 200000000)]

theorem stream_partitioned_twoUtterances :
    ∃ blocks, Partitions shortConfig twoUtterances 220000000 blocks ∧
      List.Forall₂ (Option.Rel fun event block =>
          event.frameCount.toNat = block.stop - block.start)
        (events shortConfig (twoUtterances.flushed 220000000)) blocks :=
  stream_partitioned shortConfig twoUtterances 220000000 (by decide)

end

end ChunkAssembler

end VoiceHotPath
