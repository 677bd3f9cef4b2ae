import Mathlib.Data.UInt
import VoiceHotPath.Vad.Assembler

/-!
# The record of an open chunk

Three places write the record of an open chunk: opening it, draining the
pre-roll into it and appending to it.  Whatever the order, the record is a
function of the frames appended since the chunk was opened.
-/

namespace VoiceHotPath

/-- The frames at the positions `[start, stop)`. -/
def slice (frames : List AudioFrame) (start stop : Nat) : List AudioFrame :=
  (frames.drop start).take (stop - start)

theorem slice_append {frames : List AudioFrame} {start stop : Nat} (inside : stop ≤ frames.length)
    (later : List AudioFrame) : slice (frames ++ later) start stop = slice frames start stop := by
  unfold slice
  by_cases order : start ≤ frames.length
  · rw [List.drop_append_of_le_length order, List.take_append_of_le_length]
    rw [List.length_drop]
    omega
  · have empty : stop - start = 0 := by omega
    simp [empty]

theorem length_slice {frames : List AudioFrame} {start stop : Nat} (inside : stop ≤ frames.length) :
    (slice frames start stop).length = stop - start := by
  simp only [slice, List.length_take, List.length_drop]
  omega

theorem slice_to_end (frames : List AudioFrame) (start : Nat) :
    slice frames start frames.length = frames.drop start := by
  simp [slice, ← List.length_drop]

/-- The most recent frames of a tail are a shorter tail. -/
theorem rtake_drop {frames : List AudioFrame} {since : Nat} (order : since ≤ frames.length)
    (count : Nat) :
    (frames.drop since).rtake count =
      frames.drop (frames.length - min count (frames.length - since)) := by
  unfold List.rtake
  rw [List.drop_drop, List.length_drop]
  congr 1
  omega

/-- Upstream frames missing just before the frame at a position. -/
def gapBefore (frames : List AudioFrame) : Nat → UInt32
  | 0 => 0
  | i + 1 =>
      match frames[i]?, frames[i + 1]? with
      | some before, some after =>
          if before.hdr.seq + 1 < after.hdr.seq then
            (after.hdr.seq - before.hdr.seq - 1).toUInt32
          else 0
      | _, _ => 0

/-- The wrapping sum of the gaps just before the positions `[start, stop)`. -/
def gapsBetween (frames : List AudioFrame) (start stop : Nat) : UInt32 :=
  ((List.range' start (stop - start)).map (gapBefore frames)).sum

theorem gapBefore_append {frames : List AudioFrame} {i : Nat} (inside : i < frames.length)
    (later : List AudioFrame) : gapBefore (frames ++ later) i = gapBefore frames i := by
  cases i with
  | zero => rfl
  | succ i =>
      simp only [gapBefore]
      rw [List.getElem?_append_left inside, List.getElem?_append_left (by omega)]

theorem gapsBetween_append {frames : List AudioFrame} {start stop : Nat}
    (inside : stop ≤ frames.length) (later : List AudioFrame) :
    gapsBetween (frames ++ later) start stop = gapsBetween frames start stop := by
  unfold gapsBetween
  congr 1
  apply List.map_congr_left
  intro i mem
  have bounds := List.mem_range'_1.mp mem
  exact gapBefore_append (by omega) later

@[simp] theorem gapsBetween_self (frames : List AudioFrame) (start : Nat) :
    gapsBetween frames start start = 0 := by
  simp [gapsBetween]

theorem gapsBetween_succ (frames : List AudioFrame) {start stop : Nat} (order : start ≤ stop) :
    gapsBetween frames start (stop + 1) =
      gapsBetween frames start stop + gapBefore frames stop := by
  unfold gapsBetween
  have width : stop + 1 - start = stop - start + 1 := by omega
  have last : start + (stop - start) = stop := by omega
  rw [width, List.range'_concat]
  simp [last]

/-- The chunk buffer after appending frames in order, each only if it fits whole. -/
def fillBuffer (maxBytes : Nat) (frames : List AudioFrame) : List UInt8 :=
  frames.foldl (fun buffer frame =>
    if buffer.length + frame.hdr.byteLen.toNat ≤ maxBytes then buffer ++ frame.audio
    else buffer) []

theorem fillBuffer_snoc (maxBytes : Nat) (frames : List AudioFrame) (frame : AudioFrame) :
    fillBuffer maxBytes (frames ++ [frame]) =
      if (fillBuffer maxBytes frames).length + frame.hdr.byteLen.toNat ≤ maxBytes then
        fillBuffer maxBytes frames ++ frame.audio
      else fillBuffer maxBytes frames := by
  unfold fillBuffer
  rw [List.foldl_append]
  rfl

/-- Bytes a list of frames announces. -/
def totalBytes (frames : List AudioFrame) : Nat :=
  (frames.map fun frame => frame.hdr.byteLen.toNat).sum

/-- While the announced bytes fit, the buffer is the in-order concatenation. -/
theorem fillBuffer_of_fits {maxBytes : Nat} {frames : List AudioFrame}
    (fits : totalBytes frames ≤ maxBytes) :
    fillBuffer maxBytes frames = frames.flatMap AudioFrame.audio ∧
      (fillBuffer maxBytes frames).length = totalBytes frames := by
  induction frames using List.reverseRecOn with
  | nil => exact ⟨rfl, rfl⟩
  | append_singleton frames frame ih =>
      have total : totalBytes (frames ++ [frame]) =
          totalBytes frames + frame.hdr.byteLen.toNat := by
        simp [totalBytes]
      obtain ⟨bytes, length⟩ := ih (by omega)
      rw [fillBuffer_snoc, if_pos (by omega)]
      refine ⟨?_, ?_⟩
      · simp [bytes]
      · simp [length, total]

namespace ChunkAssembler

section

variable {D : Type}

/-! ## What each operation leaves alone -/

/-- Every field that is not part of the open chunk's record survives `append`. -/
theorem append_eq (assembler : ChunkAssembler D) (frame : AudioFrame) :
    assembler.append frame =
      { assembler with
        buffer :=
          if assembler.buffer.length + frame.hdr.byteLen.toNat ≤ assembler.cfg.maxChunkBytes then
            assembler.buffer ++ frame.audio
          else assembler.buffer
        firstSeq := if assembler.haveFirst then assembler.firstSeq else frame.hdr.seq
        tFirstFrameNs :=
          if assembler.haveFirst then assembler.tFirstFrameNs else frame.hdr.tProduceNs
        format := if assembler.haveFirst then assembler.format else frame.hdr.format
        haveFirst := true
        lastSeq := frame.hdr.seq
        frameCount := assembler.frameCount + 1 } := by
  unfold append AudioFrame.audio
  dsimp only
  cases first : assembler.haveFirst <;> split <;> simp [first]

@[simp] theorem cfg_append (assembler : ChunkAssembler D) (frame : AudioFrame) :
    (assembler.append frame).cfg = assembler.cfg := by
  rw [append_eq]

@[simp] theorem gate_append (assembler : ChunkAssembler D) (frame : AudioFrame) :
    (assembler.append frame).gate = assembler.gate := by
  rw [append_eq]

@[simp] theorem preRoll_append (assembler : ChunkAssembler D) (frame : AudioFrame) :
    (assembler.append frame).preRoll = assembler.preRoll := by
  rw [append_eq]

@[simp] theorem lastSeqSeen_append (assembler : ChunkAssembler D) (frame : AudioFrame) :
    (assembler.append frame).lastSeqSeen = assembler.lastSeqSeen := by
  rw [append_eq]

@[simp] theorem nextChunkId_append (assembler : ChunkAssembler D) (frame : AudioFrame) :
    (assembler.append frame).nextChunkId = assembler.nextChunkId := by
  rw [append_eq]

@[simp] theorem tSpeechStartNs_append (assembler : ChunkAssembler D) (frame : AudioFrame) :
    (assembler.append frame).tSpeechStartNs = assembler.tSpeechStartNs := by
  rw [append_eq]

@[simp] theorem gapFrames_append (assembler : ChunkAssembler D) (frame : AudioFrame) :
    (assembler.append frame).gapFrames = assembler.gapFrames := by
  rw [append_eq]

@[simp] theorem active_append (assembler : ChunkAssembler D) (frame : AudioFrame) :
    (assembler.append frame).active = assembler.active := by
  rw [append_eq]

/-- The open chunk's record is exactly that of `frames`. -/
structure Carries (assembler : ChunkAssembler D) (frames : List AudioFrame) : Prop where
  frameCount : assembler.frameCount = UInt32.ofNat frames.length
  haveFirst : assembler.haveFirst = !frames.isEmpty
  firstSeq : assembler.firstSeq = (frames.head?.map (·.hdr.seq)).getD 0
  lastSeq : assembler.lastSeq = (frames.getLast?.map (·.hdr.seq)).getD 0
  tFirstFrameNs : assembler.tFirstFrameNs =
    (frames.head?.map (·.hdr.tProduceNs)).getD assembler.tSpeechStartNs
  format : ∀ first, frames.head? = some first → assembler.format = first.hdr.format
  buffer : assembler.buffer = fillBuffer assembler.cfg.maxChunkBytes frames

theorem carries_openChunk (assembler : ChunkAssembler D) (nowNs : UInt64) :
    (assembler.openChunk nowNs).Carries [] :=
  ⟨rfl, rfl, rfl, rfl, rfl, (fun _ absent => by cases absent), rfl⟩

theorem Carries.append {assembler : ChunkAssembler D} {frames : List AudioFrame}
    (carries : assembler.Carries frames) (frame : AudioFrame) :
    (assembler.append frame).Carries (frames ++ [frame]) := by
  have first := carries.haveFirst
  rw [append_eq]
  refine ⟨?_, by simp, ?_, by simp, ?_, ?_, ?_⟩
  · simp [carries.frameCount, UInt32.ofNat_add]
  · cases frames <;> simp_all [carries.firstSeq]
  · cases frames <;> simp_all [carries.tFirstFrameNs]
  · intro head same
    cases frames with
    | nil => simp_all
    | cons f fs => simpa [first] using carries.format head (by simpa using same)
  · simp only [carries.buffer, fillBuffer_snoc]

theorem Carries.foldl_append {assembler : ChunkAssembler D} {frames : List AudioFrame}
    (carries : assembler.Carries frames) (more : List AudioFrame) :
    (more.foldl ChunkAssembler.append assembler).Carries (frames ++ more) := by
  induction more generalizing assembler frames with
  | nil => simpa using carries
  | cons frame rest ih => simpa [List.append_assoc] using ih (carries.append frame)

/-- A field that `append` leaves alone survives appending any list of frames. -/
theorem foldl_append_keeps {β : Type} (field : ChunkAssembler D → β)
    (keeps : ∀ assembler frame, field (append assembler frame) = field assembler)
    (frames : List AudioFrame) (assembler : ChunkAssembler D) :
    field (frames.foldl append assembler) = field assembler := by
  induction frames generalizing assembler with
  | nil => rfl
  | cons frame rest ih => rw [List.foldl_cons, ih, keeps]

/-- The state after `open_chunk` and `flush_pre_roll`. -/
def openOnPreRoll (assembler : ChunkAssembler D) (nowNs : UInt64) : ChunkAssembler D :=
  (assembler.openChunk nowNs).flushPreRoll

theorem carries_openOnPreRoll (assembler : ChunkAssembler D) (nowNs : UInt64) :
    (assembler.openOnPreRoll nowNs).Carries assembler.preRoll.contents := by
  have filled := (carries_openChunk assembler nowNs).foldl_append assembler.preRoll.contents
  exact ⟨filled.1, filled.2, filled.3, filled.4, filled.5, filled.6, filled.7⟩

@[simp] theorem cfg_openOnPreRoll (assembler : ChunkAssembler D) (nowNs : UInt64) :
    (assembler.openOnPreRoll nowNs).cfg = assembler.cfg :=
  foldl_append_keeps (·.cfg) cfg_append _ _

@[simp] theorem gate_openOnPreRoll (assembler : ChunkAssembler D) (nowNs : UInt64) :
    (assembler.openOnPreRoll nowNs).gate = assembler.gate :=
  foldl_append_keeps (·.gate) gate_append _ _

@[simp] theorem preRoll_openOnPreRoll (assembler : ChunkAssembler D) (nowNs : UInt64) :
    (assembler.openOnPreRoll nowNs).preRoll = assembler.preRoll.clear := by
  have kept := foldl_append_keeps (·.preRoll) preRoll_append
    assembler.preRoll.contents (assembler.openChunk nowNs)
  exact congrArg OverwriteRing.clear kept

@[simp] theorem lastSeqSeen_openOnPreRoll (assembler : ChunkAssembler D) (nowNs : UInt64) :
    (assembler.openOnPreRoll nowNs).lastSeqSeen = assembler.lastSeqSeen :=
  foldl_append_keeps (·.lastSeqSeen) lastSeqSeen_append _ _

@[simp] theorem nextChunkId_openOnPreRoll (assembler : ChunkAssembler D) (nowNs : UInt64) :
    (assembler.openOnPreRoll nowNs).nextChunkId = assembler.nextChunkId :=
  foldl_append_keeps (·.nextChunkId) nextChunkId_append _ _

@[simp] theorem tSpeechStartNs_openOnPreRoll (assembler : ChunkAssembler D) (nowNs : UInt64) :
    (assembler.openOnPreRoll nowNs).tSpeechStartNs = nowNs :=
  foldl_append_keeps (·.tSpeechStartNs) tSpeechStartNs_append _ _

@[simp] theorem gapFrames_openOnPreRoll (assembler : ChunkAssembler D) (nowNs : UInt64) :
    (assembler.openOnPreRoll nowNs).gapFrames = 0 :=
  foldl_append_keeps (·.gapFrames) gapFrames_append _ _

@[simp] theorem active_openOnPreRoll (assembler : ChunkAssembler D) (nowNs : UInt64) :
    (assembler.openOnPreRoll nowNs).active = true :=
  foldl_append_keeps (·.active) active_append _ _

/-- Only the gap counter and the last sequence number notice an arrival. -/
theorem countGap_eq (assembler : ChunkAssembler D) (seq : UInt64) :
    assembler.countGap seq =
      { assembler with
        gapFrames := assembler.gapFrames +
          match assembler.lastSeqSeen with
          | some last => if last + 1 < seq then (seq - last - 1).toUInt32 else 0
          | none => 0
        lastSeqSeen := some seq } := by
  unfold countGap
  cases seen : assembler.lastSeqSeen with
  | none => simp
  | some last =>
      dsimp only
      split <;> simp

@[simp] theorem cfg_routeFrame (assembler : ChunkAssembler D) (frame : AudioFrame) :
    (assembler.routeFrame frame).cfg = assembler.cfg := by
  unfold routeFrame
  split <;> simp

@[simp] theorem gate_routeFrame (assembler : ChunkAssembler D) (frame : AudioFrame) :
    (assembler.routeFrame frame).gate = assembler.gate := by
  unfold routeFrame
  split <;> simp

@[simp] theorem cap_routeFrame (assembler : ChunkAssembler D) (frame : AudioFrame) :
    (assembler.routeFrame frame).preRoll.cap = assembler.preRoll.cap := by
  unfold routeFrame
  split <;> simp

@[simp] theorem lastSeqSeen_routeFrame (assembler : ChunkAssembler D) (frame : AudioFrame) :
    (assembler.routeFrame frame).lastSeqSeen = assembler.lastSeqSeen := by
  unfold routeFrame
  split <;> simp

@[simp] theorem tSpeechStartNs_routeFrame (assembler : ChunkAssembler D) (frame : AudioFrame) :
    (assembler.routeFrame frame).tSpeechStartNs = assembler.tSpeechStartNs := by
  unfold routeFrame
  split <;> simp

@[simp] theorem active_routeFrame (assembler : ChunkAssembler D) (frame : AudioFrame) :
    (assembler.routeFrame frame).active = assembler.active := by
  unfold routeFrame
  split <;> simp

@[simp] theorem nextChunkId_routeFrame (assembler : ChunkAssembler D) (frame : AudioFrame) :
    (assembler.routeFrame frame).nextChunkId = assembler.nextChunkId := by
  unfold routeFrame
  split <;> simp

end

end ChunkAssembler

end VoiceHotPath
