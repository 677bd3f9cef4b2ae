import VoiceHotPath.Consumer.UdsIngest
import VoiceHotPath.Vad.ChunkAudio
import VoiceHotPath.Vad.Scenario

/-!
# The payload bytes the hot path reads

`frame_energy` and `append` read as many payload bytes as the header announces.
The socket checks that number before it hands a frame over; a slot of the shared
ring is handed through as the producer wrote it.
-/

namespace VoiceHotPath

/-- The payload indices `energy_pcm16` reads: two bytes a sample. -/
def energyPcm16Reads (byteLen : Nat) : List Nat :=
  (List.range (byteLen / 2)).flatMap fun i => [i * 2, i * 2 + 1]

def energyMulawReads (byteLen : Nat) : List Nat :=
  List.range byteLen

def frameEnergyReads (frame : AudioFrame) : List Nat :=
  if frame.hdr.format = AudioFormat.mulaw8.code then
    energyMulawReads frame.hdr.byteLen.toNat
  else
    energyPcm16Reads frame.hdr.byteLen.toNat

/-- The energy of a frame depends on the bytes read only. -/
theorem frameEnergy_congr {D : Type} [Double D] {frame other : AudioFrame}
    (hdr : frame.hdr = other.hdr)
    (same : ∀ i ∈ frameEnergyReads frame, frame.payloadAt i = other.payloadAt i) :
    frameEnergy (D := D) frame = frameEnergy other := by
  unfold frameEnergyReads at same
  unfold frameEnergy
  rw [← hdr]
  split
  · rename_i mulaw
    rw [if_pos mulaw] at same
    unfold energyMulaw
    congr 1
    exact List.map_congr_left fun i listed => congrArg mulawToLinear (same i listed)
  · rename_i pcm16
    rw [if_neg pcm16] at same
    unfold energyPcm16
    congr 1
    apply List.map_congr_left
    intro i listed
    have low := same (i * 2) (List.mem_flatMap.mpr ⟨i, listed, by simp⟩)
    have high := same (i * 2 + 1) (List.mem_flatMap.mpr ⟨i, listed, by simp⟩)
    rw [pcm16Sample, pcm16Sample, low, high]

theorem payloadBytes_congr {frame other : AudioFrame} {len : Nat}
    (same : ∀ i ∈ List.range len, frame.payloadAt i = other.payloadAt i) :
    frame.payloadBytes len = other.payloadBytes len :=
  List.map_congr_left same

namespace ChunkAssembler

section

variable {D : Type}

/-- The payload indices `append` copies, if there is room for them. -/
def appendReads (assembler : ChunkAssembler D) (frame : AudioFrame) : List Nat :=
  if assembler.buffer.length + frame.hdr.byteLen.toNat ≤ assembler.cfg.maxChunkBytes then
    List.range frame.hdr.byteLen.toNat
  else []

/-- What `append` leaves of a frame depends on the bytes read only. -/
theorem append_congr (assembler : ChunkAssembler D) {frame other : AudioFrame}
    (hdr : frame.hdr = other.hdr)
    (same : ∀ i ∈ assembler.appendReads frame, frame.payloadAt i = other.payloadAt i) :
    assembler.append frame = assembler.append other := by
  rw [append_eq, append_eq, AudioFrame.audio, AudioFrame.audio, ← hdr]
  by_cases room : assembler.buffer.length + frame.hdr.byteLen.toNat ≤ assembler.cfg.maxChunkBytes
  · rw [appendReads, if_pos room] at same
    rw [payloadBytes_congr same]
  · rw [if_neg room, if_neg room]

/-- The reads of `append` on one frame after the other. -/
def appendAllReads : ChunkAssembler D → List AudioFrame → List (AudioFrame × Nat)
  | _, [] => []
  | assembler, frame :: rest =>
      (assembler.appendReads frame).map (frame, ·) ++ (assembler.append frame).appendAllReads rest

variable [Double D]

/-- The payload reads of `on_frame`, each with the frame it is from: the energy of the
frame, the pre-roll on an onset, the frame itself while a chunk is open. -/
def onFrameReads (assembler : ChunkAssembler D) (frame : AudioFrame) (nowNs : UInt64) :
    List (AudioFrame × Nat) :=
  (frameEnergyReads frame).map (frame, ·) ++
    (if assembler.opens frame nowNs then
      (assembler.openChunk nowNs).appendAllReads assembler.preRoll.contents else []) ++
    if (assembler.gatedState frame nowNs).active then
      ((assembler.gatedState frame nowNs).appendReads frame).map (frame, ·) else []

end

end ChunkAssembler

/-! ## Where the reads are -/

section

variable {D : Type} {frame : AudioFrame}

theorem lt_of_mem_frameEnergyReads {i : Nat} (read : i ∈ frameEnergyReads frame) :
    i < frame.hdr.byteLen.toNat := by
  unfold frameEnergyReads at read
  split at read
  · exact List.mem_range.mp read
  · obtain ⟨j, listed, pair⟩ := List.mem_flatMap.mp read
    have inside := List.mem_range.mp listed
    have cases : i = j * 2 ∨ i = j * 2 + 1 := by simpa using pair
    omega

theorem lt_of_mem_appendReads {assembler : ChunkAssembler D} {i : Nat}
    (read : i ∈ assembler.appendReads frame) : i < frame.hdr.byteLen.toNat := by
  unfold ChunkAssembler.appendReads at read
  split at read
  · exact List.mem_range.mp read
  · cases read

theorem lt_of_mem_appendAllReads {assembler : ChunkAssembler D} {frames : List AudioFrame}
    {read : AudioFrame × Nat} (made : read ∈ assembler.appendAllReads frames) :
    read.1 ∈ frames ∧ read.2 < read.1.hdr.byteLen.toNat := by
  induction frames generalizing assembler with
  | nil => cases made
  | cons frame rest ih =>
      rcases List.mem_append.mp made with first | later
      · obtain ⟨i, read, rfl⟩ := List.mem_map.mp first
        exact ⟨List.mem_cons_self, lt_of_mem_appendReads read⟩
      · obtain ⟨member, inside⟩ := ih later
        exact ⟨List.mem_cons_of_mem _ member, inside⟩

end

section

variable (D : Type) [Double D]

/-- Neither `frame_energy` nor `append` reads past the payload of the frame. -/
structure ReadsWithin (frame : AudioFrame) : Prop where
  energy : ∀ i ∈ frameEnergyReads frame, i < kFramePayloadBytes
  append : ∀ (assembler : ChunkAssembler D), ∀ i ∈ assembler.appendReads frame,
    i < kFramePayloadBytes

/-- Exactly a frame whose length fits the slot is read within its payload. -/
theorem readsWithin_iff_fits (frame : AudioFrame) :
    ReadsWithin D frame ↔ frame.hdr.byteLen.toNat ≤ kFramePayloadBytes := by
  constructor
  · intro within
    -- An assembler with just enough room copies the whole length.
    have copied := within.append (.make { ChunkerConfig.default with
      maxChunkBytes := frame.hdr.byteLen.toNat })
    have room : ChunkAssembler.appendReads (D := D) (.make { ChunkerConfig.default with
        maxChunkBytes := frame.hdr.byteLen.toNat }) frame =
          List.range frame.hdr.byteLen.toNat :=
      if_pos (Nat.le_of_eq (Nat.zero_add _))
    rw [room] at copied
    apply Nat.le_of_not_lt
    intro long
    exact Nat.lt_irrefl _ (copied kFramePayloadBytes (List.mem_range.mpr long))
  · intro fits
    constructor
    · intro i read
      exact Nat.lt_of_lt_of_le (lt_of_mem_frameEnergyReads read) fits
    · intro assembler i read
      exact Nat.lt_of_lt_of_le (lt_of_mem_appendReads read) fits

/-! ## What the ingests deliver -/

namespace Pump

variable {host : Host} {p : Pump}

/-- The frames handed over so far fit their slots. -/
def HandsFitting (p : Pump) : Prop :=
  ∀ frame ∈ p.handed, frame.hdr.byteLen.toNat ≤ kFramePayloadBytes

theorem fits_of_turn {frame : AudioFrame} {need : Nat} (taken : p.turn = .item frame need) :
    frame.hdr.byteLen.toNat ≤ kFramePayloadBytes := by
  unfold turn at taken
  split at taken
  · cases taken
  · dsimp only at taken
    split at taken
    · cases taken
    · rename_i fits
      split at taken
      · cases taken
      · cases taken
        exact Nat.le_of_not_lt fits

theorem byteLen_stamped (now : UInt64) (frame : AudioFrame) :
    (frame.stamped now).hdr.byteLen = frame.hdr.byteLen := by
  unfold AudioFrame.stamped
  split <;> rfl

theorem HandsFitting.scan (fitting : p.HandsFitting) (fuel : Nat) :
    (p.scan host fuel).HandsFitting := by
  induction fuel generalizing p with
  | zero => exact fitting
  | succ fuel ih =>
      unfold Pump.scan
      cases taken : p.turn with
      | more => exact fitting
      | stop => exact fitting
      | item frame need =>
          apply ih
          intro other member
          rcases List.mem_append.mp member with before | last
          · exact fitting other before
          · rw [List.mem_singleton.mp last, byteLen_stamped]
            exact fits_of_turn taken

theorem handed_compact (p : Pump) : p.compact.guardDesync.handed = p.handed := by
  have moved : p.compact.handed = p.handed := by
    unfold compact
    generalize Block.move p.buf 0 p.offset (p.filled - p.offset) = buf
    split <;> rfl
  rw [← moved]
  unfold guardDesync
  split <;> rfl

theorem HandsFitting.onRead (fitting : p.HandsFitting) (bytes : List UInt8) :
    (p.onRead host bytes).HandsFitting := by
  have received : (p.receive bytes).HandsFitting := by
    unfold HandsFitting
    rw [receive_handed]
    exact fitting
  have scanned : (p.scanned host bytes).HandsFitting := received.scan _
  unfold Pump.onRead
  split
  · exact fitting
  · split
    · exact fitting
    · dsimp only
      split
      · exact scanned
      · unfold HandsFitting
        rw [handed_compact]
        exact scanned

/-- Whatever a connection sends, the frames handed over fit their slots. -/
theorem handsFitting (host : Host) (reads : List (List UInt8)) :
    (pump host reads).HandsFitting := by
  induction reads using List.reverseRecOn with
  | nil =>
      have start : Follows host [] [] (some []) {} := follows_start
      have none : (pump host []).handed = [] := start.handed
      intro frame absent
      rw [none] at absent
      cases absent
  | append_singleton reads bytes ih =>
      unfold pump
      rw [List.foldl_append]
      exact ih.onRead bytes

end Pump

/-- The pre-roll holds frames received. -/
theorem ChunkAssembler.mem_received_of_preRoll {D : Type} [Double D] {config : ChunkerConfig D}
    {past : List Call} {frame : AudioFrame}
    (member : frame ∈ (after config past).preRoll.contents) : frame ∈ receivedFrames past := by
  have inPhase := (tracks_after config past).inPhase
  unfold InPhase at inPhase
  split at inPhase
  · rw [inPhase.2.contents_eq] at member
    exact List.mem_of_mem_drop (List.mem_of_mem_drop member)
  · rw [inPhase.2.1.contents_eq] at member
    exact absurd (List.mem_of_mem_drop member) List.not_mem_nil

/-- The reads of `on_frame` are of frames received, below the lengths they announce. -/
theorem ChunkAssembler.mem_onFrameReads {D : Type} [Double D] {config : ChunkerConfig D}
    {past : List Call} {frame : AudioFrame} {nowNs : UInt64} {read : AudioFrame × Nat}
    (made : read ∈ (after config past).onFrameReads frame nowNs) :
    read.1 ∈ receivedFrames (past ++ [.frame frame nowNs]) ∧
      read.2 < read.1.hdr.byteLen.toNat := by
  have last : frame ∈ receivedFrames (past ++ [.frame frame nowNs]) := by
    rw [receivedFrames_append]
    exact List.mem_append_right _ (List.mem_singleton_self _)
  rcases List.mem_append.mp made with front | own
  · rcases List.mem_append.mp front with energy | preRoll
    · obtain ⟨i, read, rfl⟩ := List.mem_map.mp energy
      exact ⟨last, lt_of_mem_frameEnergyReads read⟩
    · split at preRoll
      · obtain ⟨member, inside⟩ := lt_of_mem_appendAllReads preRoll
        refine ⟨?_, inside⟩
        rw [receivedFrames_append]
        exact List.mem_append_left _ (mem_received_of_preRoll member)
      · cases preRoll
  · split at own
    · obtain ⟨i, read, rfl⟩ := List.mem_map.mp own
      exact ⟨last, lt_of_mem_appendReads read⟩
    · cases own

/-- Off the socket every frame is read within its payload; out of the shared ring
exactly the frames are whose announced length fits the slot.  An assembler that
receives no others never reads past a payload. -/
theorem reads_within_iff :
    (∀ (host : Host) (reads : List (List UInt8)), ∀ frame ∈ (pump host reads).handed,
      ReadsWithin D frame) ∧
    (∀ slot : AudioFrame,
      ReadsWithin D slot ↔ slot.hdr.byteLen.toNat ≤ kFramePayloadBytes) ∧
    ∀ (config : ChunkerConfig D) (past : List Call) (frame : AudioFrame) (nowNs : UInt64),
      (∀ received ∈ receivedFrames (past ++ [.frame frame nowNs]),
        received.hdr.byteLen.toNat ≤ kFramePayloadBytes) →
      ∀ read ∈ (ChunkAssembler.after config past).onFrameReads frame nowNs,
        read.2 < kFramePayloadBytes := by
  refine ⟨?_, readsWithin_iff_fits D, ?_⟩
  · intro host reads frame member
    exact (readsWithin_iff_fits D frame).mpr (Pump.handsFitting host reads frame member)
  · intro config past frame nowNs fits read made
    obtain ⟨member, inside⟩ := ChunkAssembler.mem_onFrameReads made
    exact Nat.lt_of_lt_of_le inside (fits read.1 member)

end

open Scenario

/-- A slot that announces two payloads of 16-bit samples. -/
def longSlot : AudioFrame :=
  { hdr := { byteLen := 2048 } }

/-- Its last sample is read from past the payload. -/
theorem reads_pass_longSlot : ¬ ReadsWithin ℚ longSlot := by
  intro within
  have reads : frameEnergyReads longSlot = energyPcm16Reads 2048 := if_neg (by decide)
  have read : 2047 ∈ frameEnergyReads longSlot := by
    rw [reads, energyPcm16Reads, List.mem_flatMap]
    exact ⟨1023, by simp, by simp⟩
  exact absurd (within.energy 2047 read) (by decide)

/-- A connection that sends one frame of two bytes. -/
def oneFrame : List (List UInt8) :=
  [[2, 0, 0, 0] ++ List.replicate 40 0 ++ [5, 6]]

def sevenHost : Host :=
  ⟨fun _ => 7, fun _ => false⟩

theorem handed_oneFrame : ∃ frame, frame ∈ (pump sevenHost oneFrame).handed := by
  have wire : Wire oneFrame.flatten [.ofWire (List.replicate 40 0) [5, 6]] (some []) :=
    @Wire.frame [2, 0, 0, 0] (List.replicate 40 0) [5, 6] _ _ _ rfl rfl rfl (by decide)
      (.cutInLength (by decide))
  have fits : Pump.Fits sevenHost oneFrame := Pump.fits_of_short (by decide)
  obtain ⟨frames, rest, follows⟩ := fits.follows
  obtain ⟨same, -⟩ := (Wire.of_parse follows.parse).unique wire
  have handed := follows.handed
  rw [← same, Host.stamp_cons] at handed
  rw [handed]
  exact ⟨_, List.mem_cons_self⟩

/-- A frame off the socket, a slot, and the second of two loud frames. -/
theorem reads_within_iff_toneFrames :
    (∃ frame, frame ∈ (pump sevenHost oneFrame).handed ∧ ReadsWithin ℚ frame) ∧
      (ReadsWithin ℚ (toneFrame 0) ↔ (toneFrame 0).hdr.byteLen.toNat ≤ kFramePayloadBytes) ∧
      ∀ read ∈ (ChunkAssembler.after shortConfig [.frame (toneFrame 0) 0]).onFrameReads
        (toneFrame 1) 20000000, read.2 < kFramePayloadBytes := by
  obtain ⟨offSocket, slots, histories⟩ := reads_within_iff ℚ
  obtain ⟨frame, member⟩ := handed_oneFrame
  exact ⟨⟨frame, member, offSocket sevenHost oneFrame frame member⟩, slots (toneFrame 0),
    histories shortConfig _ _ _ (by decide +kernel)⟩

end VoiceHotPath
