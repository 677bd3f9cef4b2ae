import VoiceHotPath.Consumer.WireEncoding

/-!
# Sending under partial writes

`write_all` hands the kernel the bytes of a frame piece by piece, and the
connection may break inside any of them.  However the bytes are cut on the way
out and on the way in, a frame is handed over exactly when all of it has arrived.
-/

namespace VoiceHotPath

/--
`write_all`: every `write` takes as many bytes as it answers, or none if it fails.
Left are the answers to later calls, unless a call has failed or has not returned.
-/
def writeAll : List Nat → List UInt8 → List UInt8 × Option (List Nat)
  | answers, [] => ([], some answers)
  | [], _ :: _ => ([], none)
  | answer :: answers, byte :: rest =>
      if answer = 0 then ([], none)
      else
        let written := writeAll answers ((byte :: rest).drop answer)
        ((byte :: rest).take answer ++ written.1, written.2)

/-- The send loop of `vhp_producer` on a socket; a write that fails ends it. -/
def sendAll (wire : Vector UInt8 kWireBytes) (answers : List Nat) :
    List AudioFrame → List UInt8
  | [] => []
  | frame :: rest =>
      let wire := encodeFrame wire frame
      let data := Block.load wire 0 (kWireLengthBytes + kHeaderBytes + frame.hdr.byteLen.toNat)
      match writeAll answers data with
      | (sent, some answers) => sent ++ sendAll wire answers rest
      | (sent, none) => sent

/-- What has been written is the front of the data, and all of it if the call succeeds. -/
theorem writeAll_prefix (answers : List Nat) (data : List UInt8) :
    (writeAll answers data).1 <+: data ∧
      ∀ later, (writeAll answers data).2 = some later → (writeAll answers data).1 = data := by
  induction answers generalizing data with
  | nil =>
      cases data with
      | nil => exact ⟨List.nil_prefix, fun _ _ => rfl⟩
      | cons byte rest => exact ⟨List.nil_prefix, fun _ absent => by cases absent⟩
  | cons answer answers ih =>
      cases data with
      | nil => exact ⟨List.nil_prefix, fun _ _ => rfl⟩
      | cons byte rest =>
          rw [writeAll]
          split
          · exact ⟨List.nil_prefix, fun _ absent => by cases absent⟩
          · obtain ⟨part, whole⟩ := ih ((byte :: rest).drop answer)
            have split := List.take_append_drop answer (byte :: rest)
            constructor
            · have grown := (List.prefix_append_right_inj ((byte :: rest).take answer)).mpr part
              rwa [split] at grown
            · intro later complete
              dsimp only
              rw [whole later complete, split]

theorem sendAll_prefix_sendFrames (wire : Vector UInt8 kWireBytes) (answers : List Nat)
    (frames : List AudioFrame) : sendAll wire answers frames <+: sendFrames wire frames := by
  induction frames generalizing wire answers with
  | nil => exact List.prefix_rfl
  | cons frame rest ih =>
      rw [sendAll, sendFrames]
      obtain ⟨part, whole⟩ := writeAll_prefix answers (Block.load (encodeFrame wire frame) 0
        (kWireLengthBytes + kHeaderBytes + frame.hdr.byteLen.toNat))
      split
      · rename_i sent later written
        rw [written] at whole
        rw [show sent = _ from whole later rfl]
        exact (List.prefix_append_right_inj _).mpr (ih _ later)
      · rename_i sent written
        rw [written] at part
        exact part.trans (List.prefix_append _ _)

/-- A frame on the wire. -/
def AudioFrame.toWire (frame : AudioFrame) : List UInt8 :=
  toLittleEndian kWireLengthBytes frame.hdr.byteLen.toNat ++ frame.hdr.toBytes ++ frame.audio

theorem AudioFrame.length_toWire (frame : AudioFrame) :
    frame.toWire.length = kWireLengthBytes + kHeaderBytes + frame.hdr.byteLen.toNat := by
  rw [toWire, List.length_append, List.length_append, length_toLittleEndian,
    FrameHeader.length_toBytes, length_audio]

theorem sendFrames_eq (wire : Vector UInt8 kWireBytes) {frames : List AudioFrame}
    (fits : ∀ frame ∈ frames, frame.hdr.byteLen.toNat ≤ kFramePayloadBytes) :
    sendFrames wire frames = frames.flatMap AudioFrame.toWire := by
  induction frames generalizing wire with
  | nil => rfl
  | cons frame rest ih =>
      rw [sendFrames, load_encodeFrame wire (fits frame List.mem_cons_self),
        ih _ fun other member => fits other (List.mem_cons_of_mem _ member)]
      rfl

/-- No less than the whole of a frame is taken for it. -/
theorem AudioFrame.encodes {frame : AudioFrame}
    (fits : frame.hdr.byteLen.toNat ≤ kFramePayloadBytes) :
    Framing.Encodes nextFrame frame.toWire (.ofWire frame.hdr.toBytes frame.audio) := by
  have sized := length_toLittleEndian kWireLengthBytes frame.hdr.byteLen.toNat
  have headed := frame.hdr.length_toBytes
  have number : littleEndian (toLittleEndian kWireLengthBytes frame.hdr.byteLen.toNat) =
      frame.hdr.byteLen.toNat := littleEndian_toLittleEndian frame.hdr.byteLen.toNat_lt
  constructor
  · intro later
    have taken := nextFrame_frame sized headed (number.trans frame.length_audio.symm)
      (by rw [frame.length_audio]; exact fits) later
    rw [frame.length_audio] at taken
    rw [frame.length_toWire]
    exact taken
  · intro n short
    rw [frame.length_toWire] at short
    have front : frame.toWire.take n =
        (toLittleEndian kWireLengthBytes frame.hdr.byteLen.toNat).take n ++
          (frame.hdr.toBytes ++ frame.audio).take (n - kWireLengthBytes) := by
      rw [toWire, List.append_assoc, List.take_append, sized]
    rw [front]
    by_cases inLength : n < kWireLengthBytes
    · apply nextFrame_cutInLength
      rw [Nat.sub_eq_zero_of_le (Nat.le_of_lt inLength), List.take_zero, List.append_nil,
        List.length_take, sized]
      omega
    · rw [List.take_of_length_le (by rw [sized]; exact Nat.le_of_not_lt inLength)]
      apply nextFrame_cutInFrame sized
      · rw [number]
        exact fits
      · rw [number, List.length_take, List.length_append, headed, frame.length_audio]
        omega

/-- The bytes some frames take on the wire. -/
def wireLength (frames : List AudioFrame) : Nat :=
  (frames.map fun frame => kWireLengthBytes + kHeaderBytes + frame.hdr.byteLen.toNat).sum

theorem length_flatMap_toWire (frames : List AudioFrame) :
    (frames.flatMap AudioFrame.toWire).length = wireLength frames := by
  rw [List.length_flatMap, wireLength]
  simp only [AudioFrame.length_toWire]

/--
However the kernel cuts the writes of the producer, wherever it breaks the
connection off, and however the bytes that arrive are cut into reads, the pump
has handed over the frames all of whose bytes have arrived, as they were sent, and
nothing of the frame the stream breaks off in.
-/
theorem arrived_whole (host : Host) (wire : Vector UInt8 kWireBytes) (answers : List Nat)
    {frames : List AudioFrame}
    (small : ∀ frame ∈ frames, frame.hdr.byteLen.toNat ≤ kFramePayloadBytes)
    {reads : List (List UInt8)} (arrived : reads.flatten <+: sendAll wire answers frames)
    (fits : Pump.Fits host reads) :
    ∃ k, k ≤ frames.length ∧
      (pump host reads).handed =
        (frames.take k).mapIdx (fun i frame => frame.received (host.nowNs i)) ∧
      (pump host reads).closed = false ∧
      wireLength (frames.take k) ≤ reads.flatten.length ∧
      (k < frames.length → reads.flatten.length < wireLength (frames.take (k + 1))) := by
  have part := arrived.trans (sendAll_prefix_sendFrames wire answers frames)
  rw [sendFrames_eq wire small] at part
  have cut := List.prefix_iff_eq_take.mp part
  have empty : nextFrame [] = .more := rfl
  obtain ⟨k, rest, inside, parse, least, most⟩ :=
    Framing.Parse.take empty (fun frame member => AudioFrame.encodes (small frame member))
      reads.flatten.length
  rw [← cut] at parse
  obtain ⟨handed, closed⟩ := fits.handed_of_wire (.of_parse parse)
  refine ⟨k, inside, ?_, closed, ?_, ?_⟩
  · rw [handed, host.stamp_ofWire]
    simp only [Nat.zero_add]
  · rw [← length_flatMap_toWire]
    exact least
  · intro more
    rw [← length_flatMap_toWire]
    exact most more

/-- The connection breaks after three bytes of the second frame; they are read one by one. -/
theorem arrived_whole_broken :
    let host : Host := ⟨fun n => .ofNat (n + 7), fun _ => false⟩
    let wire : Vector UInt8 kWireBytes := Vector.replicate _ 0
    let frame : AudioFrame := ⟨{ seq := 3, byteLen := 2, format := 1 }, Vector.replicate _ 9⟩
    let reads := (sendAll wire [10, 36, 3, 0] [frame, frame]).map fun byte => [byte]
    ∃ k, k ≤ 2 ∧
      (pump host reads).handed =
        ([frame, frame].take k).mapIdx (fun i frame => frame.received (host.nowNs i)) ∧
      wireLength ([frame, frame].take k) ≤ reads.flatten.length ∧
      (k < 2 → reads.flatten.length < wireLength ([frame, frame].take (k + 1))) := by
  intro host wire frame reads
  have flatten : reads.flatten = sendAll wire [10, 36, 3, 0] [frame, frame] := by
    change ((sendAll wire [10, 36, 3, 0] [frame, frame]).map fun byte => [byte]).flatten = _
    generalize sendAll wire [10, 36, 3, 0] [frame, frame] = stream
    induction stream with
    | nil => rfl
    | cons byte rest ih => exact congrArg (byte :: ·) ih
  have small : ∀ frame' ∈ [frame, frame], frame'.hdr.byteLen.toNat ≤ kFramePayloadBytes := by
    simp [frame, kFramePayloadBytes]
  have fits : Pump.Fits host reads := by
    apply Pump.fits_of_short
    intro bytes member
    obtain ⟨byte, -, rfl⟩ := List.mem_map.mp member
    exact ⟨Nat.one_pos, show 1 + 1068 ≤ 65536 by decide⟩
  obtain ⟨k, inside, handed, -, least, most⟩ :=
    arrived_whole host wire [10, 36, 3, 0] small (flatten ▸ List.prefix_rfl) fits
  exact ⟨k, inside, handed, least, most⟩

end VoiceHotPath
