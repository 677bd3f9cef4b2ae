import Mathlib.Algebra.Group.Nat.Defs
import VoiceHotPath.AudioFrame
import VoiceHotPath.Lib.Block
import VoiceHotPath.Lib.Framing

/-!
# The wire format of the socket

A frame travels as a little-endian length, the header in the layout of the ABI
and as many payload bytes as the length says.  A stream is a sequence of such
frames up to the first length no slot can hold, or up to a frame cut short.
-/

namespace VoiceHotPath

def kMaxWirePayload : Nat := kFramePayloadBytes

/-- Bytes of the length prefix. -/
def kWireLengthBytes : Nat := 4

/-- `sizeof(FrameHeader)`. -/
def kHeaderBytes : Nat := 40

/-- The number whose little-endian bytes these are. -/
def littleEndian : List UInt8 → Nat
  | [] => 0
  | byte :: rest => byte.toNat + 256 * littleEndian rest

theorem littleEndian_lt (bytes : List UInt8) : littleEndian bytes < 256 ^ bytes.length := by
  induction bytes with
  | nil => exact Nat.one_pos
  | cons byte rest ih =>
      have small := byte.toNat_lt
      rw [littleEndian, List.length_cons, Nat.pow_succ]
      omega

/-- The little-endian number of `width` bytes at `offset`. -/
def wireField (bytes : List UInt8) (offset width : Nat) : Nat :=
  littleEndian ((bytes.drop offset).take width)

/-- The header whose bytes these are. -/
def FrameHeader.ofBytes (bytes : List UInt8) : FrameHeader where
  seq := .ofNat (wireField bytes 0 8)
  tProduceNs := .ofNat (wireField bytes 8 8)
  tCaptureNs := .ofNat (wireField bytes 16 8)
  byteLen := .ofNat (wireField bytes 24 4)
  sampleRate := .ofNat (wireField bytes 28 4)
  format := .ofNat (wireField bytes 32 2)
  flags := .ofNat (wireField bytes 34 2)
  sessionId := .ofNat (wireField bytes 36 4)

/-- The frame a header and a payload make; the length comes from the payload. -/
def AudioFrame.ofWire (header payload : List UInt8) : AudioFrame where
  hdr := { FrameHeader.ofBytes header with byteLen := .ofNat payload.length }
  payload := Block.store (Vector.replicate _ 0) 0 payload

/-- The audio of a frame off the wire is its payload. -/
theorem AudioFrame.audio_ofWire {payload : List UInt8} (header : List UInt8)
    (fits : payload.length ≤ kMaxWirePayload) :
    (AudioFrame.ofWire header payload).audio = payload := by
  have slot : payload.length ≤ 1024 := fits
  have counted : (UInt32.ofNat payload.length).toNat = payload.length :=
    UInt32.toNat_ofNat_of_lt' (by rw [UInt32.size]; omega)
  unfold AudioFrame.audio AudioFrame.payloadBytes AudioFrame.ofWire
  apply List.ext_getElem
  · simpa using counted
  · intro i _ inside
    have placed := Block.getElem?_store (Vector.replicate kFramePayloadBytes 0) 0 payload
      (Nat.lt_of_lt_of_le inside fits)
    rw [if_pos (by omega), Nat.sub_zero, List.getElem?_eq_getElem inside] at placed
    simp [AudioFrame.payloadAt, placed]

/--
The grammar of a stream: the frames in it, and the bytes left when it breaks off
inside a frame, or none when it ends with an oversized length.
-/
inductive Wire : List UInt8 → List AudioFrame → Option (List UInt8) → Prop where
  | frame {length header payload stream : List UInt8} {frames : List AudioFrame}
      {rest : Option (List UInt8)}
      (sized : length.length = kWireLengthBytes) (headed : header.length = kHeaderBytes)
      (counted : littleEndian length = payload.length)
      (fits : payload.length ≤ kMaxWirePayload) (later : Wire stream frames rest) :
      Wire (length ++ header ++ payload ++ stream) (.ofWire header payload :: frames) rest
  | oversized {length stream : List UInt8} (sized : length.length = kWireLengthBytes)
      (large : kMaxWirePayload < littleEndian length) : Wire (length ++ stream) [] none
  | cutInLength {bytes : List UInt8} (short : bytes.length < kWireLengthBytes) :
      Wire bytes [] (some bytes)
  | cutInFrame {length bytes : List UInt8} (sized : length.length = kWireLengthBytes)
      (fits : littleEndian length ≤ kMaxWirePayload)
      (short : bytes.length < kHeaderBytes + littleEndian length) :
      Wire (length ++ bytes) [] (some (length ++ bytes))

/-- What the front of a stream is. -/
def nextFrame (bytes : List UInt8) : Framing.Verdict AudioFrame :=
  if bytes.length < kWireLengthBytes then .more
  else
    let len := littleEndian (bytes.take kWireLengthBytes)
    if kMaxWirePayload < len then .stop
    else
      let need := kWireLengthBytes + kHeaderBytes + len
      if bytes.length < need then .more
      else
        .item (.ofWire ((bytes.drop kWireLengthBytes).take kHeaderBytes)
          ((bytes.drop (kWireLengthBytes + kHeaderBytes)).take len)) need

section

variable {bytes : List UInt8}

/-- A frame taken is a length, a header and a payload in front of the rest. -/
theorem nextFrame_item {frame : AudioFrame} {used : Nat}
    (verdict : nextFrame bytes = .item frame used) :
    ∃ length header payload stream,
      bytes = length ++ header ++ payload ++ stream ∧ length.length = kWireLengthBytes ∧
        header.length = kHeaderBytes ∧ littleEndian length = payload.length ∧
        payload.length ≤ kMaxWirePayload ∧ frame = .ofWire header payload ∧
        used = kWireLengthBytes + kHeaderBytes + payload.length ∧ bytes.drop used = stream := by
  unfold nextFrame at verdict
  split at verdict
  · cases verdict
  · dsimp only at verdict
    split at verdict
    · cases verdict
    · split at verdict
      · cases verdict
      · rename_i sized fits complete
        obtain ⟨made, taken⟩ := Framing.Verdict.item.inj verdict
        generalize counted : littleEndian (bytes.take kWireLengthBytes) = len at *
        have inside := Nat.le_of_not_lt complete
        have payload : ((bytes.drop (kWireLengthBytes + kHeaderBytes)).take len).length = len := by
          rw [List.length_take, List.length_drop]
          omega
        refine ⟨bytes.take kWireLengthBytes, (bytes.drop kWireLengthBytes).take kHeaderBytes,
          (bytes.drop (kWireLengthBytes + kHeaderBytes)).take len, bytes.drop used, ?_,
          ?_, ?_, ?_, ?_, made.symm, ?_, rfl⟩
        · have tail := List.take_append_drop len (bytes.drop (kWireLengthBytes + kHeaderBytes))
          have middle := List.take_append_drop kHeaderBytes (bytes.drop kWireLengthBytes)
          rw [List.drop_drop, taken] at tail
          rw [List.drop_drop] at middle
          rw [List.append_assoc, List.append_assoc, tail, middle, List.take_append_drop]
        · exact List.length_take_of_le (Nat.le_of_not_lt sized)
        · rw [List.length_take, List.length_drop]
          omega
        · rw [payload, counted]
        · rw [payload]
          exact Nat.le_of_not_lt fits
        · rw [payload, taken]

theorem nextFrame_stop (verdict : nextFrame bytes = .stop) :
    ∃ length stream, bytes = length ++ stream ∧ length.length = kWireLengthBytes ∧
      kMaxWirePayload < littleEndian length := by
  unfold nextFrame at verdict
  split at verdict
  · cases verdict
  · rename_i sized
    dsimp only at verdict
    split at verdict
    · rename_i large
      exact ⟨_, _, (List.take_append_drop kWireLengthBytes bytes).symm,
        List.length_take_of_le (Nat.le_of_not_lt sized), large⟩
    · split at verdict <;> cases verdict

/-- A stream that asks for more breaks off inside a frame. -/
theorem nextFrame_more (verdict : nextFrame bytes = .more) : Wire bytes [] (some bytes) := by
  unfold nextFrame at verdict
  split at verdict
  · rename_i short
    exact .cutInLength short
  · rename_i sized
    dsimp only at verdict
    split at verdict
    · cases verdict
    · rename_i fits
      split at verdict
      · rename_i short
        have split := List.take_append_drop kWireLengthBytes bytes
        have left : (bytes.drop kWireLengthBytes).length <
            kHeaderBytes + littleEndian (bytes.take kWireLengthBytes) := by
          rw [List.length_drop]
          omega
        have cut := Wire.cutInFrame (List.length_take_of_le (Nat.le_of_not_lt sized))
          (Nat.le_of_not_lt fits) left
        rwa [split] at cut
      · cases verdict

end

section

variable {length header payload stream : List UInt8}

theorem nextFrame_frame (sized : length.length = kWireLengthBytes)
    (headed : header.length = kHeaderBytes) (counted : littleEndian length = payload.length)
    (fits : payload.length ≤ kMaxWirePayload) (stream : List UInt8) :
    nextFrame (length ++ header ++ payload ++ stream) =
      .item (.ofWire header payload) (kWireLengthBytes + kHeaderBytes + payload.length) := by
  have front : (length ++ header ++ payload ++ stream).take kWireLengthBytes = length := by
    rw [← sized]
    simp
  have middle : ((length ++ header ++ payload ++ stream).drop kWireLengthBytes).take kHeaderBytes =
      header := by
    rw [← sized, ← headed]
    simp
  have back : ((length ++ header ++ payload ++ stream).drop
      (kWireLengthBytes + kHeaderBytes)).take payload.length = payload := by
    rw [← sized, ← headed, ← List.length_append, List.append_assoc (length ++ header),
      List.drop_left]
    simp
  unfold nextFrame
  rw [front, middle, counted]
  dsimp only
  rw [back, if_neg, if_neg (Nat.not_lt_of_le fits), if_neg]
  · simp only [List.length_append, sized, headed, Nat.not_lt]
    exact Nat.le_add_right _ _
  · simp [sized]

theorem nextFrame_oversized (sized : length.length = kWireLengthBytes)
    (large : kMaxWirePayload < littleEndian length) (stream : List UInt8) :
    nextFrame (length ++ stream) = .stop := by
  have front : (length ++ stream).take kWireLengthBytes = length := by
    rw [← sized]
    simp
  unfold nextFrame
  rw [front, if_neg, if_pos large]
  simp [sized]

theorem nextFrame_cutInLength (short : stream.length < kWireLengthBytes) :
    nextFrame stream = .more := if_pos short

theorem nextFrame_cutInFrame (sized : length.length = kWireLengthBytes)
    (fits : littleEndian length ≤ kMaxWirePayload)
    (short : stream.length < kHeaderBytes + littleEndian length) :
    nextFrame (length ++ stream) = .more := by
  have front : (length ++ stream).take kWireLengthBytes = length := by
    rw [← sized]
    simp
  unfold nextFrame
  rw [front, if_neg, if_neg (Nat.not_lt_of_le fits), if_pos]
  · rw [List.length_append]
    omega
  · simp [sized]

end

theorem nextFrame_stable : Framing.Stable nextFrame where
  bounds := by
    intro bytes frame used verdict
    obtain ⟨length, header, payload, stream, rfl, sized, headed, _, _, _, rfl, _⟩ :=
      nextFrame_item verdict
    constructor
    · exact Nat.lt_of_lt_of_le (by decide) (Nat.le_add_right _ payload.length)
    · simp only [List.length_append, sized, headed]
      exact Nat.le_add_right _ _
  item := by
    intro bytes frame used verdict later
    obtain ⟨length, header, payload, stream, rfl, sized, headed, counted, fits, rfl, rfl, _⟩ :=
      nextFrame_item verdict
    rw [List.append_assoc]
    exact nextFrame_frame sized headed counted fits _
  stop := by
    intro bytes verdict later
    obtain ⟨length, stream, rfl, sized, large⟩ := nextFrame_stop verdict
    rw [List.append_assoc]
    exact nextFrame_oversized sized large _

namespace Wire

variable {stream : List UInt8} {frames : List AudioFrame} {rest : Option (List UInt8)}

/-- The grammar is parsed frame by frame. -/
theorem parse (wire : Wire stream frames rest) : Framing.Parse nextFrame stream frames rest := by
  induction wire with
  | @frame length header payload stream frames rest sized headed counted fits later ih =>
      apply Framing.Parse.item (nextFrame_frame sized headed counted fits stream)
      rw [← sized, ← headed, ← List.length_append, ← List.length_append, List.drop_left]
      exact ih
  | oversized sized large => exact .stop (nextFrame_oversized sized large _)
  | cutInLength short => exact .more (nextFrame_cutInLength short)
  | cutInFrame sized fits short => exact .more (nextFrame_cutInFrame sized fits short)

theorem of_parse (parse : Framing.Parse nextFrame stream frames rest) :
    Wire stream frames rest := by
  induction parse with
  | more verdict => exact nextFrame_more verdict
  | stop verdict =>
      obtain ⟨length, stream, rfl, sized, large⟩ := nextFrame_stop verdict
      exact .oversized sized large
  | item verdict _ ih =>
      obtain ⟨length, header, payload, stream, rfl, sized, headed, counted, fits, rfl, rfl, left⟩ :=
        nextFrame_item verdict
      rw [left] at ih
      exact .frame sized headed counted fits ih

/-- The grammar is unambiguous. -/
theorem unique {frames' : List AudioFrame} {rest' : Option (List UInt8)}
    (wire : Wire stream frames rest) (other : Wire stream frames' rest') :
    frames' = frames ∧ rest' = rest :=
  wire.parse.unique other.parse

/-- What a stream breaks off with is shorter than the longest frame. -/
theorem length_lt {left : List UInt8} (wire : Wire stream frames (some left)) :
    left.length < kWireLengthBytes + kHeaderBytes + kMaxWirePayload := by
  generalize same : some left = outcome at wire
  induction wire with
  | frame _ _ _ _ _ ih => exact ih same
  | oversized _ _ => cases same
  | cutInLength short =>
      cases same
      exact Nat.lt_of_lt_of_le short (by decide)
  | cutInFrame sized fits short =>
      cases same
      rw [List.length_append, sized, Nat.add_assoc]
      exact Nat.add_lt_add_left (Nat.lt_of_lt_of_le short (Nat.add_le_add_left fits _)) _

end Wire

end VoiceHotPath
