import Mathlib.Algebra.Group.Int.Defs
import Mathlib.Algebra.GroupWithZero.Nat
import VoiceHotPath.Consumer.UdsIngest

/-!
# The two encoders of the wire format

`vhp_producer` copies the length, the header as it lies in memory and the payload
into one buffer; the Node producer writes the header field by field.  The pump
decodes what either of them has written.
-/

namespace VoiceHotPath

/-- The low `width` bytes of a number, least significant first. -/
def toLittleEndian : Nat → Nat → List UInt8
  | 0, _ => []
  | width + 1, value => .ofNat value :: toLittleEndian width (value / 256)

@[simp] theorem length_toLittleEndian (width value : Nat) :
    (toLittleEndian width value).length = width := by
  induction width generalizing value with
  | zero => rfl
  | succ width ih => exact congrArg Nat.succ (ih _)

theorem littleEndian_toLittleEndian {width value : Nat} (small : value < 256 ^ width) :
    littleEndian (toLittleEndian width value) = value := by
  induction width generalizing value with
  | zero => exact (Nat.lt_one_iff.mp small).symm
  | succ width ih =>
      have rest : value / 256 < 256 ^ width := by
        rw [Nat.pow_succ] at small
        exact Nat.div_lt_of_lt_mul (Nat.mul_comm _ 256 ▸ small)
      have byte : (UInt8.ofNat value).toNat = value % 256 := UInt8.toNat_ofNat'
      rw [toLittleEndian, littleEndian, ih rest, byte]
      omega

/-- Fields of given widths, one after the other. -/
def encodeFields (fields : List (Nat × Nat)) : List UInt8 :=
  fields.flatMap fun (width, value) => toLittleEndian width value

theorem length_encodeFields (fields : List (Nat × Nat)) :
    (encodeFields fields).length = (fields.map Prod.fst).sum := by
  induction fields with
  | nil => rfl
  | cons field rest ih =>
      rw [encodeFields, List.flatMap_cons, List.length_append, length_toLittleEndian,
        List.map_cons, List.sum_cons, ← ih]
      rfl

theorem encodeFields_snoc (fields : List (Nat × Nat)) (width value : Nat) :
    encodeFields (fields ++ [(width, value)]) =
      encodeFields fields ++ toLittleEndian width value := by
  simp [encodeFields]

/-- A field is read where the widths before it end. -/
theorem wireField_encodeFields (before after : List (Nat × Nat)) {width value : Nat}
    (small : value < 256 ^ width) :
    wireField (encodeFields (before ++ (width, value) :: after)) (before.map Prod.fst).sum width =
      value := by
  have split : encodeFields (before ++ (width, value) :: after) =
      encodeFields before ++ (toLittleEndian width value ++ encodeFields after) := by
    simp [encodeFields]
  have front : (toLittleEndian width value ++ encodeFields after).take width =
      toLittleEndian width value := List.take_left' (length_toLittleEndian width value)
  rw [wireField, split, ← length_encodeFields, List.drop_left, front,
    littleEndian_toLittleEndian small]

/-- The widths and values of the header, in the order of the ABI. -/
def FrameHeader.fields (hdr : FrameHeader) : List (Nat × Nat) :=
  [(8, hdr.seq.toNat), (8, hdr.tProduceNs.toNat), (8, hdr.tCaptureNs.toNat),
    (4, hdr.byteLen.toNat), (4, hdr.sampleRate.toNat), (2, hdr.format.toNat),
    (2, hdr.flags.toNat), (4, hdr.sessionId.toNat)]

/-- The header as it lies in memory. -/
def FrameHeader.toBytes (hdr : FrameHeader) : List UInt8 :=
  encodeFields hdr.fields

theorem FrameHeader.length_toBytes (hdr : FrameHeader) : hdr.toBytes.length = kHeaderBytes :=
  length_encodeFields hdr.fields

/-- Decoding a header undoes encoding it. -/
theorem FrameHeader.ofBytes_toBytes (hdr : FrameHeader) : ofBytes hdr.toBytes = hdr := by
  have seq : wireField hdr.toBytes 0 8 = hdr.seq.toNat :=
    wireField_encodeFields [] (hdr.fields.drop 1) hdr.seq.toNat_lt
  have tProduceNs : wireField hdr.toBytes 8 8 = hdr.tProduceNs.toNat :=
    wireField_encodeFields (hdr.fields.take 1) (hdr.fields.drop 2) hdr.tProduceNs.toNat_lt
  have tCaptureNs : wireField hdr.toBytes 16 8 = hdr.tCaptureNs.toNat :=
    wireField_encodeFields (hdr.fields.take 2) (hdr.fields.drop 3) hdr.tCaptureNs.toNat_lt
  have byteLen : wireField hdr.toBytes 24 4 = hdr.byteLen.toNat :=
    wireField_encodeFields (hdr.fields.take 3) (hdr.fields.drop 4) hdr.byteLen.toNat_lt
  have sampleRate : wireField hdr.toBytes 28 4 = hdr.sampleRate.toNat :=
    wireField_encodeFields (hdr.fields.take 4) (hdr.fields.drop 5) hdr.sampleRate.toNat_lt
  have format : wireField hdr.toBytes 32 2 = hdr.format.toNat :=
    wireField_encodeFields (hdr.fields.take 5) (hdr.fields.drop 6) hdr.format.toNat_lt
  have flags : wireField hdr.toBytes 34 2 = hdr.flags.toNat :=
    wireField_encodeFields (hdr.fields.take 6) (hdr.fields.drop 7) hdr.flags.toNat_lt
  have sessionId : wireField hdr.toBytes 36 4 = hdr.sessionId.toNat :=
    wireField_encodeFields (hdr.fields.take 7) [] hdr.sessionId.toNat_lt
  rw [ofBytes, seq, tProduceNs, tCaptureNs, byteLen, sampleRate, format, flags, sessionId]
  simp

/-! ## `vhp_producer` -/

/-- Bytes of the producer's wire buffer. -/
def kWireBytes : Nat := kWireLengthBytes + kHeaderBytes + kFramePayloadBytes

/-- The wire buffer after a frame has been copied into it. -/
def encodeFrame (wire : Vector UInt8 kWireBytes) (frame : AudioFrame) : Vector UInt8 kWireBytes :=
  let len := frame.hdr.byteLen
  let wire := Block.store wire 0 (toLittleEndian kWireLengthBytes len.toNat)
  let wire := Block.store wire kWireLengthBytes frame.hdr.toBytes
  Block.store wire (kWireLengthBytes + kHeaderBytes) (frame.payloadBytes len.toNat)

/-- What `write_all` sends for the frames, one buffer serving them all. -/
def sendFrames (wire : Vector UInt8 kWireBytes) : List AudioFrame → List UInt8
  | [] => []
  | frame :: rest =>
      let wire := encodeFrame wire frame
      Block.load wire 0 (kWireLengthBytes + kHeaderBytes + frame.hdr.byteLen.toNat) ++
        sendFrames wire rest

/-- The bytes of a frame on the wire. -/
theorem load_encodeFrame (wire : Vector UInt8 kWireBytes) {frame : AudioFrame}
    (fits : frame.hdr.byteLen.toNat ≤ kFramePayloadBytes) :
    Block.load (encodeFrame wire frame) 0
        (kWireLengthBytes + kHeaderBytes + frame.hdr.byteLen.toNat) =
      toLittleEndian kWireLengthBytes frame.hdr.byteLen.toNat ++ frame.hdr.toBytes ++
        frame.audio := by
  have length := length_toLittleEndian kWireLengthBytes frame.hdr.byteLen.toNat
  have header := frame.hdr.length_toBytes
  have payload := frame.length_payloadBytes frame.hdr.byteLen.toNat
  let front := Block.store wire 0 (toLittleEndian kWireLengthBytes frame.hdr.byteLen.toNat)
  let middle := Block.store front kWireLengthBytes frame.hdr.toBytes
  have first : Block.load front 0 (0 + _) = Block.load wire 0 0 ++ _ :=
    Block.load_store_append wire (by rw [length]; decide)
  rw [length, Nat.zero_add, Block.load_zero_len, List.nil_append] at first
  have second : Block.load middle 0 (kWireLengthBytes + _) =
      Block.load front 0 kWireLengthBytes ++ _ :=
    Block.load_store_append front (by rw [header]; decide)
  rw [header, first] at second
  have third : Block.load (encodeFrame wire frame) 0 (kWireLengthBytes + kHeaderBytes + _) =
      Block.load middle 0 (kWireLengthBytes + kHeaderBytes) ++ _ :=
    Block.load_store_append middle
      (by rw [payload, kWireBytes]; exact Nat.add_le_add_left fits _)
  rw [payload, second] at third
  exact third

/-- A frame as the queue gets it: stamped if it came without a stamp, and its payload
beyond the announced bytes zeroed. -/
def AudioFrame.received (now : UInt64) (frame : AudioFrame) : AudioFrame where
  hdr := if frame.hdr.tProduceNs = 0 then { frame.hdr with tProduceNs := now } else frame.hdr
  payload := Vector.ofFn fun i =>
    if i.val < frame.hdr.byteLen.toNat then frame.payload[i] else 0

/-- Decoding a frame undoes encoding it. -/
theorem AudioFrame.stamped_ofWire (now : UInt64) (frame : AudioFrame) :
    (AudioFrame.ofWire frame.hdr.toBytes frame.audio).stamped now = frame.received now := by
  have hdr : { FrameHeader.ofBytes frame.hdr.toBytes with
      byteLen := UInt32.ofNat frame.audio.length } = frame.hdr := by
    rw [FrameHeader.ofBytes_toBytes, length_audio, UInt32.ofNat_toNat]
  have payload : Block.store (Vector.replicate kFramePayloadBytes 0) 0 frame.audio =
      Vector.ofFn fun i : Fin kFramePayloadBytes =>
        if i.val < frame.hdr.byteLen.toNat then frame.payload[i] else 0 := by
    apply Vector.ext
    intro i inside
    have placed := Block.getElem?_store (Vector.replicate kFramePayloadBytes 0) 0 frame.audio inside
    rw [Vector.getElem?_eq_getElem inside, length_audio] at placed
    rw [Vector.getElem_ofFn]
    apply Option.some.inj
    rw [placed]
    by_cases announced : i < frame.hdr.byteLen.toNat
    · rw [if_pos (by omega), if_pos announced]
      simp [audio, payloadBytes, payloadAt, announced, inside]
    · rw [if_neg (by omega), if_neg announced]
      simp [inside]
  have made : AudioFrame.ofWire frame.hdr.toBytes frame.audio =
      { hdr := frame.hdr, payload := Vector.ofFn fun i : Fin kFramePayloadBytes =>
          if i.val < frame.hdr.byteLen.toNat then frame.payload[i] else 0 } := by
    rw [AudioFrame.ofWire, hdr, payload]
  rw [made, stamped, received]
  generalize (Vector.ofFn fun i : Fin kFramePayloadBytes =>
    if i.val < frame.hdr.byteLen.toNat then frame.payload[i] else 0) = bytes
  dsimp only
  split <;> rfl

theorem Host.stamp_ofWire (host : Host) (n : Nat) (frames : List AudioFrame) :
    host.stamp n (frames.map fun frame => .ofWire frame.hdr.toBytes frame.audio) =
      frames.mapIdx fun i frame => frame.received (host.nowNs (n + i)) := by
  induction frames generalizing n with
  | nil => rfl
  | cons frame rest ih =>
      have later : (fun (i : Nat) (frame : AudioFrame) =>
          frame.received (host.nowNs (n + 1 + i))) =
          fun i frame => frame.received (host.nowNs (n + (i + 1))) := by
        funext i frame
        rw [Nat.add_assoc, Nat.add_comm 1 i]
      rw [List.map_cons, stamp_cons, frame.stamped_ofWire, ih, later, List.mapIdx_cons,
        Nat.add_zero]

/-- What the producer sends is a stream of whole frames. -/
theorem wire_sendFrames (wire : Vector UInt8 kWireBytes) {frames : List AudioFrame}
    (fits : ∀ frame ∈ frames, frame.hdr.byteLen.toNat ≤ kFramePayloadBytes) :
    Wire (sendFrames wire frames)
      (frames.map fun frame => .ofWire frame.hdr.toBytes frame.audio) (some []) := by
  induction frames generalizing wire with
  | nil => exact .cutInLength (show ([] : List UInt8).length < kWireLengthBytes by decide)
  | cons frame rest ih =>
      have small := fits frame List.mem_cons_self
      have length : frame.hdr.byteLen.toNat < 256 ^ kWireLengthBytes := frame.hdr.byteLen.toNat_lt
      rw [sendFrames, load_encodeFrame wire small]
      refine .frame (length_toLittleEndian _ _) frame.hdr.length_toBytes ?_ ?_
        (ih _ fun other member => fits other (List.mem_cons_of_mem _ member))
      · rw [littleEndian_toLittleEndian length, frame.length_audio]
      · rw [frame.length_audio]
        exact small

/-! ## The Node producer -/

/-- The value fits a field of `width` bytes. -/
def InWidth (width : Nat) (value : Int) : Prop :=
  0 ≤ value ∧ value < 256 ^ width

instance (width : Nat) (value : Int) : Decidable (InWidth width value) :=
  inferInstanceAs (Decidable (_ ∧ _))

theorem InWidth.toNat_lt {width : Nat} {value : Int} (range : InWidth width value) :
    value.toNat < 256 ^ width := by
  apply (Int.toNat_lt range.1).mpr
  rw [Int.natCast_pow]
  exact range.2

/-- `Buffer.write*LE`: a value out of range is an error. -/
def writeLE {n : Nat} (width : Nat) (buf : Vector UInt8 n) (value : Int) (offset : Nat) :
    Option (Vector UInt8 n) :=
  if InWidth width value then
    some (Block.store buf offset (toLittleEndian width value.toNat))
  else none

def writeBigUInt64LE {n : Nat} : Vector UInt8 n → Int → Nat → Option (Vector UInt8 n) :=
  writeLE 8

def writeUInt32LE {n : Nat} : Vector UInt8 n → Int → Nat → Option (Vector UInt8 n) :=
  writeLE 4

def writeUInt16LE {n : Nat} : Vector UInt8 n → Int → Nat → Option (Vector UInt8 n) :=
  writeLE 2

/-- The fields handed to `writeHeader`. -/
structure NodeHeader where
  seq : Int
  tProduceNs : Int
  tCaptureNs : Int
  byteLen : Int
  sampleRate : Int
  flags : Int
  sessionId : Int

def formatPcm16 : Int := 0

def writeHeader (buf : Vector UInt8 kHeaderBytes) (header : NodeHeader) :
    Option (Vector UInt8 kHeaderBytes) := do
  let buf ← writeBigUInt64LE buf header.seq 0
  let buf ← writeBigUInt64LE buf header.tProduceNs 8
  let buf ← writeBigUInt64LE buf header.tCaptureNs 16
  let buf ← writeUInt32LE buf header.byteLen 24
  let buf ← writeUInt32LE buf header.sampleRate 28
  let buf ← writeUInt16LE buf formatPcm16 32
  let buf ← writeUInt16LE buf header.flags 34
  writeUInt32LE buf header.sessionId 36

namespace NodeHeader

/-- Every field is in the range of its width. -/
structure InRange (header : NodeHeader) : Prop where
  seq : InWidth 8 header.seq
  tProduceNs : InWidth 8 header.tProduceNs
  tCaptureNs : InWidth 8 header.tCaptureNs
  byteLen : InWidth 4 header.byteLen
  sampleRate : InWidth 4 header.sampleRate
  flags : InWidth 2 header.flags
  sessionId : InWidth 4 header.sessionId

/-- The header of these field values. -/
def toHeader (header : NodeHeader) : FrameHeader where
  seq := .ofNat header.seq.toNat
  tProduceNs := .ofNat header.tProduceNs.toNat
  tCaptureNs := .ofNat header.tCaptureNs.toNat
  byteLen := .ofNat header.byteLen.toNat
  sampleRate := .ofNat header.sampleRate.toNat
  format := AudioFormat.pcm16Le.code
  flags := .ofNat header.flags.toNat
  sessionId := .ofNat header.sessionId.toNat

/-- The decoded fields are those handed to `writeHeader`, and the format is pcm16. -/
structure DecodesTo (header : NodeHeader) (hdr : FrameHeader) : Prop where
  seq : (hdr.seq.toNat : Int) = header.seq
  tProduceNs : (hdr.tProduceNs.toNat : Int) = header.tProduceNs
  tCaptureNs : (hdr.tCaptureNs.toNat : Int) = header.tCaptureNs
  byteLen : (hdr.byteLen.toNat : Int) = header.byteLen
  sampleRate : (hdr.sampleRate.toNat : Int) = header.sampleRate
  format : hdr.format = AudioFormat.pcm16Le.code
  flags : (hdr.flags.toNat : Int) = header.flags
  sessionId : (hdr.sessionId.toNat : Int) = header.sessionId

namespace InRange

variable {header : NodeHeader}

/-- In range, no field of the header is cut. -/
theorem decodesTo (range : header.InRange) : header.DecodesTo header.toHeader where
  seq := by
    have kept := UInt64.toNat_ofNat_of_lt' range.seq.toNat_lt
    exact (congrArg Nat.cast kept).trans (Int.toNat_of_nonneg range.seq.1)
  tProduceNs := by
    have kept := UInt64.toNat_ofNat_of_lt' range.tProduceNs.toNat_lt
    exact (congrArg Nat.cast kept).trans (Int.toNat_of_nonneg range.tProduceNs.1)
  tCaptureNs := by
    have kept := UInt64.toNat_ofNat_of_lt' range.tCaptureNs.toNat_lt
    exact (congrArg Nat.cast kept).trans (Int.toNat_of_nonneg range.tCaptureNs.1)
  byteLen := by
    have kept := UInt32.toNat_ofNat_of_lt' range.byteLen.toNat_lt
    exact (congrArg Nat.cast kept).trans (Int.toNat_of_nonneg range.byteLen.1)
  sampleRate := by
    have kept := UInt32.toNat_ofNat_of_lt' range.sampleRate.toNat_lt
    exact (congrArg Nat.cast kept).trans (Int.toNat_of_nonneg range.sampleRate.1)
  format := rfl
  flags := by
    have kept := UInt16.toNat_ofNat_of_lt' range.flags.toNat_lt
    exact (congrArg Nat.cast kept).trans (Int.toNat_of_nonneg range.flags.1)
  sessionId := by
    have kept := UInt32.toNat_ofNat_of_lt' range.sessionId.toNat_lt
    exact (congrArg Nat.cast kept).trans (Int.toNat_of_nonneg range.sessionId.1)

theorem fields_toHeader (range : header.InRange) :
    header.toHeader.fields =
      [(8, header.seq.toNat), (8, header.tProduceNs.toNat), (8, header.tCaptureNs.toNat),
        (4, header.byteLen.toNat), (4, header.sampleRate.toNat), (2, formatPcm16.toNat),
        (2, header.flags.toNat), (4, header.sessionId.toNat)] := by
  have kept := range.decodesTo
  have format : AudioFormat.pcm16Le.code.toNat = formatPcm16.toNat := by decide
  unfold FrameHeader.fields
  rw [← kept.seq, ← kept.tProduceNs, ← kept.tCaptureNs, ← kept.byteLen, ← kept.sampleRate,
    ← kept.flags, ← kept.sessionId, ← format, kept.format]
  simp only [Int.toNat_natCast]

end InRange

end NodeHeader

/-- A write behind the fields written so far appends a field. -/
theorem writeLE_behind {n width : Nat} (offset : Nat) {buf : Vector UInt8 n} {value : Int}
    {fields : List (Nat × Nat)} (range : InWidth width value)
    (written : Block.load buf 0 offset = encodeFields fields) (room : offset + width ≤ n) :
    ∃ next, writeLE width buf value offset = some next ∧
      Block.load next 0 (offset + width) = encodeFields (fields ++ [(width, value.toNat)]) := by
  refine ⟨_, if_pos range, ?_⟩
  have length := length_toLittleEndian width value.toNat
  have stored : Block.load (Block.store buf offset (toLittleEndian width value.toNat)) 0
      (offset + _) = Block.load buf 0 offset ++ toLittleEndian width value.toNat :=
    Block.load_store_append buf (by rw [length]; exact room)
  rw [length, written] at stored
  rw [stored, encodeFields_snoc]

/-- The Node producer writes the bytes the header has in memory. -/
theorem writeHeader_eq (buf : Vector UInt8 kHeaderBytes) {header : NodeHeader}
    (range : header.InRange) :
    ∃ bytes, writeHeader buf header = some bytes ∧ bytes.toList = header.toHeader.toBytes := by
  have start : Block.load buf 0 0 = encodeFields [] := Block.load_zero_len buf 0
  have pcm16 : InWidth 2 formatPcm16 := by decide
  obtain ⟨buf1, seq, load1⟩ := writeLE_behind 0 range.seq start (by decide)
  obtain ⟨buf2, tProduceNs, load2⟩ := writeLE_behind 8 range.tProduceNs load1 (by decide)
  obtain ⟨buf3, tCaptureNs, load3⟩ := writeLE_behind 16 range.tCaptureNs load2 (by decide)
  obtain ⟨buf4, byteLen, load4⟩ := writeLE_behind 24 range.byteLen load3 (by decide)
  obtain ⟨buf5, sampleRate, load5⟩ := writeLE_behind 28 range.sampleRate load4 (by decide)
  obtain ⟨buf6, format, load6⟩ := writeLE_behind 32 pcm16 load5 (by decide)
  obtain ⟨buf7, flags, load7⟩ := writeLE_behind 34 range.flags load6 (by decide)
  obtain ⟨buf8, sessionId, load8⟩ := writeLE_behind 36 range.sessionId load7 (by decide)
  refine ⟨buf8, ?_, ?_⟩
  · apply Option.bind_eq_some_iff.mpr ⟨buf1, seq, ?_⟩
    apply Option.bind_eq_some_iff.mpr ⟨buf2, tProduceNs, ?_⟩
    apply Option.bind_eq_some_iff.mpr ⟨buf3, tCaptureNs, ?_⟩
    apply Option.bind_eq_some_iff.mpr ⟨buf4, byteLen, ?_⟩
    apply Option.bind_eq_some_iff.mpr ⟨buf5, sampleRate, ?_⟩
    apply Option.bind_eq_some_iff.mpr ⟨buf6, format, ?_⟩
    exact Option.bind_eq_some_iff.mpr ⟨buf7, flags, sessionId⟩
  · have whole : Block.load buf8 0 kHeaderBytes = buf8.toList := by
      unfold Block.load
      rw [List.drop_zero]
      exact List.take_of_length_le (Nat.le_of_eq buf8.length_toList)
    have bytes : Block.load buf8 0 kHeaderBytes = encodeFields header.toHeader.fields := by
      rw [range.fields_toHeader]
      exact load8
    rw [← whole, bytes]
    rfl

/-! ## The round trip -/

/--
Decoding undoes both encoders, however the stream is cut into reads: the pump
hands over the frames `vhp_producer` has sent, and the header the Node producer
has written is the one that decodes to its field values.
-/
theorem wire_round_trip (host : Host) :
    (∀ (wire : Vector UInt8 kWireBytes) (frames : List AudioFrame) (reads : List (List UInt8)),
      (∀ frame ∈ frames, frame.hdr.byteLen.toNat ≤ kFramePayloadBytes) →
      reads.flatten = sendFrames wire frames → Pump.Fits host reads →
        (pump host reads).handed =
            (frames.mapIdx fun i frame => frame.received (host.nowNs i)) ∧
          (pump host reads).closed = false) ∧
    ∀ (buf : Vector UInt8 kHeaderBytes) (header : NodeHeader), header.InRange →
      ∃ bytes hdr, writeHeader buf header = some bytes ∧ header.DecodesTo hdr ∧
        FrameHeader.ofBytes bytes.toList = hdr ∧ bytes.toList = hdr.toBytes ∧
        ∀ (payload : List UInt8) (reads : List (List UInt8)),
          (payload.length : Int) = header.byteLen → payload.length ≤ kMaxWirePayload →
          reads.flatten =
            toLittleEndian kWireLengthBytes payload.length ++ bytes.toList ++ payload →
          Pump.Fits host reads →
            ∃ frame : AudioFrame, frame.hdr = hdr ∧ frame.audio = payload ∧
              (pump host reads).handed = [frame.received (host.nowNs 0)] := by
  constructor
  · intro wire frames reads small sent fits
    obtain ⟨handed, closed⟩ := fits.handed_of_wire (sent ▸ wire_sendFrames wire small)
    refine ⟨?_, closed⟩
    rw [handed, host.stamp_ofWire]
    simp only [Nat.zero_add]
  · intro buf header range
    obtain ⟨bytes, written, same⟩ := writeHeader_eq buf range
    have decoded : FrameHeader.ofBytes bytes.toList = header.toHeader := by
      rw [same, FrameHeader.ofBytes_toBytes]
    refine ⟨bytes, header.toHeader, written, range.decodesTo, decoded, same, ?_⟩
    intro payload reads counted small sent fits
    have length : payload.length = header.toHeader.byteLen.toNat := by
      have kept := range.decodesTo.byteLen
      rw [← counted] at kept
      exact Int.ofNat.inj kept.symm
    have small' : payload.length < 256 ^ kWireLengthBytes := Nat.lt_of_le_of_lt small (by decide)
    have last : Wire [] [] (some []) :=
      .cutInLength (show ([] : List UInt8).length < kWireLengthBytes by decide)
    have wire := Wire.frame (length_toLittleEndian kWireLengthBytes payload.length)
      bytes.length_toList (littleEndian_toLittleEndian small') small last
    rw [List.append_nil, ← sent] at wire
    obtain ⟨handed, _⟩ := fits.handed_of_wire wire
    have hdr : (AudioFrame.ofWire bytes.toList payload).hdr = header.toHeader := by
      rw [AudioFrame.ofWire, decoded, length, UInt32.ofNat_toNat]
    have audio := AudioFrame.audio_ofWire bytes.toList small
    refine ⟨.ofWire bytes.toList payload, hdr, audio, ?_⟩
    rw [handed, ← AudioFrame.stamped_ofWire, hdr, audio, ← same]
    rfl

/-- Both streams read byte by byte. -/
theorem wire_round_trip_byteByByte :
    let host : Host := ⟨fun n => .ofNat (n + 7), fun _ => false⟩
    let wire : Vector UInt8 kWireBytes := Vector.replicate _ 0
    let frame : AudioFrame := ⟨{ seq := 3, byteLen := 2, format := 1 }, Vector.replicate _ 9⟩
    let header : NodeHeader := ⟨2 ^ 64 - 1, 5, 0, 3, 24000, 1, 42⟩
    let bytewise : List UInt8 → List (List UInt8) := List.map fun byte => [byte]
    (pump host (bytewise (sendFrames wire [frame, frame]))).handed =
        [frame.received 7, frame.received 8] ∧
      ∃ bytes hdr, writeHeader (Vector.replicate _ 0) header = some bytes ∧ header.DecodesTo hdr ∧
        ∃ sent : AudioFrame, sent.hdr = hdr ∧ sent.audio = [1, 2, 3] ∧
          (pump host (bytewise ([3, 0, 0, 0] ++ bytes.toList ++ [1, 2, 3]))).handed =
            [sent.received 7] := by
  intro host wire frame header bytewise
  have flatten : ∀ stream, (bytewise stream).flatten = stream := by
    intro stream
    induction stream with
    | nil => rfl
    | cons byte rest ih => exact congrArg (byte :: ·) ih
  have fits : ∀ stream, Pump.Fits host (bytewise stream) := by
    intro stream
    apply Pump.fits_of_short
    intro bytes member
    obtain ⟨byte, -, rfl⟩ := List.mem_map.mp member
    exact ⟨Nat.one_pos, show 1 + 1068 ≤ 65536 by decide⟩
  obtain ⟨producer, node⟩ := wire_round_trip host
  obtain ⟨handed, -⟩ := producer wire [frame, frame] (bytewise (sendFrames wire [frame, frame]))
    (by simp [frame, kFramePayloadBytes]) (flatten _) (fits _)
  have range : header.InRange := by constructor <;> decide
  obtain ⟨bytes, hdr, written, decodes, -, -, taken⟩ := node (Vector.replicate _ 0) header range
  refine ⟨handed, bytes, hdr, written, decodes, ?_⟩
  exact taken [1, 2, 3] _ rfl (by decide) (flatten _) (fits _)

end VoiceHotPath
