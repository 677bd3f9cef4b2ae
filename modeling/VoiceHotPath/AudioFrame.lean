import Mathlib.Data.Nat.Notation

/-!
# Audio frames and chunk events

The fixed-size unit that crosses the process boundary and the record the hot
path publishes back.  Header fields keep the widths of the ABI, so every
comparison and increment on them wraps exactly where the source wraps.
-/

namespace VoiceHotPath

/-- Payload bytes of one frame slot. -/
def kFramePayloadBytes : Nat := 1024

inductive AudioFormat where
  | pcm16Le
  | mulaw8
  deriving DecidableEq, Repr

/-- The `uint16_t` under which a format travels in the header. -/
def AudioFormat.code : AudioFormat → UInt16
  | .pcm16Le => 0
  | .mulaw8 => 1

structure FrameHeader where
  seq : UInt64 := 0
  tProduceNs : UInt64 := 0
  tCaptureNs : UInt64 := 0
  byteLen : UInt32 := 0
  sampleRate : UInt32 := 0
  format : UInt16 := 0
  flags : UInt16 := 0
  sessionId : UInt32 := 0
  deriving DecidableEq, Repr

structure AudioFrame where
  hdr : FrameHeader := {}
  payload : Vector UInt8 kFramePayloadBytes := Vector.replicate _ 0
  deriving DecidableEq, Repr

namespace AudioFrame

/--
The byte at `payload + i`.  A read past the payload is undefined in the
source; here it yields zero, so that lengths stay those the source computes.
-/
def payloadAt (frame : AudioFrame) (i : Nat) : UInt8 :=
  frame.payload[i]?.getD 0

/-- The bytes of `[payload, payload + len)`. -/
def payloadBytes (frame : AudioFrame) (len : Nat) : List UInt8 :=
  (List.range len).map frame.payloadAt

@[simp] theorem length_payloadBytes (frame : AudioFrame) (len : Nat) :
    (frame.payloadBytes len).length = len := by
  simp [payloadBytes]

/-- The audio of a frame: its first `byte_len` payload bytes. -/
def audio (frame : AudioFrame) : List UInt8 :=
  frame.payloadBytes frame.hdr.byteLen.toNat

@[simp] theorem length_audio (frame : AudioFrame) :
    frame.audio.length = frame.hdr.byteLen.toNat := by
  simp [audio]

end AudioFrame

inductive CloseReason where
  | hangover
  | maxLength
  | streamEnd
  deriving DecidableEq, Repr

structure ChunkEvent where
  sessionId : UInt32 := 0
  chunkId : UInt64 := 0
  firstSeq : UInt64 := 0
  lastSeq : UInt64 := 0
  tFirstFrameNs : UInt64 := 0
  tSpeechStartNs : UInt64 := 0
  tEndpointNs : UInt64 := 0
  frameCount : UInt32 := 0
  byteCount : UInt32 := 0
  droppedFrames : UInt32 := 0
  reason : CloseReason := .hangover
  format : UInt16 := 0
  deriving DecidableEq, Repr

end VoiceHotPath
