import Mathlib.Data.Nat.Sqrt
import Mathlib.Data.Rat.Cast.Defs
import VoiceHotPath.Vad.Assembler

/-!
# Concrete frames

Two-byte frames and one small configuration on which the hot path can be
evaluated, with an executable square root for the RMS arm of the gate.
-/

namespace VoiceHotPath.Scenario

/-- The integer square root scaled by the denominator; exact on squares. -/
scoped instance floorSqrt : RationalSqrt :=
  ⟨fun q => (Nat.sqrt (q.num.toNat * q.den) : ℚ) / q.den⟩

/-- One sample of amplitude one half. -/
def toneFrame (seq : UInt64) : AudioFrame :=
  { hdr := { seq := seq, tProduceNs := 1000 * (seq + 1), byteLen := 2 }
    payload := (Vector.replicate kFramePayloadBytes 0).set 1 0x40 }

/-- One sample of amplitude zero. -/
def silentFrame (seq : UInt64) : AudioFrame :=
  { hdr := { seq := seq, tProduceNs := 1000 * (seq + 1), byteLen := 2 } }

/-- The default thresholds with short counts, so that scenarios stay short. -/
def shortConfig : ChunkerConfig ℚ :=
  { gate :=
      { rmsThreshold := some (2 / 100)
        peakThreshold := some (10 / 100)
        speechFrames := 2
        silenceFrames := 2
        cooldownMs := 0 }
    preRollFrames := 2
    maxChunkMs := 60
    maxChunkBytes := 4096 }

end VoiceHotPath.Scenario
