import Mathlib.Data.Rat.Defs
import Mathlib.Algebra.Order.Ring.Unbundled.Rat
import VoiceHotPath.AudioFrame

/-!
# Frame energy

Peak and RMS of a frame.  The arithmetic of `double` is a parameter: the model
is generic in the operations the program performs on it, so a theorem about
the control flow holds for IEEE doubles and for exact arithmetic alike.
-/

namespace VoiceHotPath

/-- The operations on `double` the hot path performs. -/
class Double (D : Type) extends IntCast D, Sub D, Div D, LE D, LT D where
  sqrt : D → D
  decidableLE : DecidableLE D
  decidableLT : DecidableLT D

attribute [reducible, instance] Double.decidableLE Double.decidableLT

/-- Exact rational `double`s leave only the library square root open. -/
class RationalSqrt where
  sqrt : ℚ → ℚ

instance [RationalSqrt] : Double ℚ where
  toIntCast := inferInstance
  toSub := inferInstance
  toDiv := inferInstance
  toLE := inferInstance
  toLT := inferInstance
  sqrt := RationalSqrt.sqrt
  decidableLE := inferInstance
  decidableLT := inferInstance

/-- `mulaw_to_linear`: G.711 mu-law decode of one byte. -/
def mulawToLinear (value : UInt8) : Int :=
  let mu := (~~~ value).toNat
  let sign := mu &&& 0x80
  let exponent := (mu >>> 4) &&& 0x07
  let mantissa := mu &&& 0x0f
  let sample : Int := ((((mantissa <<< 3) + 132) <<< exponent : Nat) : Int) - 132
  let signedSample := if sign ≠ 0 then -sample else sample
  if signedSample < -32768 then -32768
  else if 32767 < signedSample then 32767
  else signedSample

structure AudioEnergy (D : Type) where
  peak : D
  rms : D
  peakNorm : D
  rmsNorm : D
  samples : UInt32

section

variable {D : Type} [Double D]

def kPcm16MaxAmplitude : D := ((32768 : Int) : D)

/-- Largest magnitude and sum of squares, as the integer loops accumulate them. -/
def accumulateEnergy (samples : List Int) : Int × Int :=
  samples.foldl (fun (acc : Int × Int) sample =>
    let magnitude := if sample < 0 then -sample else sample
    (if acc.1 < magnitude then magnitude else acc.1, acc.2 + sample * sample)) (0, 0)

/-- The tail both energy functions share: normalise one accumulated frame. -/
def energyOfSamples (samples : List Int) : AudioEnergy D :=
  let (peak, sumSquares) := accumulateEnergy samples
  let n := samples.length
  let peak : D := (peak : D)
  let rms : D := if 0 < n then Double.sqrt ((sumSquares : D) / ((n : Int) : D)) else ((0 : Int) : D)
  { peak := peak
    rms := rms
    peakNorm := peak / kPcm16MaxAmplitude
    rmsNorm := rms / kPcm16MaxAmplitude
    samples := UInt32.ofNat n }

/-- The little-endian 16-bit sample at byte offset `2 * i`. -/
def pcm16Sample (bytes : Nat → UInt8) (i : Nat) : Int :=
  ((bytes (i * 2)).toUInt16 ||| ((bytes (i * 2 + 1)).toUInt16 <<< 8)).toInt16.toInt

def energyPcm16 (bytes : Nat → UInt8) (byteLen : Nat) : AudioEnergy D :=
  energyOfSamples ((List.range (byteLen / 2)).map (pcm16Sample bytes))

def energyMulaw (bytes : Nat → UInt8) (byteLen : Nat) : AudioEnergy D :=
  energyOfSamples ((List.range byteLen).map fun i => mulawToLinear (bytes i))

def frameEnergy (frame : AudioFrame) : AudioEnergy D :=
  if frame.hdr.format = AudioFormat.mulaw8.code then
    energyMulaw frame.payloadAt frame.hdr.byteLen.toNat
  else
    energyPcm16 frame.payloadAt frame.hdr.byteLen.toNat

end

end VoiceHotPath
