import Mathlib.Data.Nat.Bitwise
import VoiceHotPath.Energy
import VoiceHotPath.Lib.Amplitude

/-!
# Companding

The load generator writes a frame in one of two codecs.  What the mu-law bytes
decode to differs from the samples by a fraction of their amplitude, and so do
the peak and the RMS of the frame.
-/

namespace VoiceHotPath

/-! ## The encoder -/

/-- The exponent search of `encode_mulaw`. -/
def mulawExponent (value : Nat) : Nat → Nat → Nat
  | 0, _ => 0
  | exponent + 1, mask =>
      if value &&& mask = 0 then mulawExponent value exponent (mask >>> 1) else exponent + 1

/-- `encode_mulaw`, as the byte its callers store. -/
def encodeMulaw (sample : Int16) : UInt8 :=
  let sign := if sample.toInt < 0 then 0x80 else 0
  let value := sample.toInt.natAbs
  let value := if 32635 < value then 32635 else value
  let value := value + 132
  let exponent := mulawExponent value 7 0x4000
  let mantissa := (value >>> (exponent + 3)) &&& 0x0f
  ~~~ UInt8.ofNat (sign ||| (exponent <<< 4) ||| mantissa)

/-- The payload `fill_payload` writes for pcm16. -/
def pcm16Payload (samples : List Int16) : List UInt8 :=
  samples.flatMap fun sample =>
    [sample.toUInt16.toUInt8, (sample.toUInt16 >>> (8 : UInt16)).toUInt8]

/-- The payload `fill_payload` writes for mu-law. -/
def mulawPayload (samples : List Int16) : List UInt8 :=
  samples.map encodeMulaw

/-- The byte at an offset of a payload. -/
def byteAt (payload : List UInt8) (i : Nat) : UInt8 :=
  payload.getD i 0

/-! ## The error of one sample -/

/-- The search finds the leading bit, from the seventh on. -/
theorem mulawExponent_spec {value exponent : Nat} (below : value < 2 ^ (exponent + 8))
    (above : 2 ^ 7 ≤ value) :
    mulawExponent value exponent (2 ^ (exponent + 7)) ≤ exponent ∧
      2 ^ (mulawExponent value exponent (2 ^ (exponent + 7)) + 7) ≤ value ∧
      value < 2 ^ (mulawExponent value exponent (2 ^ (exponent + 7)) + 8) := by
  induction exponent with
  | zero => exact ⟨Nat.le_refl 0, above, below⟩
  | succ exponent ih =>
      have halved : 2 ^ (exponent + 1 + 7) >>> 1 = 2 ^ (exponent + 7) := by
        rw [Nat.shiftRight_eq_div_pow, Nat.add_right_comm, Nat.pow_succ]
        exact Nat.mul_div_cancel _ Nat.two_pos
      have bit : value &&& 2 ^ (exponent + 1 + 7) = 0 ↔ value < 2 ^ (exponent + 8) := by
        have same : exponent + 1 + 7 = exponent + 8 := by omega
        rw [same, Nat.and_two_pow]
        constructor
        · intro absent
          by_contra high
          rw [Nat.testBit_of_two_pow_le_and_two_pow_add_one_gt (Nat.not_lt.mp high) below] at absent
          simp at absent
        · intro low
          rw [Nat.testBit_lt_two_pow low]
          exact Nat.zero_mul _
      rw [mulawExponent, halved]
      by_cases low : value < 2 ^ (exponent + 8)
      · rw [if_pos (bit.mpr low)]
        obtain ⟨most, least, bound⟩ := ih low
        exact ⟨Nat.le_succ_of_le most, least, bound⟩
      · rw [if_neg fun absent => low (bit.mp absent)]
        exact ⟨Nat.le_refl _, Nat.not_lt.mp low, below⟩

/-- The amplitude that `encode_mulaw` codes, with its bias. -/
def biased (amplitude : Nat) : Nat :=
  (if 32635 < amplitude then 32635 else amplitude) + 132

def exponentOf (amplitude : Nat) : Nat :=
  mulawExponent (biased amplitude) 7 0x4000

def mantissaOf (amplitude : Nat) : Nat :=
  biased amplitude / 2 ^ (exponentOf amplitude + 3) % 16

/-- What an amplitude decodes to. -/
def companded (amplitude : Nat) : Nat :=
  (8 * mantissaOf amplitude + 132) * 2 ^ exponentOf amplitude - 132

theorem exponentOf_spec (amplitude : Nat) :
    exponentOf amplitude ≤ 7 ∧ 2 ^ (exponentOf amplitude + 7) ≤ biased amplitude ∧
      biased amplitude < 2 ^ (exponentOf amplitude + 8) := by
  have bounds : biased amplitude < 2 ^ 15 ∧ 2 ^ 7 ≤ biased amplitude := by
    unfold biased
    split <;> omega
  exact mulawExponent_spec bounds.1 bounds.2

theorem encodeMulaw_eq (sample : Int16) :
    encodeMulaw sample = ~~~ UInt8.ofNat
      ((if sample.toInt < 0 then 0x80 else 0) ||| (exponentOf sample.toInt.natAbs <<< 4) |||
        mantissaOf sample.toInt.natAbs) := by
  have mantissa : (biased sample.toInt.natAbs >>> (exponentOf sample.toInt.natAbs + 3)) &&& 0x0f =
      mantissaOf sample.toInt.natAbs := by
    rw [Nat.shiftRight_eq_div_pow]
    exact Nat.and_two_pow_sub_one_eq_mod _ 4
  rw [← mantissa]
  rfl

/-- What a byte decodes to, by its fields. -/
theorem mulawToLinear_fields (negative : Bool) (exponent : Fin 8) (mantissa : Fin 16) :
    mulawToLinear (~~~ UInt8.ofNat
      ((if negative = true then 0x80 else 0) ||| (exponent.1 <<< 4) ||| mantissa.1)) =
      if negative = true then -(((8 * mantissa.1 + 132) * 2 ^ exponent.1 - 132 : Nat) : Int)
      else ((8 * mantissa.1 + 132) * 2 ^ exponent.1 - 132 : Nat) := by
  revert negative exponent mantissa
  decide +kernel

/-- A decoded sample has the sign of the sample and its companded amplitude. -/
theorem mulawToLinear_encodeMulaw (sample : Int16) :
    mulawToLinear (encodeMulaw sample) =
      if sample.toInt < 0 then -(companded sample.toInt.natAbs : Int)
      else companded sample.toInt.natAbs := by
  obtain ⟨most, -, -⟩ := exponentOf_spec sample.toInt.natAbs
  have fields := mulawToLinear_fields (decide (sample.toInt < 0))
    ⟨exponentOf sample.toInt.natAbs, Nat.lt_succ_of_le most⟩
    ⟨mantissaOf sample.toInt.natAbs, Nat.mod_lt _ (by decide)⟩
  simp only [decide_eq_true_eq] at fields
  rw [encodeMulaw_eq, fields]
  rfl

/-- An interval of the quantiser is a sixteenth of its octave wide, and decoded half way. -/
theorem companded_biased (amplitude : Nat) :
    32 * ((companded amplitude + 132 : Int) - biased amplitude).natAbs ≤ biased amplitude := by
  obtain ⟨-, least, most⟩ := exponentOf_spec amplitude
  have positive := Nat.two_pow_pos (exponentOf amplitude)
  rw [Nat.pow_add] at least most
  have octave : 2 ^ (exponentOf amplitude + 3) = 2 ^ exponentOf amplitude * 8 := Nat.pow_add 2 _ 3
  have quotient :
      mantissaOf amplitude + 16 = biased amplitude / (2 ^ exponentOf amplitude * 8) := by
    have low : 16 ≤ biased amplitude / (2 ^ exponentOf amplitude * 8) := by
      rw [Nat.le_div_iff_mul_le (by omega)]
      omega
    have high : biased amplitude / (2 ^ exponentOf amplitude * 8) < 32 := by
      rw [Nat.div_lt_iff_lt_mul (by omega)]
      omega
    rw [mantissaOf, octave]
    omega
  have division := Nat.div_add_mod (biased amplitude) (2 ^ exponentOf amplitude * 8)
  have rest := Nat.mod_lt (biased amplitude) (by omega : 0 < 2 ^ exponentOf amplitude * 8)
  have decoded : companded amplitude + 132 =
      2 ^ exponentOf amplitude * 8 * (mantissaOf amplitude + 16) +
        4 * 2 ^ exponentOf amplitude := by
    have enough : 132 * 1 ≤ (8 * mantissaOf amplitude + 132) * 2 ^ exponentOf amplitude :=
      Nat.mul_le_mul (Nat.le_add_left 132 _) positive
    unfold companded
    rw [Nat.sub_add_cancel enough]
    ring
  rw [← quotient] at division
  omega

/-- The error of a sample. -/
theorem companded_error {amplitude : Nat} (small : amplitude ≤ 32768) :
    32 * ((companded amplitude : Int) - amplitude).natAbs ≤ amplitude + 132 := by
  by_cases clipped : 32635 < amplitude
  · have top : companded amplitude = 32124 := by
      have same : biased amplitude = 32767 := by
        unfold biased
        rw [if_pos clipped]
      unfold companded mantissaOf exponentOf
      rw [same]
      decide +kernel
    omega
  · have same : biased amplitude = amplitude + 132 := by
      rw [biased, if_neg clipped]
    have error := companded_biased amplitude
    omega

/-! ## The energy of a payload -/

section

open Amplitude

/-- `double`s as exact reals. -/
noncomputable instance : Double ℝ where
  toIntCast := inferInstance
  toSub := inferInstance
  toDiv := inferInstance
  toLE := inferInstance
  toLT := inferInstance
  sqrt := Real.sqrt
  decidableLE := Classical.decRel _
  decidableLT := Classical.decRel _

theorem accumulateEnergy_eq (samples : List Int) :
    accumulateEnergy samples =
      (samples.foldl (fun peak sample => max peak |sample|) 0,
        (samples.map fun sample => sample * sample).sum) := by
  have each : ∀ acc : Int × Int,
      samples.foldl (fun (acc : Int × Int) sample =>
        let magnitude := if sample < 0 then -sample else sample
        (if acc.1 < magnitude then magnitude else acc.1, acc.2 + sample * sample)) acc =
        (samples.foldl (fun peak sample => max peak |sample|) acc.1,
          acc.2 + (samples.map fun sample => sample * sample).sum) := by
    induction samples with
    | nil => exact fun acc => Prod.ext rfl (Int.add_zero acc.2).symm
    | cons sample samples ih =>
        intro acc
        have magnitude : (if sample < 0 then -sample else sample) = |sample| := by
          split
          · exact (abs_of_neg ‹_›).symm
          · exact (abs_of_nonneg (not_lt.mp ‹_›)).symm
        have larger : (if acc.1 < |sample| then |sample| else acc.1) = max acc.1 |sample| := by
          split
          · exact (max_eq_right_of_lt ‹_›).symm
          · exact (max_eq_left (not_lt.mp ‹_›)).symm
        rw [List.foldl_cons, ih]
        simp only [magnitude, larger, List.foldl_cons, List.map_cons, List.sum_cons, Int.add_assoc]
  exact (each (0, 0)).trans (Prod.ext rfl (Int.zero_add _))

/-- The amplitude of a sample. -/
noncomputable def amplitude (sample : Int) : ℝ :=
  |(sample : ℝ)|

theorem peak_energyOfSamples (samples : List Int) :
    (energyOfSamples samples : AudioEnergy ℝ).peak = peak (samples.map amplitude) := by
  have cast : ∀ start : Int,
      ((samples.foldl (fun peak sample => max peak |sample|) start : Int) : ℝ) =
      (samples.map amplitude).foldl max (start : ℝ) := by
    induction samples with
    | nil => exact fun _ => rfl
    | cons sample samples ih =>
        intro start
        rw [List.foldl_cons, ih, List.map_cons, List.foldl_cons, Int.cast_max, Int.cast_abs]
        rfl
  unfold energyOfSamples
  rw [accumulateEnergy_eq]
  exact (cast 0).trans (by rw [Int.cast_zero]; rfl)

theorem rms_energyOfSamples (samples : List Int) :
    (energyOfSamples samples : AudioEnergy ℝ).rms = rms (samples.map amplitude) := by
  have squares : (((samples.map fun sample => sample * sample).sum : Int) : ℝ) =
      (samples.map fun sample => amplitude sample ^ 2).sum := by
    induction samples with
    | nil => simp
    | cons sample samples ih =>
        rw [List.map_cons, List.map_cons, List.sum_cons, List.sum_cons, Int.cast_add, ih,
          Int.cast_mul, amplitude, sq_abs, sq]
  unfold energyOfSamples
  rw [accumulateEnergy_eq, rms_map, ← squares]
  change (if 0 < samples.length then _ else _) = _
  split
  · rfl
  · rename_i none
    have empty : samples = [] := List.length_eq_zero_iff.mp (Nat.eq_zero_of_not_pos none)
    subst empty
    simp

/-! ## The payload of a codec -/

/-- A word is its low byte and its high one. -/
theorem word_of_bytes (word : UInt16) :
    word.toUInt8.toUInt16 ||| ((word >>> (8 : UInt16)).toUInt8.toUInt16 <<< 8) = word := by
  apply UInt16.toNat_inj.mp
  have width := UInt16.toNat_lt word
  have low : (word.toUInt8.toUInt16).toNat = word.toNat % 2 ^ 8 := by simp
  have high :
      ((word >>> (8 : UInt16)).toUInt8.toUInt16 <<< 8).toNat = (word.toNat / 2 ^ 8) <<< 8 := by
    simp [Nat.shiftLeft_eq, Nat.shiftRight_eq_div_pow]
    omega
  rw [UInt16.toNat_or, low, high, Nat.or_comm,
    ← Nat.shiftLeft_add_eq_or_of_lt (Nat.mod_lt _ (Nat.two_pow_pos 8)), Nat.shiftLeft_eq,
    Nat.div_add_mod']

theorem samples_pcm16Payload (samples : List Int16) :
    (List.range samples.length).map (pcm16Sample (byteAt (pcm16Payload samples))) =
      samples.map Int16.toInt := by
  induction samples with
  | nil => rfl
  | cons sample samples ih =>
      have first : pcm16Sample (byteAt (pcm16Payload (sample :: samples))) 0 = sample.toInt := by
        change ((sample.toUInt16.toUInt8).toUInt16 |||
          ((sample.toUInt16 >>> (8 : UInt16)).toUInt8.toUInt16 <<< 8)).toInt16.toInt = _
        rw [word_of_bytes]
        rfl
      rw [List.length_cons, List.range_succ_eq_map, List.map_cons, List.map_cons, first,
        List.map_map, ← ih]
      congr 1
      apply List.map_congr_left
      intro i _
      have step : (i + 1) * 2 = i * 2 + 2 := Nat.succ_mul i 2
      unfold Function.comp pcm16Sample
      rw [Nat.succ_eq_add_one, step]
      rfl

theorem samples_mulawPayload (samples : List Int16) :
    (List.range samples.length).map (fun i => mulawToLinear (byteAt (mulawPayload samples) i)) =
      samples.map fun sample => mulawToLinear (encodeMulaw sample) := by
  induction samples with
  | nil => rfl
  | cons sample samples ih =>
      rw [List.length_cons, List.range_succ_eq_map, List.map_cons, List.map_cons, List.map_map,
        ← ih]
      rfl

theorem length_pcm16Payload (samples : List Int16) :
    (pcm16Payload samples).length = samples.length * 2 := by
  rw [pcm16Payload, List.length_flatMap]
  simp

/-! ## Both codecs have about the same energy -/

theorem amplitude_mulaw_error (sample : Int16) :
    |amplitude (mulawToLinear (encodeMulaw sample)) - amplitude sample.toInt| ≤
      1 / 32 * (amplitude sample.toInt + 132) := by
  have small : sample.toInt.natAbs ≤ 32768 := by
    have least := sample.le_toInt
    have most := sample.toInt_lt
    omega
  have decoded : amplitude (mulawToLinear (encodeMulaw sample)) =
      companded sample.toInt.natAbs := by
    rw [amplitude, mulawToLinear_encodeMulaw]
    split
    · rw [Int.cast_neg, abs_neg, Int.cast_natCast, Nat.abs_cast]
    · rw [Int.cast_natCast, Nat.abs_cast]
  have sampled : amplitude sample.toInt = sample.toInt.natAbs := by
    rw [amplitude, Nat.cast_natAbs, Int.cast_abs]
  have error : (32 : ℝ) * |(companded sample.toInt.natAbs : ℝ) - sample.toInt.natAbs| ≤
      sample.toInt.natAbs + 132 := by
    have cast : ∀ a b : Nat, |(a : ℝ) - b| = (((a : Int) - b).natAbs : ℝ) := by
      intro a b
      rw [Nat.cast_natAbs]
      push_cast
      rfl
    rw [cast]
    exact_mod_cast companded_error small
  rw [decoded, sampled]
  linarith

/-- Both gauges of the decoded samples are within a fraction of those of the samples. -/
theorem gauge_close {gauge : List ℝ → ℝ} (isGauge : IsGauge gauge) (samples : List Int16) :
    |gauge ((samples.map fun sample => mulawToLinear (encodeMulaw sample)).map amplitude) -
        gauge ((samples.map Int16.toInt).map amplitude)| ≤
      (gauge ((samples.map Int16.toInt).map amplitude) + 132) / 32 := by
  rw [List.map_map, List.map_map, div_eq_inv_mul, ← one_div]
  exact isGauge.close (by norm_num) (by norm_num) (by norm_num) (fun _ _ => abs_nonneg _)
    (fun _ _ => abs_nonneg _) fun sample _ => amplitude_mulaw_error sample

/-- The peak and the RMS of the mu-law bytes of any samples are within a thirty-second of those of
their pcm16 bytes, and of the bias of the code. -/
theorem codecs_agree (samples : List Int16) :
    let pcm : AudioEnergy ℝ :=
      energyPcm16 (byteAt (pcm16Payload samples)) (pcm16Payload samples).length
    let mulaw : AudioEnergy ℝ :=
      energyMulaw (byteAt (mulawPayload samples)) (mulawPayload samples).length
    |mulaw.peak - pcm.peak| ≤ (pcm.peak + 132) / 32 ∧
      |mulaw.rms - pcm.rms| ≤ (pcm.rms + 132) / 32 := by
  intro pcm mulaw
  have sampled : pcm = energyOfSamples (samples.map Int16.toInt) := by
    change energyPcm16 _ _ = _
    rw [energyPcm16, length_pcm16Payload, Nat.mul_div_cancel _ Nat.two_pos, samples_pcm16Payload]
  have decoded : mulaw =
      energyOfSamples (samples.map fun sample => mulawToLinear (encodeMulaw sample)) := by
    change energyMulaw _ _ = _
    rw [energyMulaw, mulawPayload, List.length_map, ← samples_mulawPayload]
    rfl
  rw [sampled, decoded, peak_energyOfSamples, peak_energyOfSamples, rms_energyOfSamples,
    rms_energyOfSamples]
  exact ⟨gauge_close isGauge_peak samples, gauge_close isGauge_rms samples⟩

end

end VoiceHotPath
