import VoiceHotPath.Codec

/-!
# Energy in machine words

The loops of the energy functions run on 16-, 32- and 64-bit words.  No frame is
long enough for one of them to wrap, so what they compute are the numbers of the
exact energy, whose gauges bound each other.
-/

namespace VoiceHotPath

/-- One sample of the loops, in their words. -/
def accumulateWord (acc : Int32 × Int64) (sample : Int16) : Int32 × Int64 :=
  let magnitude := if sample < 0 then -sample.toInt32 else sample.toInt32
  (if acc.1 < magnitude then magnitude else acc.1, acc.2 + sample.toInt64 * sample.toInt64)

/-- Largest magnitude and sum of squares, in the words of the loops. -/
def accumulateWords (samples : List Int16) : Int32 × Int64 :=
  samples.foldl accumulateWord (0, 0)

/-- A sample of `energy_pcm16`. -/
def pcm16Word (bytes : Nat → UInt8) (i : Nat) : Int16 :=
  ((bytes (i * 2)).toUInt16 ||| ((bytes (i * 2 + 1)).toUInt16 <<< 8)).toInt16

/-- `kMulawTable`. -/
def mulawTable (value : UInt8) : Int16 :=
  Int16.ofInt (mulawToLinear value)

/-- The samples the loops run over. -/
def frameWords (frame : AudioFrame) : List Int16 :=
  if frame.hdr.format = AudioFormat.mulaw8.code then
    (List.range frame.hdr.byteLen.toNat).map fun i => mulawTable (frame.payloadAt i)
  else
    (List.range (frame.hdr.byteLen.toNat / 2)).map (pcm16Word frame.payloadAt)

/-- `frame_energy`, its integers computed in words. -/
def frameEnergyWords {D : Type} [Double D] (frame : AudioFrame) : AudioEnergy D :=
  let samples := frameWords frame
  let (peak, sumSquares) := accumulateWords samples
  let n := samples.length
  let peak : D := (peak.toInt : D)
  let rms : D :=
    if 0 < n then Double.sqrt ((sumSquares.toInt : D) / ((n : Int) : D)) else ((0 : Int) : D)
  { peak := peak
    rms := rms
    peakNorm := peak / kPcm16MaxAmplitude
    rmsNorm := rms / kPcm16MaxAmplitude
    samples := UInt32.ofNat n }

/-! ## No word wraps -/

/-- The magnitude of the lowest sample has no 16-bit word, but a 32-bit one. -/
theorem toInt_magnitude (sample : Int16) :
    (if sample < 0 then -sample.toInt32 else sample.toInt32).toInt =
      if sample.toInt < 0 then -sample.toInt else sample.toInt := by
  have least := sample.le_toInt
  have most := sample.toInt_lt
  by_cases negative : sample < 0
  · have below : sample.toInt < 0 := Int16.lt_iff_toInt_lt.mp negative
    rw [if_pos negative, if_pos below, Int32.toInt_neg, Int16.toInt_toInt32]
    exact Int.bmod_eq_of_le_mul_two (by omega) (by omega)
  · have above : ¬ sample.toInt < 0 := fun below => negative (Int16.lt_iff_toInt_lt.mpr below)
    rw [if_neg negative, if_neg above, Int16.toInt_toInt32]

theorem sq_sample_le (sample : Int16) :
    0 ≤ sample.toInt * sample.toInt ∧ sample.toInt * sample.toInt ≤ 2 ^ 30 := by
  have least := sample.le_toInt
  have most := sample.toInt_lt
  constructor
  · exact mul_self_nonneg _
  · nlinarith

/-- One sample of the loops, in numbers. -/
def accumulateSample (acc : Int × Int) (sample : Int) : Int × Int :=
  let magnitude := if sample < 0 then -sample else sample
  (if acc.1 < magnitude then magnitude else acc.1, acc.2 + sample * sample)

/-- The words stand for the numbers after `n` samples. -/
structure Stands (words : Int32 × Int64) (numbers : Int × Int) (n : Nat) : Prop where
  peak : words.1.toInt = numbers.1
  sum : words.2.toInt = numbers.2
  nonneg : 0 ≤ numbers.2
  small : numbers.2 ≤ n * 2 ^ 30

/-- Step lemma: one more sample. -/
theorem Stands.sample {words : Int32 × Int64} {numbers : Int × Int} {n : Nat}
    (stands : Stands words numbers n) (room : n < 2 ^ 32) (sample : Int16) :
    Stands (accumulateWord words sample) (accumulateSample numbers sample.toInt) (n + 1) := by
  obtain ⟨least, most⟩ := sq_sample_le sample
  have magnitude := toInt_magnitude sample
  have nonneg := stands.nonneg
  have small := stands.small
  have square : (sample.toInt64 * sample.toInt64).toInt = sample.toInt * sample.toInt := by
    rw [Int64.toInt_mul, Int16.toInt_toInt64]
    exact Int.bmod_eq_of_le_mul_two (by omega) (by omega)
  unfold accumulateWord accumulateSample
  constructor
  · dsimp only
    rw [← magnitude, ← stands.peak]
    simp only [← Int32.lt_iff_toInt_lt]
    exact apply_ite Int32.toInt _ _ _
  · dsimp only
    rw [Int64.toInt_add, square, stands.sum]
    exact Int.bmod_eq_of_le_mul_two (by omega) (by omega)
  · exact Int.add_nonneg nonneg least
  · dsimp only
    push_cast
    omega

/-- Run lemma: all samples of a frame. -/
theorem stands_accumulate {samples : List Int16} (short : samples.length ≤ 2 ^ 32) :
    Stands (accumulateWords samples) (accumulateEnergy (samples.map Int16.toInt))
      samples.length := by
  have each : ∀ (words : Int32 × Int64) (numbers : Int × Int) (n : Nat),
      Stands words numbers n → n + samples.length ≤ 2 ^ 32 →
      Stands (samples.foldl accumulateWord words)
        ((samples.map Int16.toInt).foldl accumulateSample numbers) (n + samples.length) := by
    induction samples with
    | nil => exact fun _ _ _ stands _ => stands
    | cons sample samples ih =>
        intro words numbers n stands room
        rw [List.length_cons] at room short
        have next := ih (by omega) _ _ (n + 1) (stands.sample (by omega) sample) (by omega)
        rw [List.length_cons, Nat.add_comm samples.length, ← Nat.add_assoc]
        exact next
  have begun : Stands (0, 0) (0, 0) 0 := ⟨rfl, rfl, Int.le_refl 0, Int.le_refl 0⟩
  have done := each _ _ 0 begun (by omega)
  rw [Nat.zero_add] at done
  exact done

/-! ## The energy of a frame -/

theorem toInt_mulawTable (value : UInt8) : (mulawTable value).toInt = mulawToLinear value := by
  have bounds : -32768 ≤ mulawToLinear value ∧ mulawToLinear value ≤ 32767 := by
    unfold mulawToLinear
    dsimp only
    split <;> (split <;> omega)
  exact Int16.toInt_ofInt_of_le bounds.1 (Int.lt_add_one_of_le bounds.2)

theorem length_frameWords (frame : AudioFrame) : (frameWords frame).length < 2 ^ 32 := by
  have width := frame.hdr.byteLen.toNat_lt
  unfold frameWords
  split
  · rw [List.length_map, List.length_range]
    exact width
  · rw [List.length_map, List.length_range]
    exact Nat.lt_of_le_of_lt (Nat.div_le_self _ _) width

variable {D : Type} [Double D]

theorem frameEnergy_eq (frame : AudioFrame) :
    (frameEnergy frame : AudioEnergy D) = energyOfSamples ((frameWords frame).map Int16.toInt) := by
  unfold frameEnergy frameWords
  split
  · rw [energyMulaw, List.map_map]
    congr 2
    funext i
    exact (toInt_mulawTable _).symm
  · rw [energyPcm16, List.map_map]
    rfl

theorem frameEnergyWords_eq (frame : AudioFrame) :
    (frameEnergyWords frame : AudioEnergy D) = frameEnergy frame := by
  have stands := stands_accumulate (Nat.le_of_lt (length_frameWords frame))
  rw [frameEnergy_eq, frameEnergyWords, energyOfSamples]
  dsimp only
  rw [stands.peak, stands.sum, List.length_map]

/-! ## The gauges of a frame -/

section

open Amplitude

theorem amplitude_sample_le (sample : Int16) : amplitude sample.toInt ≤ 32768 := by
  have least := sample.le_toInt
  have most := sample.toInt_lt
  have bound : |sample.toInt| ≤ 32768 := abs_le.mpr ⟨by omega, by omega⟩
  rw [amplitude, ← Int.cast_abs]
  exact_mod_cast bound

/-- The integer loops on any frame, of either codec and any `byte_len`, compute in their words what
they would in numbers, a sum of squares of 30 bits for each sample; over exact reals the
normalised RMS is at most the normalised peak, that at most one, and the peak at most the RMS
times the root of the number of samples. -/
theorem energy_exact (frame : AudioFrame) :
    (∀ (D : Type) [Double D], (frameEnergyWords frame : AudioEnergy D) = frameEnergy frame) ∧
      (accumulateWords (frameWords frame)).2.toInt ≤ (frameWords frame).length * 2 ^ 30 ∧
      let energy : AudioEnergy ℝ := frameEnergy frame
      0 ≤ energy.rmsNorm ∧ energy.rmsNorm ≤ energy.peakNorm ∧ energy.peakNorm ≤ 1 ∧
        energy.peakNorm ≤ √energy.samples.toNat * energy.rmsNorm := by
  have stands := stands_accumulate (Nat.le_of_lt (length_frameWords frame))
  refine ⟨fun D _ => frameEnergyWords_eq frame, ?_, ?_⟩
  · rw [stands.sum]
    exact stands.small
  · intro energy
    have same : energy = energyOfSamples ((frameWords frame).map Int16.toInt) :=
      frameEnergy_eq frame
    have peak :
        energy.peak = Amplitude.peak (((frameWords frame).map Int16.toInt).map amplitude) := by
      rw [same, peak_energyOfSamples]
    have rms : energy.rms = Amplitude.rms (((frameWords frame).map Int16.toInt).map amplitude) := by
      rw [same, rms_energyOfSamples]
    have count : energy.samples.toNat = (frameWords frame).length := by
      have number : energy.samples = UInt32.ofNat ((frameWords frame).map Int16.toInt).length := by
        rw [same]
        rfl
      rw [number, List.length_map]
      exact UInt32.toNat_ofNat_of_lt' (length_frameWords frame)
    have full : ((32768 : Int) : ℝ) = 32768 := by norm_num
    have peakNorm : energy.peakNorm = energy.peak / 32768 := by
      rw [← full, same]
      rfl
    have rmsNorm : energy.rmsNorm = energy.rms / 32768 := by
      rw [← full, same]
      rfl
    have positive : (0 : ℝ) < 32768 := by norm_num
    rw [List.map_map] at peak rms
    have positives : ∀ sample ∈ frameWords frame, 0 ≤ (amplitude ∘ Int16.toInt) sample :=
      fun _ _ => abs_nonneg _
    refine ⟨?_, ?_, ?_, ?_⟩
    · rw [rmsNorm, rms]
      exact div_nonneg (rms_nonneg _) positive.le
    · rw [rmsNorm, peakNorm, rms, peak]
      exact div_le_div_of_nonneg_right (rms_le_peak positives) positive.le
    · rw [peakNorm, peak, div_le_one positive]
      apply foldl_max_le positive.le
      intro x member
      obtain ⟨sample, -, rfl⟩ := List.mem_map.mp member
      exact amplitude_sample_le sample
    · rw [peakNorm, rmsNorm, peak, rms, count, ← mul_div_assoc]
      exact div_le_div_of_nonneg_right (peak_le_rms _ _) positive.le

end

end VoiceHotPath
