import Mathlib.Data.Rat.Floor
import Mathlib.Tactic.Positivity
import VoiceHotPath.Codec
import VoiceHotPath.Consumer.SendLoop
import VoiceHotPath.Lib.Block
import VoiceHotPath.Rng
import VoiceHotPath.Vad.HangoverSweep

/-!
# The signal of the load generator

Utterances of noise over a floor of noise.  Whatever the seed, a frame of the floor
is below thresholds that are above it, in both codecs; so what the gate takes for
speech is speech of the schedule.
-/

namespace VoiceHotPath

/-- The conversion of a `double` to an integer, which rounds towards zero. -/
def truncate (q : ℚ) : Int :=
  q.num.tdiv q.den

/-- `fmod` -/
def fmod (x y : ℚ) : ℚ :=
  x - y * truncate (x / y)

/-- `Rng::uniform`, a number of 53 bits scaled to the interval from minus one to one. -/
def Rng.uniform (rng : Rng) : ℚ × Rng :=
  let (bits, rng) := rng.next
  (((bits >>> 11).toNat : ℚ) / 2 ^ 52 - 1, rng)

/-- One sample of `fill_payload`. -/
def Rng.sample (amplitude : ℚ) (rng : Rng) : Int16 × Rng :=
  let (uniform, rng) := rng.uniform
  (Int16.ofInt (truncate (uniform * amplitude * 32767)), rng)

def Rng.samples (amplitude : ℚ) : Nat → Rng → List Int16 × Rng
  | 0, rng => ([], rng)
  | n + 1, rng =>
      let (sample, rng) := rng.sample amplitude
      let (samples, rng) := samples amplitude n rng
      (sample :: samples, rng)

/-- `bytes_per_sample`. -/
def AudioFormat.bytesPerSample : AudioFormat → Nat
  | pcm16Le => 2
  | mulaw8 => 1

/-- The bytes `fill_payload` writes for some samples. -/
def AudioFormat.encode : AudioFormat → List Int16 → List UInt8
  | pcm16Le => pcm16Payload
  | mulaw8 => mulawPayload

/-- `fill_payload`: the payload, `byte_len`, and the generator after it. -/
def fillPayload (payload : Vector UInt8 kFramePayloadBytes) (rng : Rng) (amplitude : ℚ)
    (format : AudioFormat) (samples : Nat) : (Vector UInt8 kFramePayloadBytes × UInt32) × Rng :=
  let (drawn, rng) := rng.samples amplitude samples
  ((Block.store payload 0 (format.encode drawn), UInt32.ofNat (samples * format.bytesPerSample)),
    rng)

/-- The options of the producer that shape its frames. -/
structure SignalOptions where
  send : SendOptions
  frameMs : ℚ := 20
  speechMs : ℚ := 1500
  gapMs : ℚ := 900
  wordGapMs : ℚ := 0
  wordEveryMs : ℚ := 320
  speechAmplitude : ℚ := 25 / 100
  noiseFloor : ℚ := 4 / 1000
  deriving DecidableEq, Repr

namespace SignalOptions

variable (options : SignalOptions)

def samplesPerFrame : Nat :=
  (truncate (options.send.sampleRate.toNat * options.frameMs / 1000)).toNat

def cycleMs : ℚ :=
  options.speechMs + options.gapMs

/-- Whether a session speaks in a tick. -/
def speech (seq : UInt64) (session : UInt32) : Bool :=
  let offsetMs := options.cycleMs * session.toNat / options.send.sessions.toNat
  let phaseMs := fmod (seq.toNat * options.frameMs + offsetMs)
    (if 0 < options.cycleMs then options.cycleMs else 1)
  if phaseMs < options.speechMs ∧ 0 < options.wordGapMs ∧ 0 < options.wordEveryMs then
    fmod phaseMs options.wordEveryMs < options.wordEveryMs - options.wordGapMs
  else phaseMs < options.speechMs

/-- The amplitude of a frame. -/
def amplitude (seq : UInt64) (session : UInt32) : ℚ :=
  if options.speech seq session then options.speechAmplitude else options.noiseFloor

/-- The frames made for some ticks and sessions, one generator and one payload serving them all. -/
def produced (clock : Nat → UInt64 × UInt64) :
    Rng → Vector UInt8 kFramePayloadBytes → List (UInt64 × UInt32) → List AudioFrame
  | _, _, [] => []
  | rng, payload, (seq, session) :: rest =>
      let ((payload, byteLen), rng) := fillPayload payload rng (options.amplitude seq session)
        options.send.format options.samplesPerFrame
      let (targetNs, nowNs) := clock rest.length
      let send : SendLoop := { seq := seq, session := session }
      send.frame options.send ⟨false, payload, byteLen, targetNs, nowNs⟩ ::
        produced clock rng payload rest

end SignalOptions

/-! ## The schedule in whole milliseconds -/

theorem truncate_natCast_div (a b : Nat) : truncate ((a : ℚ) / b) = (a / b : Nat) := by
  have positive : 0 ≤ ((a : ℚ) / b).num := Rat.num_nonneg.mpr (by positivity)
  have floor : ⌊(a : ℚ) / b⌋ = ((a / b : Nat) : Int) := Rat.floor_natCast_div_natCast a b
  rw [truncate, Int.tdiv_eq_ediv_of_nonneg positive, ← floor]
  exact (Rat.floor_def _).symm

theorem fmod_natCast (a b : Nat) : fmod a b = (a % b : Nat) := by
  have division : (a : ℚ) = b * (a / b : Nat) + (a % b : Nat) := by
    exact_mod_cast (Nat.div_add_mod a b).symm
  rw [fmod, truncate_natCast_div, Int.cast_natCast]
  linarith

/-- The signal options of a sweep. -/
def Utterances.options (utterances : Utterances) (send : SendOptions) : SignalOptions :=
  { send := send
    frameMs := utterances.frameMs
    speechMs := utterances.speechMs
    gapMs := utterances.gapMs
    wordGapMs := utterances.wordGapMs
    wordEveryMs := utterances.wordEveryMs }

/-- The schedule of the first session is that of the sweep. -/
theorem SignalOptions.speech_utterances (utterances : Utterances) (send : SendOptions)
    (seq : UInt64) :
    (utterances.options send).speech seq 0 = utterances.speech seq.toNat := by
  have cycle : (utterances.options send).cycleMs = (utterances.cycleMs : ℚ) := by
    rw [cycleMs, Utterances.cycleMs, Nat.cast_add]
    rfl
  have modulus : (if 0 < (utterances.options send).cycleMs then (utterances.options send).cycleMs
      else 1) = ((if 0 < utterances.cycleMs then utterances.cycleMs else 1 : Nat) : ℚ) := by
    rw [cycle]
    split
    · rename_i positive
      rw [if_pos (by exact_mod_cast positive)]
    · rename_i zero
      rw [if_neg (by exact_mod_cast zero), Nat.cast_one]
  have phase : (seq.toNat : ℚ) * (utterances.options send).frameMs +
      (utterances.options send).cycleMs * ((0 : UInt32).toNat : ℚ) / send.sessions.toNat =
      ((seq.toNat * utterances.frameMs : Nat) : ℚ) := by
    have first : ((0 : UInt32).toNat : ℚ) = 0 := rfl
    rw [first, mul_zero, zero_div, add_zero, Nat.cast_mul]
    rfl
  have sessions : (utterances.options send).send.sessions = send.sessions := rfl
  unfold SignalOptions.speech Utterances.speech
  dsimp only
  rw [sessions, phase, modulus, fmod_natCast]
  have words : (utterances.options send).wordEveryMs = (utterances.wordEveryMs : ℚ) := rfl
  have pause : (utterances.options send).wordGapMs = (utterances.wordGapMs : ℚ) := rfl
  have length : (utterances.options send).speechMs = (utterances.speechMs : ℚ) := rfl
  rw [words, pause, length, fmod_natCast]
  have inside : ∀ p : Nat, ((p % utterances.wordEveryMs : Nat) : ℚ) <
      utterances.wordEveryMs - utterances.wordGapMs ↔
        p % utterances.wordEveryMs < utterances.wordEveryMs - utterances.wordGapMs := by
    intro p
    rw [lt_sub_iff_add_lt, Nat.lt_sub_iff_add_lt]
    exact_mod_cast Iff.rfl
  simp only [Nat.cast_lt, Nat.cast_pos, inside]

/-! ## The samples -/

section

variable {amplitude : ℚ}

/-- Rounding towards zero does not add to the magnitude. -/
theorem abs_truncate_le (q : ℚ) : |(truncate q : ℚ)| ≤ |q| := by
  have den : (0 : ℚ) < q.den := by exact_mod_cast q.den_pos
  have quotient : (truncate q).natAbs * q.den ≤ q.num.natAbs := by
    rw [truncate, Int.natAbs_tdiv]
    exact Nat.div_mul_le_self _ _
  have scaled : |(truncate q : ℚ)| * q.den ≤ |(q.num : ℚ)| := by
    rw [← Int.cast_abs, ← Int.cast_abs, Int.abs_eq_natAbs, Int.abs_eq_natAbs]
    exact_mod_cast quotient
  have whole : |q| = |(q.num : ℚ)| / q.den := by
    conv_lhs => rw [← Rat.num_div_den q]
    rw [abs_div, abs_of_pos den]
  rw [whole, le_div_iff₀ den]
  exact scaled

theorem abs_uniform_le (rng : Rng) : |rng.uniform.1| ≤ 1 := by
  have bits : (rng.next.1 >>> 11).toNat < 2 ^ 53 := by
    rw [UInt64.toNat_shiftRight, Nat.shiftRight_eq_div_pow]
    have width := rng.next.1.toNat_lt
    exact Nat.div_lt_of_lt_mul width
  have below : ((rng.next.1 >>> 11).toNat : ℚ) ≤ 2 * 2 ^ 52 := by
    have cast : (rng.next.1 >>> 11).toNat ≤ 2 * 2 ^ 52 := Nat.le_of_lt bits
    exact_mod_cast cast
  have above : (0 : ℚ) ≤ (rng.next.1 >>> 11).toNat := Nat.cast_nonneg _
  have value : rng.uniform.1 = ((rng.next.1 >>> 11).toNat : ℚ) / 2 ^ 52 - 1 := rfl
  have quotient : ((rng.next.1 >>> 11).toNat : ℚ) / 2 ^ 52 ≤ 2 :=
    (div_le_iff₀ (by positivity)).mpr below
  have positive : 0 ≤ ((rng.next.1 >>> 11).toNat : ℚ) / 2 ^ 52 := by positivity
  rw [value, abs_le]
  constructor
  · linarith
  · linarith

theorem abs_sample_le (positive : 0 ≤ amplitude) (small : amplitude ≤ 1) (rng : Rng) :
    |((rng.sample amplitude).1.toInt : ℚ)| ≤ amplitude * 32767 := by
  have bound : |(truncate (rng.uniform.1 * amplitude * 32767) : ℚ)| ≤ amplitude * 32767 := by
    apply (abs_truncate_le _).trans
    rw [abs_mul, abs_mul, abs_of_nonneg positive, abs_of_nonneg (by norm_num : (0 : ℚ) ≤ 32767)]
    have scaled := mul_le_mul_of_nonneg_right (abs_uniform_le rng) positive
    linarith
  have narrow : |truncate (rng.uniform.1 * amplitude * 32767)| ≤ 32767 := by
    have wide : |(truncate (rng.uniform.1 * amplitude * 32767) : ℚ)| ≤ 32767 := by linarith
    exact_mod_cast wide
  obtain ⟨least, most⟩ := abs_le.mp narrow
  have exact : (Int16.ofInt (truncate (rng.uniform.1 * amplitude * 32767))).toInt =
      truncate (rng.uniform.1 * amplitude * 32767) :=
    Int16.toInt_ofInt_of_le (by omega) (by omega)
  change |((Int16.ofInt (truncate (rng.uniform.1 * amplitude * 32767))).toInt : ℚ)| ≤ _
  rw [exact]
  exact bound

theorem length_samples (amplitude : ℚ) (n : Nat) (rng : Rng) :
    (rng.samples amplitude n).1.length = n := by
  induction n generalizing rng with
  | zero => rfl
  | succ n ih => exact congrArg Nat.succ (ih _)

theorem abs_samples_le (positive : 0 ≤ amplitude) (small : amplitude ≤ 1) (n : Nat) (rng : Rng) :
    ∀ sample ∈ (rng.samples amplitude n).1, |(sample.toInt : ℚ)| ≤ amplitude * 32767 := by
  induction n generalizing rng with
  | zero =>
      intro sample absent
      cases absent
  | succ n ih => exact List.forall_mem_cons.mpr ⟨abs_sample_le positive small rng, ih _⟩

end

/-! ## The energy of a frame -/

theorem length_encode (format : AudioFormat) (samples : List Int16) :
    (format.encode samples).length = samples.length * format.bytesPerSample := by
  cases format with
  | pcm16Le => exact length_pcm16Payload samples
  | mulaw8 =>
      change (mulawPayload samples).length = samples.length * 1
      rw [mulawPayload, List.length_map, Nat.mul_one]

/-- What a sample decodes to. -/
def AudioFormat.decoded : AudioFormat → Int16 → Int
  | pcm16Le, sample => sample.toInt
  | mulaw8, sample => mulawToLinear (encodeMulaw sample)

/-- The frame carries the bytes of some samples. -/
structure Carries (format : AudioFormat) (samples : List Int16) (frame : AudioFrame) : Prop where
  fits : samples.length * format.bytesPerSample ≤ kFramePayloadBytes
  coded : frame.hdr.format = format.code
  byteLen : frame.hdr.byteLen = UInt32.ofNat (samples.length * format.bytesPerSample)
  payload : ∃ payload, frame.payload = Block.store payload 0 (format.encode samples)

theorem Carries.toNat_byteLen {format : AudioFormat} {samples : List Int16} {frame : AudioFrame}
    (carries : Carries format samples frame) :
    frame.hdr.byteLen.toNat = samples.length * format.bytesPerSample := by
  have fits := carries.fits
  unfold kFramePayloadBytes at fits
  rw [carries.byteLen, UInt32.toNat_ofNat']
  exact Nat.mod_eq_of_lt (by omega)

theorem Carries.payloadAt {format : AudioFormat} {samples : List Int16} {frame : AudioFrame}
    (carries : Carries format samples frame) {i : Nat}
    (inside : i < samples.length * format.bytesPerSample) :
    frame.payloadAt i = byteAt (format.encode samples) i := by
  obtain ⟨payload, stored⟩ := carries.payload
  have length := length_encode format samples
  rw [AudioFrame.payloadAt, stored,
    Block.getElem?_store _ _ _ (Nat.lt_of_lt_of_le inside carries.fits), if_pos (by omega),
    Nat.sub_zero, byteAt, List.getD_eq_getElem?_getD]

/-- The energy of a frame is that of what its samples decode to. -/
theorem Carries.frameEnergy_eq {D : Type} [Double D] {format : AudioFormat} {samples : List Int16}
    {frame : AudioFrame} (carries : Carries format samples frame) :
    (frameEnergy frame : AudioEnergy D) = energyOfSamples (samples.map format.decoded) := by
  have length := carries.toNat_byteLen
  rw [frameEnergy, carries.coded]
  cases format with
  | pcm16Le =>
      have half : samples.length * AudioFormat.pcm16Le.bytesPerSample / 2 = samples.length :=
        Nat.mul_div_cancel _ Nat.two_pos
      rw [if_neg (by decide), energyPcm16, length, half]
      have read : (List.range samples.length).map (pcm16Sample frame.payloadAt) =
          (List.range samples.length).map (pcm16Sample (byteAt (pcm16Payload samples))) := by
        apply List.map_congr_left
        intro i member
        have inside := List.mem_range.mp member
        have width : samples.length * AudioFormat.pcm16Le.bytesPerSample = samples.length * 2 := rfl
        rw [pcm16Sample, carries.payloadAt (by omega), carries.payloadAt (by omega)]
        rfl
      rw [read, samples_pcm16Payload]
      rfl
  | mulaw8 =>
      have whole : samples.length * AudioFormat.mulaw8.bytesPerSample = samples.length :=
        Nat.mul_one _
      rw [if_pos rfl, energyMulaw, length, whole]
      have read : (List.range samples.length).map (fun i => mulawToLinear (frame.payloadAt i)) =
          (List.range samples.length).map fun i =>
            mulawToLinear (byteAt (mulawPayload samples) i) := by
        apply List.map_congr_left
        intro i member
        have inside := List.mem_range.mp member
        rw [carries.payloadAt (by omega)]
        rfl
      rw [read, samples_mulawPayload]
      rfl

/-- The largest amplitude that samples up to a bound decode to, or more. -/
def AudioFormat.ceiling : AudioFormat → ℚ → ℚ
  | pcm16Le, bound => bound
  | mulaw8, bound => bound + (bound + 132) / 32

theorem amplitude_decoded_le {format : AudioFormat} {sample : Int16} {bound : ℚ}
    (small : |(sample.toInt : ℚ)| ≤ bound) :
    amplitude (format.decoded sample) ≤ (format.ceiling bound : ℚ) := by
  have direct : amplitude sample.toInt ≤ bound := by
    rw [amplitude]
    exact_mod_cast small
  cases format with
  | pcm16Le => exact direct
  | mulaw8 =>
      have error := (abs_le.mp (amplitude_mulaw_error sample)).2
      change amplitude (mulawToLinear (encodeMulaw sample)) ≤ ((bound + (bound + 132) / 32 : ℚ) : ℝ)
      push_cast
      linarith

/-- Both gauges of a frame are below what bounds its samples. -/
theorem Carries.gauges_le {format : AudioFormat} {samples : List Int16} {frame : AudioFrame}
    (carries : Carries format samples frame) {bound : ℚ} (positive : 0 ≤ bound)
    (small : ∀ sample ∈ samples, |(sample.toInt : ℚ)| ≤ bound) :
    (frameEnergy frame : AudioEnergy ℝ).rms ≤ (format.ceiling bound : ℚ) ∧
      (frameEnergy frame : AudioEnergy ℝ).peak ≤ (format.ceiling bound : ℚ) := by
  have ceiling : (0 : ℝ) ≤ (format.ceiling bound : ℚ) := by
    have nonneg : 0 ≤ format.ceiling bound := by
      cases format with
      | pcm16Le => exact positive
      | mulaw8 =>
          unfold AudioFormat.ceiling
          positivity
    exact_mod_cast nonneg
  have each : ∀ sample ∈ samples, (amplitude ∘ format.decoded) sample ≤
      0 * (fun _ => 0) sample + ((format.ceiling bound : ℚ) : ℝ) := by
    intro sample member
    rw [zero_mul, zero_add]
    exact amplitude_decoded_le (small sample member)
  have gauge : ∀ {gauge : List ℝ → ℝ}, Amplitude.IsGauge gauge →
      gauge ((samples.map format.decoded).map amplitude) ≤ (format.ceiling bound : ℚ) := by
    intro gauge isGauge
    have bounded := isGauge Int16 samples (fun _ => 0) (amplitude ∘ format.decoded) 0 _ (le_refl 0)
      ceiling (fun _ _ => abs_nonneg _) each
    rwa [zero_mul, zero_add, ← List.map_map] at bounded
  rw [carries.frameEnergy_eq, rms_energyOfSamples, peak_energyOfSamples]
  exact ⟨gauge Amplitude.isGauge_rms, gauge Amplitude.isGauge_peak⟩

/-- The thresholds that are set are above a level. -/
def GateConfig.Above (config : GateConfig ℝ) (level : ℚ) : Prop :=
  ∀ threshold, config.rmsThreshold = some threshold ∨ config.peakThreshold = some threshold →
    (level : ℝ) < threshold * 32768

theorem normalised (samples : List Int) :
    (energyOfSamples samples : AudioEnergy ℝ).rmsNorm =
        (energyOfSamples samples : AudioEnergy ℝ).rms / 32768 ∧
      (energyOfSamples samples : AudioEnergy ℝ).peakNorm =
        (energyOfSamples samples : AudioEnergy ℝ).peak / 32768 := by
  have full : (kPcm16MaxAmplitude : ℝ) = 32768 := by
    change ((32768 : Int) : ℝ) = 32768
    norm_num
  rw [← full]
  exact ⟨rfl, rfl⟩

/-- A frame whose samples stay below the thresholds is quiet. -/
theorem Carries.quiet {format : AudioFormat} {samples : List Int16} {frame : AudioFrame}
    (carries : Carries format samples frame) {bound : ℚ} (positive : 0 ≤ bound)
    (small : ∀ sample ∈ samples, |(sample.toInt : ℚ)| ≤ bound) {config : GateConfig ℝ}
    (above : config.Above (format.ceiling bound)) : config.loud (frameEnergy frame) = false := by
  obtain ⟨rms, peak⟩ := carries.gauges_le positive small
  obtain ⟨rmsNorm, peakNorm⟩ := normalised (samples.map format.decoded)
  rw [carries.frameEnergy_eq] at rms peak ⊢
  have below : ∀ {setting : Option ℝ} {gauge norm : ℝ},
      (∀ threshold, setting = some threshold →
        ((format.ceiling bound : ℚ) : ℝ) < threshold * 32768) →
        gauge ≤ (format.ceiling bound : ℚ) → norm = gauge / 32768 →
          setting.any (fun threshold => threshold ≤ norm) = false := by
    rintro setting gauge norm above low rfl
    cases setting with
    | none => rfl
    | some threshold =>
        have high := above threshold rfl
        apply decide_eq_false
        intro met
        linarith
  rw [GateConfig.loud, below (fun threshold set => above threshold (.inl set)) rms rmsNorm,
    below (fun threshold set => above threshold (.inr set)) peak peakNorm]
  rfl

/-! ## The run of the producer -/

namespace SignalOptions

variable {options : SignalOptions}

/-- The check of `main` before the loop, on a floor of noise that is one. -/
structure Sound (options : SignalOptions) : Prop where
  fits : options.samplesPerFrame * options.send.format.bytesPerSample ≤ kFramePayloadBytes
  floor_nonneg : 0 ≤ options.noiseFloor
  floor_le : options.noiseFloor ≤ 1

/-- The loudest a frame of the floor can be. -/
def noiseCeiling (options : SignalOptions) : ℚ :=
  options.send.format.ceiling (options.noiseFloor * 32767)

/-- Every frame made carries samples of the amplitude that the schedule has for it. -/
theorem produced_carries (sound : options.Sound) (clock : Nat → UInt64 × UInt64) {rng : Rng}
    {payload : Vector UInt8 kFramePayloadBytes} {slots : List (UInt64 × UInt32)} :
    ∀ frame ∈ options.produced clock rng payload slots, ∃ rng : Rng,
      Carries options.send.format (rng.samples
        (options.amplitude frame.hdr.seq frame.hdr.sessionId) options.samplesPerFrame).1 frame := by
  induction slots generalizing rng payload with
  | nil =>
      intro frame absent
      cases absent
  | cons slot slots ih =>
      obtain ⟨seq, session⟩ := slot
      intro frame member
      rcases List.mem_cons.mp member with rfl | later
      · have length := length_samples (options.amplitude seq session) options.samplesPerFrame rng
        refine ⟨rng, ?_, rfl, ?_, payload, rfl⟩
        · change (rng.samples (options.amplitude seq session) _).1.length * _ ≤ _
          rw [length]
          exact sound.fits
        · change UInt32.ofNat _ = UInt32.ofNat
            ((rng.samples (options.amplitude seq session) _).1.length * _)
          rw [length]
      · exact ih frame later

/-- In a frame that is loud to the gate the schedule speaks. -/
theorem speech_of_loud (sound : options.Sound) {config : GateConfig ℝ}
    (above : config.Above options.noiseCeiling) {clock : Nat → UInt64 × UInt64} {rng : Rng}
    {payload : Vector UInt8 kFramePayloadBytes} {slots : List (UInt64 × UInt32)}
    {frame : AudioFrame} (made : frame ∈ options.produced clock rng payload slots)
    (loud : config.loud (frameEnergy frame) = true) :
    options.speech frame.hdr.seq frame.hdr.sessionId = true := by
  by_contra silent
  obtain ⟨rng, carries⟩ := produced_carries sound clock frame made
  have floor : options.amplitude frame.hdr.seq frame.hdr.sessionId = options.noiseFloor :=
    if_neg silent
  rw [floor] at carries
  have quiet := carries.quiet (mul_nonneg sound.floor_nonneg (by norm_num))
    (abs_samples_le sound.floor_nonneg sound.floor_le _ rng) above
  rw [loud] at quiet
  cases quiet

end SignalOptions

end VoiceHotPath
