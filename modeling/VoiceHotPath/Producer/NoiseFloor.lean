import VoiceHotPath.Producer.Signal
import VoiceHotPath.Vad.Coverage
import VoiceHotPath.Vad.Reuse

/-!
# Noise opens no chunk

The loud counter of the gate never runs ahead of the loud frames received, so an
onset ends a run of loud frames.  On frames of the load generator these are frames
in which the schedule speaks.
-/

namespace VoiceHotPath

section

variable {D : Type} [Double D]

/-- A quiet frame clears the loud counter. -/
theorem SpeechThresholdGate.loudFrames_accept_of_quiet {gate : SpeechThresholdGate D}
    {energy : AudioEnergy D} (quiet : gate.cfg.loud energy = false) (nowMs : D) :
    (gate.accept energy nowMs).2.loudFrames = 0 := by
  rw [accept_of_quiet quiet, acceptQuiet]
  split <;> rfl

namespace ChunkAssembler

/-- The loud counter is within the loud run received. -/
structure WithinRun (config : ChunkerConfig D) (frames : List AudioFrame)
    (assembler : ChunkAssembler D) : Prop where
  cfg : assembler.gate.cfg = (SpeechThresholdGate.make config.gate).cfg
  loudFrames : assembler.gate.loudFrames.toNat ≤ Run.trailing config.loudFrame frames

variable {config : ChunkerConfig D} {frames : List AudioFrame} {assembler : ChunkAssembler D}

theorem WithinRun.loud_eq (within : WithinRun config frames assembler) (frame : AudioFrame) :
    assembler.gate.cfg.loud (frameEnergy frame) = config.loudFrame frame := by
  rw [within.cfg]
  rfl

/-- Step lemma: the counter and the run grow together, and a quiet frame clears both. -/
theorem WithinRun.onFrame (within : WithinRun config frames assembler) (frame : AudioFrame)
    (nowNs : UInt64) :
    WithinRun config (frames ++ [frame]) (assembler.onFrame frame nowNs).1 := by
  refine ⟨?_, ?_⟩
  · rw [gate_onFrame, gated, SpeechThresholdGate.cfg_accept, within.cfg]
  · rw [gate_onFrame, gated]
    cases loud : config.loudFrame frame with
    | false =>
        rw [← within.loud_eq] at loud
        rw [SpeechThresholdGate.loudFrames_accept_of_quiet loud]
        exact Nat.zero_le _
    | true =>
        rw [Run.trailing_snoc_of_pos loud]
        exact (assembler.gate.loudFrames_accept_le _ _).trans (Nat.succ_le_succ within.loudFrames)

/-- Run lemma: whatever the configuration, and however long the stream. -/
theorem withinRun_afterStream (config : ChunkerConfig D) (stream : Stream) :
    WithinRun config stream.frames (afterStream config stream) := by
  induction stream using List.reverseRecOn with
  | nil => exact ⟨rfl, Nat.le_refl 0⟩
  | append_singleton stream input ih =>
      have next := ih.onFrame input.1 input.2
      rw [← afterStream_snoc] at next
      simpa [Stream.frames] using next

/-- An onset ends a loud run of `speech_frames`. -/
theorem WithinRun.run_of_opens (within : WithinRun config frames assembler) {frame : AudioFrame}
    {nowNs : UInt64} (opened : assembler.opens frame nowNs = true) :
    config.onsetRun ≤ Run.trailing config.loudFrame (frames ++ [frame]) := by
  have onset : (assembler.gated frame nowNs).1 = true := (Bool.and_eq_true_iff.mp opened).1
  obtain ⟨loud, -, reached, -⟩ := (SpeechThresholdGate.onset_accept _ _ _).mp onset
  rw [within.loud_eq] at loud
  have counted : (assembler.gate.loudFrames + 1).toNat ≤ assembler.gate.loudFrames.toNat + 1 := by
    rw [UInt32.toNat_add]
    exact Nat.mod_le _ _
  rw [UInt32.le_iff_toNat_le, within.cfg, SpeechThresholdGate.toNat_speechFrames_make] at reached
  rw [Run.trailing_snoc_of_pos loud]
  exact reached.trans (counted.trans (Nat.succ_le_succ within.loudFrames))

/-- At an onset the run has been received, and each of its frames is loud. -/
theorem loud_of_streamOnset {config : ChunkerConfig D} {stream : Stream} {position : Nat}
    (onset : StreamOnset config stream position) :
    config.onsetRun ≤ position + 1 ∧
      ∀ i frame, i ≤ position → position < i + config.onsetRun → stream.frames[i]? = some frame →
        config.loudFrame frame = true := by
  obtain ⟨last, nowNs, here, opened⟩ := onset
  obtain ⟨inside, -⟩ := List.getElem?_eq_some_iff.mp here
  have run := (withinRun_afterStream config (stream.take position)).run_of_opens opened
  rw [Stream.frames_take, ← Stream.frames_take_succ here] at run
  obtain ⟨received, every⟩ := (Run.le_trailing_iff _ _ _).mp run
  refine ⟨received.trans (List.length_take_le _ _), fun i frame before near heard => ?_⟩
  refine every i frame ?_ ?_
  · rw [List.length_take]
    omega
  · rw [List.getElem?_take_of_lt (Nat.lt_succ_of_le before), heard]

/-- Before as many frames have come as the run asks for, no chunk is open. -/
theorem idle_of_short {config : ChunkerConfig D} {stream : Stream}
    (short : stream.length < config.onsetRun) : (afterStream config stream).active = false := by
  induction stream using List.reverseRecOn with
  | nil => rfl
  | append_singleton stream input ih =>
      rw [List.length_append, List.length_singleton] at short
      have idle := ih (Nat.lt_of_succ_lt short)
      have opened : (afterStream config stream).opens input.1 input.2 = false := by
        rw [Bool.eq_false_iff]
        intro opened
        have run := (withinRun_afterStream config stream).run_of_opens opened
        have bound := Run.trailing_le_length config.loudFrame (Stream.frames stream ++ [input.1])
        rw [List.length_append, List.length_singleton, Stream.frames, List.length_map] at bound
        exact absurd (run.trans bound) (Nat.not_le.mpr short)
      rw [afterStream_snoc, active_onFrame, opened, idle]
      rfl

/-- The run cannot be shorter: without a cooldown, a stream that begins with as many loud frames
opens its chunk on the last of them. -/
theorem streamOnset_of_loud {config : ChunkerConfig D} (lasting : 0 < config.gate.silenceFrames)
    (prompt : ¬ ((0 : Int) : D) < config.gate.cooldownMs) {stream : Stream} {position : Nat}
    (first : position + 1 = config.onsetRun) (inside : position < stream.length)
    (loud : ∀ frame ∈ stream.frames.take (position + 1), config.loudFrame frame = true) :
    StreamOnset config stream position := by
  obtain ⟨⟨frame, nowNs⟩, here⟩ : ∃ input, stream[position]? = some input :=
    ⟨_, List.getElem?_eq_getElem inside⟩
  have length : (stream.take position).length = position := List.length_take_of_le inside.le
  have idle : (afterStream config (stream.take position)).active = false :=
    idle_of_short (by omega)
  have counts := countsRuns_afterStream lasting (stream.take position)
  have short : Run.trailing config.loudFrame (Stream.frames (stream.take position)) <
      config.onsetRun := by
    have bound := Run.trailing_le_length config.loudFrame (Stream.frames (stream.take position))
    rw [Stream.frames, List.length_map, length] at bound
    exact Nat.lt_of_le_of_lt bound (by omega)
  have run : config.onsetRun ≤ Run.trailing config.loudFrame
      (Stream.frames (stream.take position) ++ [frame]) := by
    rw [Stream.frames_take, ← Stream.frames_take_succ here, Run.le_trailing_iff]
    refine ⟨?_, fun i frame _ found => loud frame (List.mem_of_getElem? found)⟩
    rw [List.length_take, Stream.frames, List.length_map]
    omega
  have onset := (onset_of_run lasting prompt (counts.active ▸ idle) short frame nowNs).mpr run
  refine ⟨frame, nowNs, here, ?_⟩
  rw [opens, Bool.and_eq_true, Bool.not_eq_true']
  exact ⟨onset, idle⟩

/-! ## Quiet streams -/

/-- A chunk that is not open stays so on a frame that is not loud, and nothing is returned. -/
theorem WithinRun.idle_onFrame (within : WithinRun config frames assembler)
    (idle : assembler.active = false) {frame : AudioFrame} (quiet : config.loudFrame frame = false)
    (nowNs : UInt64) :
    (assembler.onFrame frame nowNs).1.active = false ∧
      (assembler.onFrame frame nowNs).2 = none := by
  have opened : assembler.opens frame nowNs = false := by
    have onset := SpeechThresholdGate.onset_accept assembler.gate (frameEnergy frame) (nsToMs nowNs)
    rw [within.loud_eq, quiet] at onset
    rw [opens, gated, Bool.and_eq_false_iff]
    left
    rw [Bool.eq_false_iff]
    intro declared
    cases (onset.mp declared).1
  have closed := active_gatedState assembler frame nowNs
  rw [← active_routeFrame (assembler.gatedState frame nowNs) frame, opened, idle] at closed
  rw [onFrame_eq]
  rcases closeFrame_cases ((assembler.gatedState frame nowNs).routeFrame frame) nowNs with
    ⟨-, same⟩ | ⟨active, -⟩ | ⟨active, -⟩ | ⟨active, -⟩
  · rw [same]
    exact ⟨closed, rfl⟩
  all_goals
    rw [closed] at active
    cases active

/-- Run lemma: a stream without a loud frame opens no chunk and returns no event. -/
theorem idle_of_quiet {config : ChunkerConfig D} {stream : Stream}
    (quiet : ∀ frame ∈ stream.frames, config.loudFrame frame = false) :
    (afterStream config stream).active = false ∧
      ∀ event ∈ events config stream.calls, event = none := by
  induction stream using List.reverseRecOn with
  | nil =>
      refine ⟨rfl, fun event absent => ?_⟩
      cases absent
  | append_singleton stream input ih =>
      obtain ⟨frame, nowNs⟩ := input
      rw [Stream.frames_snoc] at quiet
      obtain ⟨idle, none⟩ := ih fun frame member => quiet frame (List.mem_append_left _ member)
      obtain ⟨still, nothing⟩ := (withinRun_afterStream config stream).idle_onFrame idle
        (quiet frame (List.mem_append_right _ List.mem_cons_self)) nowNs
      rw [afterStream_snoc, Stream.calls_snoc, events_snoc]
      refine ⟨still, fun event member => ?_⟩
      rcases List.mem_append.mp member with earlier | last
      · exact none event earlier
      · rw [List.mem_singleton.mp last]
        exact nothing

end ChunkAssembler

end

namespace SignalOptions

variable {options : SignalOptions}

/--
Whatever the seed, and whichever of the producer's frames arrive: a chunk opens only
after as many frames in a row in which the schedule speaks as the gate asks for; where
it speaks in none of them, no chunk opens and none is published.
-/
theorem chunks_begin_in_speech (sound : options.Sound) (config : ChunkerConfig ℝ)
    (above : config.gate.Above options.noiseCeiling) (clock : Nat → UInt64 × UInt64) (seed : UInt64)
    (payload : Vector UInt8 kFramePayloadBytes) (slots : List (UInt64 × UInt32)) (stream : Stream)
    (received : ∀ frame ∈ stream.frames,
      frame ∈ options.produced clock (Rng.make seed) payload slots) :
    (∀ position, ChunkAssembler.StreamOnset config stream position →
      config.onsetRun ≤ position + 1 ∧
        ∀ i frame, i ≤ position → position < i + config.onsetRun →
          stream.frames[i]? = some frame →
            options.speech frame.hdr.seq frame.hdr.sessionId = true) ∧
      ((∀ frame ∈ stream.frames, options.speech frame.hdr.seq frame.hdr.sessionId = false) →
        (ChunkAssembler.afterStream config stream).active = false ∧
          ∀ event ∈ ChunkAssembler.events config stream.calls, event = none) := by
  constructor
  · intro position onset
    obtain ⟨complete, loud⟩ := ChunkAssembler.loud_of_streamOnset onset
    refine ⟨complete, fun i frame before near heard => ?_⟩
    exact speech_of_loud sound above (received frame (List.mem_of_getElem? heard))
      (loud i frame before near heard)
  · intro silent
    apply ChunkAssembler.idle_of_quiet
    intro frame member
    rw [Bool.eq_false_iff]
    intro loud
    have spoken := speech_of_loud sound above (received frame member) loud
    rw [silent frame member] at spoken
    cases spoken

/-- A call in mu-law with the floor of the defaults, in frames of a millisecond. -/
def mulawCall : SignalOptions :=
  { send := { sessions := 1, totalFrames := 2000, sampleRate := 8000, format := .mulaw8 }
    frameMs := 1 }

theorem sound_mulawCall : mulawCall.Sound := by
  constructor
  · decide +kernel
  · norm_num [mulawCall]
  · norm_num [mulawCall]

/-- The default thresholds. -/
noncomputable def defaultThresholds : ChunkerConfig ℝ :=
  { gate := { rmsThreshold := some (2 / 100), peakThreshold := some (10 / 100), cooldownMs := 0 }
    maxChunkMs := 15000 }

theorem above_mulawCall : defaultThresholds.gate.Above mulawCall.noiseCeiling := by
  have level : ((mulawCall.noiseCeiling : ℚ) : ℝ) < 140 := by
    have rational : mulawCall.noiseCeiling < 140 := by
      norm_num [noiseCeiling, mulawCall, AudioFormat.ceiling]
    exact_mod_cast rational
  rintro threshold (set | set)
  · obtain rfl := Option.some.inj set
    linarith
  · obtain rfl := Option.some.inj set
    linarith

/-- A peak that reaches the threshold makes a frame loud. -/
theorem loudFrame_of_peak {config : ChunkerConfig ℝ} {threshold : ℝ}
    (set : config.gate.peakThreshold = some threshold) {frame : AudioFrame}
    (mulaw : frame.hdr.format = AudioFormat.mulaw8.code)
    (reached : threshold ≤ ((accumulateEnergy ((List.range frame.hdr.byteLen.toNat).map fun i =>
      mulawToLinear (frame.payloadAt i))).1 : ℝ) / 32768) : config.loudFrame frame = true := by
  have peak : (frameEnergy frame : AudioEnergy ℝ).peakNorm =
      ((accumulateEnergy ((List.range frame.hdr.byteLen.toNat).map fun i =>
        mulawToLinear (frame.payloadAt i))).1 : ℝ) / 32768 := by
    rw [frameEnergy, if_pos mulaw]
    change _ / (((32768 : Int) : ℝ)) = _
    norm_num
    rfl
  rw [ChunkerConfig.loudFrame, GateConfig.loud, set, Bool.or_eq_true]
  right
  exact decide_eq_true (peak ▸ reached)

/-- The frames of the first two ticks are spoken, and open a chunk; the one of tick 1600 is not. -/
theorem chunks_begin_in_speech_mulawCall :
    let clock : Nat → UInt64 × UInt64 := fun _ => (0, 0)
    let payload : Vector UInt8 kFramePayloadBytes := Vector.replicate _ 0
    let frames := mulawCall.produced clock (Rng.make 0xC0FFEE) payload [(0, 0), (1, 0), (1600, 0)]
    let stream : Stream := frames.map fun frame => (frame, 0)
    let silence : Stream := (frames.drop 2).map fun frame => (frame, 0)
    (ChunkAssembler.StreamOnset defaultThresholds stream 1 ∧
      ∀ i frame, i ≤ 1 → stream.frames[i]? = some frame →
        mulawCall.speech frame.hdr.seq frame.hdr.sessionId = true) ∧
      ∀ event ∈ ChunkAssembler.events defaultThresholds silence.calls, event = none := by
  intro clock payload frames stream silence
  have heard : ∀ frames : List AudioFrame,
      Stream.frames (frames.map fun frame => (frame, 0)) = frames := by
    intro frames
    rw [Stream.frames, List.map_map]
    exact List.map_id _
  have peaks : ∀ frame ∈ frames.take 2, frame.hdr.format = AudioFormat.mulaw8.code ∧
      3277 ≤ (accumulateEnergy ((List.range frame.hdr.byteLen.toNat).map fun i =>
        mulawToLinear (frame.payloadAt i))).1 := by
    decide +kernel
  have loud : ∀ frame ∈ frames.take 2, defaultThresholds.loudFrame frame = true := by
    intro frame member
    obtain ⟨mulaw, peak⟩ := peaks frame member
    apply loudFrame_of_peak rfl mulaw
    have reached : (3277 : ℝ) ≤ (accumulateEnergy ((List.range frame.hdr.byteLen.toNat).map
        fun i => mulawToLinear (frame.payloadAt i))).1 := by
      exact_mod_cast peak
    rw [le_div_iff₀ (by norm_num)]
    linarith
  have onset : ChunkAssembler.StreamOnset defaultThresholds stream 1 := by
    have prompt : ¬ ((0 : Int) : ℝ) < defaultThresholds.gate.cooldownMs := by
      norm_num [defaultThresholds]
    apply ChunkAssembler.streamOnset_of_loud (by decide) prompt rfl (by decide)
    rw [heard]
    exact loud
  have near : ∀ i, 1 < i + defaultThresholds.onsetRun := fun i => Nat.le_add_left 2 i
  have received : ∀ frame ∈ Stream.frames stream, frame ∈ frames := by
    intro frame member
    rwa [heard] at member
  have begins := (chunks_begin_in_speech sound_mulawCall defaultThresholds above_mulawCall clock
    0xC0FFEE payload [(0, 0), (1, 0), (1600, 0)] stream received).1 1 onset
  have silent : ∀ frame ∈ Stream.frames silence, frame ∈ frames ∧
      mulawCall.speech frame.hdr.seq frame.hdr.sessionId = false := by
    intro frame member
    rw [heard] at member
    refine ⟨List.mem_of_mem_drop member, ?_⟩
    obtain rfl := List.mem_singleton.mp member
    change mulawCall.speech 1600 0 = false
    decide +kernel
  have nothing := (chunks_begin_in_speech sound_mulawCall defaultThresholds above_mulawCall clock
    0xC0FFEE payload [(0, 0), (1, 0), (1600, 0)] silence
    fun frame member => (silent frame member).1).2 fun frame member => (silent frame member).2
  exact ⟨⟨onset, fun i frame before here => begins.2 i frame before (near i) here⟩, nothing.2⟩

end SignalOptions

end VoiceHotPath
