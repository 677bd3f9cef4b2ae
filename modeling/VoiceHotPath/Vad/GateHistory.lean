import VoiceHotPath.Lib.Run
import VoiceHotPath.Vad.Partition

/-!
# The gate over a stream

When speech ends only on quiet frames, the gate's two counters are the trailing
runs of loud and of quiet frames, and a chunk is open exactly while the gate is
speaking.
-/

namespace VoiceHotPath

/-- `speech_frames` as clamped by the gate's constructor. -/
def ChunkerConfig.onsetRun {D : Type} (config : ChunkerConfig D) : Nat :=
  max 1 config.gate.speechFrames.toNat

theorem ChunkerConfig.onsetRun_lt {D : Type} (config : ChunkerConfig D) :
    config.onsetRun < 2 ^ 32 := by
  have bound := UInt32.toNat_lt config.gate.speechFrames
  unfold onsetRun
  omega

section

variable {D : Type} [Double D]

/-- One of the configured thresholds is met by the frame. -/
def ChunkerConfig.loudFrame (config : ChunkerConfig D) (frame : AudioFrame) : Bool :=
  config.gate.loud (frameEnergy frame)

def ChunkerConfig.quietFrame (config : ChunkerConfig D) (frame : AudioFrame) : Bool :=
  !config.loudFrame frame

theorem SpeechThresholdGate.toNat_speechFrames_make (config : ChunkerConfig D) :
    (SpeechThresholdGate.make config.gate).cfg.speechFrames.toNat = config.onsetRun := by
  change (if config.gate.speechFrames < 1 then 1 else config.gate.speechFrames).toNat = _
  unfold ChunkerConfig.onsetRun
  by_cases clamped : config.gate.speechFrames < 1
  · have small := UInt32.lt_iff_toNat_lt.mp clamped
    rw [if_pos clamped]
    simp at small ⊢
    omega
  · have large := UInt32.le_iff_toNat_le.mp (UInt32.not_lt.mp clamped)
    rw [if_neg clamped]
    simp at large
    omega

namespace ChunkAssembler

theorem gate_closeFrame (assembler : ChunkAssembler D) (nowNs : UInt64) :
    (assembler.closeFrame nowNs).1.gate = assembler.gate := by
  rcases closeFrame_cases assembler nowNs with
    ⟨-, same⟩ | ⟨-, -, same⟩ | ⟨-, -, -, same⟩ | ⟨-, -, -, same⟩
  · rw [same]
  · rw [same]
    rfl
  · rw [same]
    rfl
  · rw [same]

@[simp] theorem gate_onFrame (assembler : ChunkAssembler D) (frame : AudioFrame)
    (nowNs : UInt64) :
    (assembler.onFrame frame nowNs).1.gate = (assembler.gated frame nowNs).2 := by
  rw [onFrame_eq, gate_closeFrame, gate_routeFrame, gate_gatedState]

/-- After the closing tests a chunk stays open only while the gate is speaking. -/
theorem active_onFrame (assembler : ChunkAssembler D) (frame : AudioFrame) (nowNs : UInt64) :
    (assembler.onFrame frame nowNs).1.active =
      ((assembler.opens frame nowNs || assembler.active) &&
        (assembler.gated frame nowNs).2.speaking) := by
  have opened := active_gatedState assembler frame nowNs
  rw [← active_routeFrame (assembler.gatedState frame nowNs) frame] at opened
  have gate := gate_routeFrame (assembler.gatedState frame nowNs) frame
  rw [gate_gatedState] at gate
  rw [← opened, ← gate, onFrame_eq]
  rcases closeFrame_cases ((assembler.gatedState frame nowNs).routeFrame frame) nowNs with
    ⟨inactive, same⟩ | ⟨-, ended, same⟩ | ⟨active, going, -, same⟩ | ⟨active, going, -, same⟩
  · rw [same, inactive]
    rfl
  · rw [same, ended, Bool.and_false]
    rfl
  · rw [same, active, going]
    rfl
  · rw [same, active, going]
    rfl

/-- The gate's counters are the trailing runs of the frames received. -/
structure CountsRuns (config : ChunkerConfig D) (frames : List AudioFrame)
    (assembler : ChunkAssembler D) : Prop where
  cfg : assembler.gate.cfg = (SpeechThresholdGate.make config.gate).cfg
  loudRun : assembler.gate.loudFrames = UInt32.ofNat (Run.trailing config.loudFrame frames)
  quietRun : assembler.gate.speaking = true →
    assembler.gate.quietFrames = UInt32.ofNat (Run.trailing config.quietFrame frames)
  quietShort : assembler.gate.speaking = true →
    Run.trailing config.quietFrame frames < config.gate.silenceFrames.toNat
  active : assembler.active = assembler.gate.speaking

theorem countsRuns_make (config : ChunkerConfig D) : CountsRuns config [] (make config) :=
  ⟨rfl, rfl, (fun absent => by cases absent), (fun absent => by cases absent), rfl⟩

section

variable {config : ChunkerConfig D} {frames : List AudioFrame} {assembler : ChunkAssembler D}

theorem CountsRuns.loud_eq (counts : CountsRuns config frames assembler) (frame : AudioFrame) :
    assembler.gate.cfg.loud (frameEnergy frame) = config.loudFrame frame := by
  rw [counts.cfg]
  rfl

/-- Speech goes on past a frame unless its quiet run reaches `silence_frames`. -/
theorem CountsRuns.speaking_gated (counts : CountsRuns config frames assembler)
    (lasting : 0 < config.gate.silenceFrames) (frame : AudioFrame) (nowNs : UInt64) :
    (assembler.gated frame nowNs).2.speaking = true ↔
      (assembler.gated frame nowNs).1 = true ∨ (assembler.gate.speaking = true ∧
        Run.trailing config.quietFrame (frames ++ [frame]) < config.gate.silenceFrames.toNat) := by
  have silence : assembler.gate.cfg.silenceFrames = config.gate.silenceFrames := by
    rw [counts.cfg]
    rfl
  have going := SpeechThresholdGate.speaking_accept (silence.symm ▸ lasting)
    (frameEnergy frame) (nsToMs nowNs)
  rw [counts.loud_eq, silence] at going
  unfold gated
  rw [going]
  cases speaking : assembler.gate.speaking with
  | false => simp
  | true =>
      have short := counts.quietShort speaking
      have width := UInt32.toNat_lt config.gate.silenceFrames
      cases loud : config.loudFrame frame with
      | true =>
          have quiet : config.quietFrame frame = false := by simp [ChunkerConfig.quietFrame, loud]
          have some := UInt32.lt_iff_toNat_lt.mp lasting
          simpa [Run.trailing_snoc_of_neg quiet] using Or.inr some
      | false =>
          have quiet : config.quietFrame frame = true := by simp [ChunkerConfig.quietFrame, loud]
          have next : (assembler.gate.quietFrames + 1).toNat =
              Run.trailing config.quietFrame frames + 1 := by
            rw [counts.quietRun speaking, UInt32.toNat_add, UInt32.toNat_ofNat']
            simp
            omega
          rw [Run.trailing_snoc_of_pos quiet, ← next, ← UInt32.lt_iff_toNat_lt]
          simp

/-- An onset needs a loud run of `speech_frames`, while the run is counted exactly. -/
theorem CountsRuns.onset_gated (counts : CountsRuns config frames assembler)
    (exact : Run.trailing config.loudFrame frames + 1 < 2 ^ 32) (frame : AudioFrame)
    (nowNs : UInt64) :
    (assembler.gated frame nowNs).1 = true ↔
      assembler.gate.speaking = false ∧
        config.onsetRun ≤ Run.trailing config.loudFrame (frames ++ [frame]) ∧
        assembler.gate.cooling (nsToMs nowNs) = false := by
  unfold gated
  rw [SpeechThresholdGate.onset_accept, counts.loud_eq, UInt32.le_iff_toNat_le, counts.cfg,
    SpeechThresholdGate.toNat_speechFrames_make, counts.loudRun]
  cases loud : config.loudFrame frame with
  | false =>
      have never : ¬ config.onsetRun ≤ 0 := by
        unfold ChunkerConfig.onsetRun
        omega
      simp [Run.trailing_snoc_of_neg loud, never]
  | true =>
      have next : (UInt32.ofNat (Run.trailing config.loudFrame frames) + 1).toNat =
          Run.trailing config.loudFrame frames + 1 := by
        rw [UInt32.toNat_add, UInt32.toNat_ofNat']
        simp
        omega
      rw [next, Run.trailing_snoc_of_pos loud]
      simp

/-- Step lemma: one frame extends the runs the gate counts. -/
theorem CountsRuns.onFrame (counts : CountsRuns config frames assembler)
    (lasting : 0 < config.gate.silenceFrames) (frame : AudioFrame) (nowNs : UInt64) :
    CountsRuns config (frames ++ [frame]) (assembler.onFrame frame nowNs).1 := by
  have silence : assembler.gate.cfg.silenceFrames = config.gate.silenceFrames := by
    rw [counts.cfg]
    rfl
  have going := counts.speaking_gated lasting frame nowNs
  have loudRun := SpeechThresholdGate.loudFrames_accept (silence.symm ▸ lasting)
    (frameEnergy frame) (nsToMs nowNs)
  have quietRun := SpeechThresholdGate.quietFrames_accept assembler.gate
    (frameEnergy frame) (nsToMs nowNs)
  have onset := SpeechThresholdGate.onset_accept assembler.gate
    (frameEnergy frame) (nsToMs nowNs)
  rw [counts.loud_eq] at loudRun quietRun onset
  refine ⟨?_, ?_, ?_, ?_, ?_⟩
  · rw [gate_onFrame, gated, SpeechThresholdGate.cfg_accept, counts.cfg]
  · rw [gate_onFrame, gated, loudRun]
    cases loud : config.loudFrame frame with
    | false => simp [Run.trailing_snoc_of_neg loud]
    | true => simp [Run.trailing_snoc_of_pos loud, counts.loudRun, UInt32.ofNat_add]
  · intro speaking
    rw [gate_onFrame] at speaking ⊢
    rw [gated, quietRun]
    cases loud : config.loudFrame frame with
    | true =>
        have quiet : config.quietFrame frame = false := by simp [ChunkerConfig.quietFrame, loud]
        simp [Run.trailing_snoc_of_neg quiet]
    | false =>
        have quiet : config.quietFrame frame = true := by simp [ChunkerConfig.quietFrame, loud]
        rcases going.mp speaking with opened | ⟨before, -⟩
        · rw [loud] at onset
          exact absurd (onset.mp opened).1 (by decide)
        · simp [Run.trailing_snoc_of_pos quiet, before, counts.quietRun before, UInt32.ofNat_add]
  · intro speaking
    rw [gate_onFrame] at speaking
    rcases going.mp speaking with opened | ⟨-, short⟩
    · have quiet : config.quietFrame frame = false := by
        simp [ChunkerConfig.quietFrame, (onset.mp opened).1]
      rw [Run.trailing_snoc_of_neg quiet]
      exact UInt32.lt_iff_toNat_lt.mp lasting
    · exact short
  · rw [active_onFrame, gate_onFrame]
    cases speaking : (assembler.gated frame nowNs).2.speaking with
    | false => simp
    | true =>
        rcases going.mp speaking with opened | ⟨before, -⟩
        · have idle := (onset.mp opened).2.1
          have opens : assembler.opens frame nowNs = true := by
            simp [opens, opened, counts.active, idle]
          simp [opens]
        · simp [counts.active, before]

end

/-- The assembler after a stream of frames. -/
def afterStream (config : ChunkerConfig D) (stream : Stream) : ChunkAssembler D :=
  after config stream.calls

theorem afterStream_snoc (config : ChunkerConfig D) (stream : Stream) (frame : AudioFrame)
    (nowNs : UInt64) :
    afterStream config (stream ++ [(frame, nowNs)]) =
      ((afterStream config stream).onFrame frame nowNs).1 := by
  rw [afterStream, Stream.calls_snoc, after_snoc]
  rfl

/-- Run lemma: after any stream the counters are its trailing runs. -/
theorem countsRuns_afterStream {config : ChunkerConfig D}
    (lasting : 0 < config.gate.silenceFrames) (stream : Stream) :
    CountsRuns config stream.frames (afterStream config stream) := by
  induction stream using List.reverseRecOn with
  | nil => exact countsRuns_make config
  | append_singleton stream input ih =>
      have counted := ih.onFrame lasting input.1 input.2
      rw [← afterStream_snoc] at counted
      simpa [Stream.frames] using counted

end ChunkAssembler

end

end VoiceHotPath
