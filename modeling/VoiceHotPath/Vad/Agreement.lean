import VoiceHotPath.Vad.Isolation
import VoiceHotPath.Vad.Scenario

/-!
# The gate and the assembler in step

An assembler and its gate agree when a chunk is open exactly while the gate is
speaking.  Every frame keeps them in agreement; a flush that closes a chunk
does not, since it leaves the gate speaking, and no loud frame can then open
the next chunk.
-/

namespace VoiceHotPath

namespace SpeechThresholdGate

section

variable {D : Type} [Double D]

/-- A speaking gate goes on speaking over a loud frame, and declares no onset. -/
theorem accept_of_speaking {gate : SpeechThresholdGate D} {energy : AudioEnergy D}
    (loud : gate.cfg.loud energy = true) (going : gate.speaking = true) (nowMs : D) :
    gate.accept energy nowMs = (false, gate.countLoud) := by
  rw [accept_of_loud loud, acceptLoud]
  simp [going]

/-- While a gate stays silent over loud frames, it counts them. -/
theorem loudFrames_of_silent {gate : SpeechThresholdGate D} {energy : AudioEnergy D}
    (loud : gate.cfg.loud energy = true) (early : gate.loudFrames < gate.cfg.speechFrames)
    (lasting : 0 < gate.cfg.silenceFrames) (nowMs : D) :
    (gate.accept energy nowMs).2.loudFrames.toNat = gate.loudFrames.toNat + 1 := by
  rw [loudFrames_accept lasting, if_pos loud]
  exact WrappingCounter.toNat_succ32_of_lt early

end

end SpeechThresholdGate

namespace ChunkAssembler

section

variable {D : Type}

/-- A chunk is open exactly while the gate is speaking. -/
def Agrees (assembler : ChunkAssembler D) : Prop :=
  assembler.active = assembler.gate.speaking

instance (assembler : ChunkAssembler D) : Decidable assembler.Agrees :=
  inferInstanceAs (Decidable (assembler.active = assembler.gate.speaking))

theorem Agrees.flush_of_idle {assembler : ChunkAssembler D} (agrees : assembler.Agrees)
    (idle : assembler.active = false) (nowNs : UInt64) : (assembler.flush nowNs).1.Agrees := by
  rw [flush, idle]
  exact agrees

/-- Flushing an open chunk leaves the gate speaking. -/
theorem Agrees.not_flush_of_open {assembler : ChunkAssembler D} (agrees : assembler.Agrees)
    (opened : assembler.active = true) (nowNs : UInt64) :
    (assembler.flush nowNs).1.active = false ∧
      (assembler.flush nowNs).1.gate.speaking = true := by
  rw [flush, opened]
  exact ⟨rfl, agrees.symm.trans opened⟩

end

section

variable {D : Type} [Double D]

/-- Step lemma: a frame keeps the gate and the assembler in agreement. -/
theorem Agrees.onFrame {assembler : ChunkAssembler D} (agrees : assembler.Agrees)
    (lasting : 0 < assembler.gate.cfg.silenceFrames) (frame : AudioFrame) (nowNs : UInt64) :
    (assembler.onFrame frame nowNs).1.Agrees := by
  have going := SpeechThresholdGate.speaking_accept lasting (frameEnergy frame)
    (nsToMs nowNs)
  unfold Agrees at agrees ⊢
  rw [active_onFrame, gate_onFrame, opens, agrees, gated, going]
  cases (assembler.gate.accept (frameEnergy frame) (nsToMs nowNs)).1 <;>
    cases assembler.gate.speaking <;> simp

variable {config : ChunkerConfig D}

theorem lasting_after (lasting : 0 < config.gate.silenceFrames) (calls : List Call) :
    0 < (after config calls).gate.cfg.silenceFrames := by
  rw [(gate_after config calls).1]
  exact lasting

theorem loud_after (calls : List Call) (frame : AudioFrame) :
    (after config calls).gate.cfg.loud (frameEnergy frame) = config.loudFrame frame := by
  rw [(gate_after config calls).1]
  rfl

/-- Run lemma: frames keep an assembler in agreement. -/
theorem agrees_append_stream (lasting : 0 < config.gate.silenceFrames) {past : List Call}
    (agrees : (after config past).Agrees) (stream : Stream) :
    (after config (past ++ stream.calls)).Agrees := by
  induction stream using List.reverseRecOn with
  | nil => simpa [Stream.calls] using agrees
  | append_singleton stream input ih =>
      rw [Stream.calls_snoc, ← List.append_assoc, after_snoc]
      exact ih.onFrame (lasting_after lasting _) input.1 input.2

/-- Without cooldown, a silent gate has heard fewer loud frames than an onset takes. -/
theorem early_after (instant : ¬ ((0 : Int) : D) < config.gate.cooldownMs) (calls : List Call)
    (idle : (after config calls).gate.speaking = false) :
    (after config calls).gate.loudFrames < (after config calls).gate.cfg.speechFrames := by
  obtain ⟨cfg, settled⟩ := gate_after config calls
  rcases settled idle with early | ⟨nowNs, held⟩
  · exact early
  · have never : (after config calls).gate.cooling (nsToMs nowNs) = false := by
      unfold SpeechThresholdGate.cooling
      rw [cfg]
      change (decide (((0 : Int) : D) < config.gate.cooldownMs) && _ && _) = false
      rw [decide_eq_false instant]
      rfl
    rw [never] at held
    cases held

/-- After loud frames a gate is speaking, or has heard them all towards an onset. -/
theorem speaking_or_heard (lasting : 0 < config.gate.silenceFrames)
    (instant : ¬ ((0 : Int) : D) < config.gate.cooldownMs) (past : List Call) (run : Stream)
    (loud : ∀ frame ∈ run.frames, config.loudFrame frame = true) :
    (after config (past ++ run.calls)).gate.speaking = true ∨
      run.length ≤ (after config (past ++ run.calls)).gate.loudFrames.toNat := by
  induction run using List.reverseRecOn with
  | nil => exact Or.inr (Nat.zero_le _)
  | append_singleton run input ih =>
      rw [Stream.frames_snoc] at loud
      have heard : (after config (past ++ Stream.calls run)).gate.cfg.loud
          (frameEnergy input.1) = true := by
        rw [loud_after]
        exact loud input.1 (by simp)
      have before := ih fun frame member => loud frame (List.mem_append_left _ member)
      rw [Stream.calls_snoc, ← List.append_assoc, after_snoc, call, gate_onFrame, gated]
      cases speaking : (after config (past ++ Stream.calls run)).gate.speaking with
      | true =>
          rw [SpeechThresholdGate.accept_of_speaking heard speaking]
          exact Or.inl speaking
      | false =>
          right
          rw [SpeechThresholdGate.loudFrames_of_silent heard (early_after instant _ speaking)
            (lasting_after lasting _)]
          rcases before with contrary | counted
          · rw [speaking] at contrary
            cases contrary
          · simpa using counted

/-- Without cooldown, a run of `speech_frames` loud frames leaves the gate speaking. -/
theorem speaking_after_run (lasting : 0 < config.gate.silenceFrames)
    (instant : ¬ ((0 : Int) : D) < config.gate.cooldownMs) (past : List Call) {run : Stream}
    (loud : ∀ frame ∈ run.frames, config.loudFrame frame = true)
    (enough : run.length = config.onsetRun) :
    (after config (past ++ run.calls)).gate.speaking = true := by
  rcases speaking_or_heard lasting instant past run loud with speaking | heard
  · exact speaking
  · cases speaking : (after config (past ++ run.calls)).gate.speaking with
    | true => rfl
    | false =>
        have early := UInt32.lt_iff_toNat_lt.mp (early_after instant _ speaking)
        rw [(gate_after config _).1, SpeechThresholdGate.toNat_speechFrames_make] at early
        omega

/-- The gate and the assembler agree after each of the calls. -/
def AlwaysAgrees (config : ChunkerConfig D) (calls : List Call) : Prop :=
  ∀ i, (after config (calls.take i)).Agrees

/-- Without cooldown, after each flush the next run of `speech_frames` loud frames,
whatever frames precede it, leaves a chunk open. -/
def ReopensAfterFlush (config : ChunkerConfig D) (calls : List Call) : Prop :=
  ¬ ((0 : Int) : D) < config.gate.cooldownMs → ∀ i nowNs, calls[i]? = some (.flush nowNs) →
    ∀ between run : Stream, (∀ frame ∈ run.frames, config.loudFrame frame = true) →
      run.length = config.onsetRun →
        (after config (calls.take (i + 1) ++ between.calls ++ run.calls)).active = true

/-- No call is a flush that closes a chunk. -/
def FlushesIdle (config : ChunkerConfig D) (calls : List Call) : Prop :=
  ∀ i : Fin calls.length, calls[i].frame? = none → (after config (calls.take i)).active = false

instance (config : ChunkerConfig D) (calls : List Call) : Decidable (FlushesIdle config calls) :=
  inferInstanceAs (Decidable (∀ i : Fin calls.length, calls[i].frame? = none →
    (after config (calls.take i)).active = false))

theorem take_succ_snoc {calls : List Call} {i : Nat} {next : Call}
    (here : calls[i]? = some next) : calls.take (i + 1) = calls.take i ++ [next] := by
  rw [List.take_add_one, here]
  rfl

/-- Run lemma: as long as flushes find no chunk open, the two agree. -/
theorem FlushesIdle.alwaysAgrees (lasting : 0 < config.gate.silenceFrames) {calls : List Call}
    (flushesIdle : FlushesIdle config calls) : AlwaysAgrees config calls := by
  intro i
  induction i with
  | zero => exact rfl
  | succ i ih =>
      cases here : calls[i]? with
      | none =>
          have beyond := List.getElem?_eq_none_iff.mp here
          rw [List.take_of_length_le beyond] at ih
          rw [List.take_of_length_le (Nat.le_succ_of_le beyond)]
          exact ih
      | some next =>
          rw [take_succ_snoc here, after_snoc]
          cases next with
          | frame frame nowNs => exact ih.onFrame (lasting_after lasting _) frame nowNs
          | flush nowNs =>
              obtain ⟨inside, same⟩ := List.getElem?_eq_some_iff.mp here
              have idle := flushesIdle ⟨i, inside⟩ (congrArg Call.frame? same)
              exact ih.flush_of_idle idle nowNs

/-- Gate and assembler agree throughout, and every flush lets the next speech in,
exactly if no flush closes a chunk. -/
theorem agreement_iff_flushesIdle (config : ChunkerConfig D)
    (lasting : 1 ≤ config.gate.silenceFrames) (calls : List Call) :
    AlwaysAgrees config calls ∧ ReopensAfterFlush config calls ↔ FlushesIdle config calls := by
  have positive : 0 < config.gate.silenceFrames := UInt32.lt_of_lt_of_le (by decide) lasting
  constructor
  · rintro ⟨always, -⟩ ⟨i, inside⟩ flushes
    have here : calls[i]? = some calls[i] := List.getElem?_eq_getElem inside
    have next := always (i + 1)
    rw [take_succ_snoc here, after_snoc] at next
    cases found : calls[i] with
    | frame frame nowNs =>
        rw [Fin.getElem_fin, found] at flushes
        cases flushes
    | flush nowNs =>
        rw [found] at next
        dsimp only
        cases opened : (after config (calls.take i)).active with
        | false => rfl
        | true =>
            obtain ⟨closed, speaking⟩ := (always i).not_flush_of_open opened nowNs
            exact absurd (closed.symm.trans (next.trans speaking)) (by decide)
  · intro flushesIdle
    have always := flushesIdle.alwaysAgrees positive
    refine ⟨always, fun instant i nowNs _ between run loud enough => ?_⟩
    have agrees := agrees_append_stream positive
      (agrees_append_stream positive (always (i + 1)) between) run
    exact agrees.trans (speaking_after_run positive instant _ loud enough)

end

open Scenario

/-- A chunk opened by speech and then flushed. -/
def flushedSpeech : List Call :=
  [.frame (toneFrame 0) 0, .frame (toneFrame 1) 20000000, .flush 40000000]

/-- The flush leaves the gate speaking, and two more loud frames open nothing. -/
theorem agreement_fails_after_flush :
    ¬ AlwaysAgrees shortConfig flushedSpeech ∧ ¬ ReopensAfterFlush shortConfig flushedSpeech := by
  constructor
  · intro always
    exact absurd (always 3) (by decide +kernel)
  · intro reopens
    have opened := reopens (by decide +kernel) 2 40000000 rfl []
      [(toneFrame 2, 60000000), (toneFrame 3, 80000000)] (by decide +kernel) (by decide +kernel)
    exact absurd opened (by decide +kernel)

theorem agreement_iff_flushesIdle_idleFlush :
    AlwaysAgrees shortConfig [.frame (silentFrame 0) 0, .flush 20000000,
        .frame (toneFrame 1) 40000000, .frame (toneFrame 2) 60000000] ∧
      ReopensAfterFlush shortConfig [.frame (silentFrame 0) 0, .flush 20000000,
        .frame (toneFrame 1) 40000000, .frame (toneFrame 2) 60000000] :=
  (agreement_iff_flushesIdle shortConfig (by decide) _).mpr (by decide +kernel)

end ChunkAssembler

end VoiceHotPath
