import VoiceHotPath.Energy
import VoiceHotPath.Lib.WrappingCounter

/-!
# The speech threshold gate

Two OR-ed thresholds classify a frame as loud.  A sustained run of loud frames
declares onset, a sustained run of quiet frames ends speech, and a cooldown
keeps onsets apart.
-/

namespace VoiceHotPath

structure GateConfig (D : Type) where
  rmsThreshold : Option D
  peakThreshold : Option D
  speechFrames : UInt32 := 2
  silenceFrames : UInt32 := 12
  cooldownMs : D
  deriving DecidableEq, Repr

/-- The member initialisers of `GateConfig`. -/
def GateConfig.default {D : Type} [Double D] : GateConfig D :=
  { rmsThreshold := some (((2 : Int) : D) / ((100 : Int) : D))
    peakThreshold := some (((10 : Int) : D) / ((100 : Int) : D))
    cooldownMs := ((0 : Int) : D) }

/-- One of the configured thresholds is met. -/
def GateConfig.loud {D : Type} [Double D] (cfg : GateConfig D) (energy : AudioEnergy D) : Bool :=
  cfg.rmsThreshold.any (fun threshold => threshold ≤ energy.rmsNorm) ||
    cfg.peakThreshold.any (fun threshold => threshold ≤ energy.peakNorm)

structure SpeechThresholdGate (D : Type) where
  cfg : GateConfig D
  loudFrames : UInt32 := 0
  quietFrames : UInt32 := 0
  speaking : Bool := false
  hasTriggered : Bool := false
  lastTriggerMs : D
  deriving DecidableEq, Repr

namespace SpeechThresholdGate

section

variable {D : Type}

/-- The branch of `accept` for a frame below both thresholds. -/
def acceptQuiet (gate : SpeechThresholdGate D) : SpeechThresholdGate D :=
  if gate.speaking then
    { gate with
      loudFrames := 0
      quietFrames := gate.quietFrames + 1
      speaking := !(gate.cfg.silenceFrames ≤ gate.quietFrames + 1) }
  else
    { gate with loudFrames := 0 }

/-- The onset branch of `accept`. -/
def trigger (gate : SpeechThresholdGate D) (nowMs : D) : SpeechThresholdGate D :=
  { gate with
    lastTriggerMs := nowMs
    hasTriggered := true
    speaking := 0 < gate.cfg.silenceFrames
    loudFrames := if 0 < gate.cfg.silenceFrames then gate.loudFrames else 0 }

/-- The bookkeeping of `accept` shared by every loud frame. -/
def countLoud (gate : SpeechThresholdGate D) : SpeechThresholdGate D :=
  { gate with quietFrames := 0, loudFrames := gate.loudFrames + 1 }

@[simp] theorem cfg_acceptQuiet (gate : SpeechThresholdGate D) :
    gate.acceptQuiet.cfg = gate.cfg := by
  unfold acceptQuiet
  split <;> rfl

@[simp] theorem cfg_countLoud (gate : SpeechThresholdGate D) : gate.countLoud.cfg = gate.cfg :=
  rfl

@[simp] theorem speaking_countLoud (gate : SpeechThresholdGate D) :
    gate.countLoud.speaking = gate.speaking :=
  rfl

@[simp] theorem loudFrames_countLoud (gate : SpeechThresholdGate D) :
    gate.countLoud.loudFrames = gate.loudFrames + 1 :=
  rfl

@[simp] theorem cfg_trigger (gate : SpeechThresholdGate D) (nowMs : D) :
    (gate.trigger nowMs).cfg = gate.cfg :=
  rfl

end

section

variable {D : Type} [Double D]

/-- The constructor clamps `speech_frames` to at least one. -/
def make (config : GateConfig D) : SpeechThresholdGate D :=
  { cfg := { config with
      speechFrames := if config.speechFrames < 1 then 1 else config.speechFrames }
    lastTriggerMs := ((0 : Int) : D) }

/-- The cooldown test of `accept`: too soon after the previous onset. -/
def cooling (gate : SpeechThresholdGate D) (nowMs : D) : Bool :=
  ((0 : Int) : D) < gate.cfg.cooldownMs && gate.hasTriggered &&
    nowMs - gate.lastTriggerMs < gate.cfg.cooldownMs

/-- The branch of `accept` for a loud frame. -/
def acceptLoud (gate : SpeechThresholdGate D) (nowMs : D) : Bool × SpeechThresholdGate D :=
  let gate := gate.countLoud
  if gate.speaking || gate.loudFrames < gate.cfg.speechFrames then (false, gate)
  else if gate.cooling nowMs then (false, gate)
  else (true, gate.trigger nowMs)

/-- Returns true only on the frame where speech onset is declared. -/
def accept (gate : SpeechThresholdGate D) (energy : AudioEnergy D) (nowMs : D) :
    Bool × SpeechThresholdGate D :=
  if gate.cfg.loud energy then gate.acceptLoud nowMs else (false, gate.acceptQuiet)

def reset (gate : SpeechThresholdGate D) : SpeechThresholdGate D :=
  { gate with
    loudFrames := 0
    quietFrames := 0
    speaking := false
    hasTriggered := false
    lastTriggerMs := ((0 : Int) : D) }

/-! ## What one frame does to the gate -/

@[simp] theorem cooling_countLoud (gate : SpeechThresholdGate D) (nowMs : D) :
    gate.countLoud.cooling nowMs = gate.cooling nowMs :=
  rfl

@[simp] theorem cfg_acceptLoud (gate : SpeechThresholdGate D) (nowMs : D) :
    (gate.acceptLoud nowMs).2.cfg = gate.cfg := by
  unfold acceptLoud
  dsimp only
  split
  · rfl
  · split <;> rfl

@[simp] theorem cfg_accept (gate : SpeechThresholdGate D) (energy : AudioEnergy D) (nowMs : D) :
    (gate.accept energy nowMs).2.cfg = gate.cfg := by
  unfold accept
  split <;> simp

theorem accept_of_loud {gate : SpeechThresholdGate D} {energy : AudioEnergy D}
    (loud : gate.cfg.loud energy = true) (nowMs : D) :
    gate.accept energy nowMs = gate.acceptLoud nowMs := by
  simp [accept, loud]

theorem accept_of_quiet {gate : SpeechThresholdGate D} {energy : AudioEnergy D}
    (quiet : gate.cfg.loud energy = false) (nowMs : D) :
    gate.accept energy nowMs = (false, gate.acceptQuiet) := by
  simp [accept, quiet]

/-- The four ways a loud frame can go, guards included. -/
theorem acceptLoud_cases (gate : SpeechThresholdGate D) (nowMs : D) :
    (gate.speaking = true ∧ gate.acceptLoud nowMs = (false, gate.countLoud)) ∨
    (gate.speaking = false ∧ gate.loudFrames + 1 < gate.cfg.speechFrames ∧
      gate.acceptLoud nowMs = (false, gate.countLoud)) ∨
    (gate.speaking = false ∧ gate.cfg.speechFrames ≤ gate.loudFrames + 1 ∧
      gate.cooling nowMs = true ∧ gate.acceptLoud nowMs = (false, gate.countLoud)) ∨
    (gate.speaking = false ∧ gate.cfg.speechFrames ≤ gate.loudFrames + 1 ∧
      gate.cooling nowMs = false ∧
      gate.acceptLoud nowMs = (true, gate.countLoud.trigger nowMs)) := by
  cases speaking : gate.speaking with
  | true => simp [acceptLoud, speaking]
  | false =>
      by_cases early : gate.loudFrames + 1 < gate.cfg.speechFrames
      · simp [acceptLoud, speaking, early]
      · have late := UInt32.not_lt.mp early
        cases held : gate.cooling nowMs <;> simp [acceptLoud, held, speaking, early, late]

/-! ## The verdict on a frame, field by field -/

theorem onset_accept (gate : SpeechThresholdGate D) (energy : AudioEnergy D) (nowMs : D) :
    (gate.accept energy nowMs).1 = true ↔
      gate.cfg.loud energy = true ∧ gate.speaking = false ∧
        gate.cfg.speechFrames ≤ gate.loudFrames + 1 ∧ gate.cooling nowMs = false := by
  cases loud : gate.cfg.loud energy with
  | false => simp [accept_of_quiet loud]
  | true =>
      rw [accept_of_loud loud]
      rcases acceptLoud_cases gate nowMs with
        ⟨going, same⟩ | ⟨idle, early, same⟩ | ⟨idle, late, held, same⟩ | ⟨idle, late, ready, same⟩
      · simp [same, going]
      · simp [same, idle, UInt32.not_le.mpr early]
      · simp [same, held]
      · simp [same, idle, late, ready]

theorem speaking_accept {gate : SpeechThresholdGate D} (lasting : 0 < gate.cfg.silenceFrames)
    (energy : AudioEnergy D) (nowMs : D) :
    (gate.accept energy nowMs).2.speaking =
      ((gate.accept energy nowMs).1 || (gate.speaking &&
        (gate.cfg.loud energy || !decide (gate.cfg.silenceFrames ≤ gate.quietFrames + 1)))) := by
  cases loud : gate.cfg.loud energy with
  | false =>
      rw [accept_of_quiet loud]
      cases speaking : gate.speaking <;> simp [acceptQuiet, speaking]
  | true =>
      rw [accept_of_loud loud]
      rcases acceptLoud_cases gate nowMs with
        ⟨going, same⟩ | ⟨idle, -, same⟩ | ⟨idle, -, -, same⟩ | ⟨-, -, -, same⟩
      · simp [same, going]
      · simp [same, idle]
      · simp [same, idle]
      · simp [same, trigger, lasting]

theorem loudFrames_accept {gate : SpeechThresholdGate D} (lasting : 0 < gate.cfg.silenceFrames)
    (energy : AudioEnergy D) (nowMs : D) :
    (gate.accept energy nowMs).2.loudFrames =
      if gate.cfg.loud energy then gate.loudFrames + 1 else 0 := by
  cases loud : gate.cfg.loud energy with
  | false =>
      rw [accept_of_quiet loud]
      cases speaking : gate.speaking <;> simp [acceptQuiet, speaking]
  | true =>
      rw [accept_of_loud loud]
      rcases acceptLoud_cases gate nowMs with
        ⟨-, same⟩ | ⟨-, -, same⟩ | ⟨-, -, -, same⟩ | ⟨-, -, -, same⟩
      · simp [same]
      · simp [same]
      · simp [same]
      · simp [same, trigger, lasting]

theorem quietFrames_accept (gate : SpeechThresholdGate D) (energy : AudioEnergy D) (nowMs : D) :
    (gate.accept energy nowMs).2.quietFrames =
      if gate.cfg.loud energy then 0
      else if gate.speaking then gate.quietFrames + 1 else gate.quietFrames := by
  cases loud : gate.cfg.loud energy with
  | false =>
      rw [accept_of_quiet loud]
      cases speaking : gate.speaking <;> simp [acceptQuiet, speaking]
  | true =>
      rw [accept_of_loud loud]
      rcases acceptLoud_cases gate nowMs with
        ⟨-, same⟩ | ⟨-, -, same⟩ | ⟨-, -, -, same⟩ | ⟨-, -, -, same⟩ <;>
        simp [same, countLoud, trigger]

/-- The cooldown stamp moves on an onset only. -/
theorem stamp_accept (gate : SpeechThresholdGate D) (energy : AudioEnergy D) (nowMs : D) :
    (gate.accept energy nowMs).2.hasTriggered =
        ((gate.accept energy nowMs).1 || gate.hasTriggered) ∧
      (gate.accept energy nowMs).2.lastTriggerMs =
        if (gate.accept energy nowMs).1 then nowMs else gate.lastTriggerMs := by
  cases loud : gate.cfg.loud energy with
  | false =>
      rw [accept_of_quiet loud]
      cases speaking : gate.speaking <;> simp [acceptQuiet, speaking]
  | true =>
      rw [accept_of_loud loud]
      rcases acceptLoud_cases gate nowMs with
        ⟨-, same⟩ | ⟨-, -, same⟩ | ⟨-, -, -, same⟩ | ⟨-, -, -, same⟩ <;>
        simp [same, countLoud, trigger]

end

end SpeechThresholdGate

end VoiceHotPath
