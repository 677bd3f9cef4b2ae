import VoiceHotPath.Lib.Run
import VoiceHotPath.Vad.Scenario

/-!
# More hangover never cuts more

Without a cooldown, two gates that differ in `silence_frames` share their loud
counter, and while the one with less hangover speaks, they share the quiet
counter too.  The onsets of the patient gate are onsets of the other.
-/

namespace VoiceHotPath

/-- What the gate is shown: the energy of a frame and the time. -/
abbrev Shown (D : Type) := AudioEnergy D × D

/-- The frame is below both thresholds. -/
def GateConfig.quiet {D : Type} [Double D] (cfg : GateConfig D) (frame : Shown D) : Bool :=
  !cfg.loud frame.1

namespace SpeechThresholdGate

section

variable {D : Type} [Double D]

/-- The gate after some frames. -/
def acceptAll (gate : SpeechThresholdGate D) (frames : List (Shown D)) : SpeechThresholdGate D :=
  frames.foldl (fun gate frame => (gate.accept frame.1 frame.2).2) gate

/-- Whether a frame is an onset. -/
def onset (gate : SpeechThresholdGate D) (frame : Shown D) : Bool :=
  (gate.accept frame.1 frame.2).1

/-- Whether a frame ends speech. -/
def ends (gate : SpeechThresholdGate D) (frame : Shown D) : Bool :=
  gate.speaking && !(gate.accept frame.1 frame.2).2.speaking

/-- How many frames get a verdict. -/
def tally (verdict : SpeechThresholdGate D → Shown D → Bool) :
    SpeechThresholdGate D → List (Shown D) → Nat
  | _, [] => 0
  | gate, frame :: frames =>
      (verdict gate frame).toNat + tally verdict (gate.accept frame.1 frame.2).2 frames

theorem acceptAll_cons (gate : SpeechThresholdGate D) (frame : Shown D)
    (frames : List (Shown D)) :
    gate.acceptAll (frame :: frames) = (gate.accept frame.1 frame.2).2.acceptAll frames :=
  rfl

theorem acceptAll_snoc (gate : SpeechThresholdGate D) (frames : List (Shown D))
    (frame : Shown D) :
    gate.acceptAll (frames ++ [frame]) =
      ((gate.acceptAll frames).accept frame.1 frame.2).2 := by
  simp [acceptAll]

/-! ## Two gates on one sequence -/

/-- The second gate has no less hangover than the first, and no cooldown holds either back. -/
structure Outlasts (short long : SpeechThresholdGate D) : Prop where
  cfg : long.cfg = { short.cfg with silenceFrames := long.cfg.silenceFrames }
  lasting : 0 < short.cfg.silenceFrames
  longer : short.cfg.silenceFrames ≤ long.cfg.silenceFrames
  disabled : ¬ ((0 : Int) : D) < short.cfg.cooldownMs
  loudFrames : long.loudFrames = short.loudFrames
  speaking : short.speaking = true →
    long.speaking = true ∧ long.quietFrames = short.quietFrames

variable {short long : SpeechThresholdGate D}

theorem cooling_of_disabled {gate : SpeechThresholdGate D}
    (disabled : ¬ ((0 : Int) : D) < gate.cfg.cooldownMs) (nowMs : D) :
    gate.cooling nowMs = false := by
  simp [cooling, disabled]

theorem Outlasts.loud_eq (outlasts : Outlasts short long) (energy : AudioEnergy D) :
    long.cfg.loud energy = short.cfg.loud energy := by
  rw [outlasts.cfg]
  rfl

theorem Outlasts.speechFrames_eq (outlasts : Outlasts short long) :
    long.cfg.speechFrames = short.cfg.speechFrames := by
  rw [outlasts.cfg]

theorem Outlasts.disabled_long (outlasts : Outlasts short long) :
    ¬ ((0 : Int) : D) < long.cfg.cooldownMs := by
  rw [outlasts.cfg]
  exact outlasts.disabled

/-- An onset of the patient gate is one of the other. -/
theorem Outlasts.onset_of_long (outlasts : Outlasts short long) {frame : Shown D}
    (declared : long.onset frame = true) : short.onset frame = true := by
  obtain ⟨loud, idle, run, -⟩ := (onset_accept long frame.1 frame.2).mp declared
  rw [outlasts.loud_eq] at loud
  rw [outlasts.speechFrames_eq, outlasts.loudFrames] at run
  refine (onset_accept short frame.1 frame.2).mpr
    ⟨loud, ?_, run, cooling_of_disabled outlasts.disabled frame.2⟩
  cases speaking : short.speaking with
  | false => rfl
  | true =>
      have going := (outlasts.speaking speaking).1
      rw [idle] at going
      cases going

/-- A loud run long enough is an onset, unless speech is going on. -/
theorem onset_of_run {gate : SpeechThresholdGate D}
    (disabled : ¬ ((0 : Int) : D) < gate.cfg.cooldownMs) {frame : Shown D}
    (loud : gate.cfg.loud frame.1 = true) (run : gate.cfg.speechFrames ≤ gate.loudFrames + 1)
    (idle : gate.speaking = false) : gate.onset frame = true :=
  (onset_accept gate frame.1 frame.2).mpr
    ⟨loud, idle, run, cooling_of_disabled disabled frame.2⟩

/-- Step lemma: one frame leaves the patient gate ahead. -/
theorem Outlasts.accept (outlasts : Outlasts short long) (frame : Shown D) :
    Outlasts (short.accept frame.1 frame.2).2 (long.accept frame.1 frame.2).2 := by
  have lasting : 0 < long.cfg.silenceFrames :=
    UInt32.lt_of_lt_of_le outlasts.lasting outlasts.longer
  refine ⟨?_, ?_, ?_, ?_, ?_, ?_⟩
  · rw [cfg_accept, cfg_accept]
    exact outlasts.cfg
  · rw [cfg_accept]
    exact outlasts.lasting
  · rw [cfg_accept, cfg_accept]
    exact outlasts.longer
  · rw [cfg_accept]
    exact outlasts.disabled
  · rw [loudFrames_accept lasting, loudFrames_accept outlasts.lasting, outlasts.loud_eq,
      outlasts.loudFrames]
  · intro after
    rw [speaking_accept outlasts.lasting] at after
    rw [speaking_accept lasting, quietFrames_accept, quietFrames_accept, outlasts.loud_eq]
    rcases Bool.or_eq_true_iff.mp after with opened | going
    · -- The first gate opens: the second opens too, or is still speaking.
      obtain ⟨loud, -, run, -⟩ := (onset_accept short frame.1 frame.2).mp opened
      rw [loud]
      refine ⟨?_, rfl⟩
      cases speaking : long.speaking with
      | true => simp
      | false =>
          rw [← outlasts.loud_eq] at loud
          rw [← outlasts.speechFrames_eq, ← outlasts.loudFrames] at run
          have declared := onset_of_run outlasts.disabled_long loud run speaking
          rw [onset] at declared
          simp [declared]
    · obtain ⟨before, kept⟩ := Bool.and_eq_true_iff.mp going
      obtain ⟨speaking, shared⟩ := outlasts.speaking before
      rw [before, speaking, shared]
      refine ⟨?_, rfl⟩
      cases loud : short.cfg.loud frame.1 with
      | true => simp
      | false =>
          rw [loud, Bool.false_or, Bool.not_eq_true', decide_eq_false_iff_not] at kept
          have short_run := UInt32.lt_of_lt_of_le (UInt32.not_le.mp kept) outlasts.longer
          simp [UInt32.not_le.mpr short_run]

/-- Run lemma: the patient gate stays ahead over any sequence. -/
theorem Outlasts.acceptAll (outlasts : Outlasts short long) (frames : List (Shown D)) :
    Outlasts (short.acceptAll frames) (long.acceptAll frames) := by
  induction frames generalizing short long with
  | nil => exact outlasts
  | cons frame frames ih => exact ih (outlasts.accept frame)

theorem Outlasts.onsets_le (outlasts : Outlasts short long) (frames : List (Shown D)) :
    tally onset long frames ≤ tally onset short frames := by
  induction frames generalizing short long with
  | nil => exact Nat.le_refl 0
  | cons frame frames ih =>
      apply Nat.add_le_add _ (ih (outlasts.accept frame))
      cases declared : long.onset frame with
      | false => exact Nat.zero_le _
      | true => rw [outlasts.onset_of_long declared]

/-! ## Onsets and ends -/

/-- Every onset is followed by an end, but for the speech that is going on. -/
theorem tally_balance {gate : SpeechThresholdGate D} (lasting : 0 < gate.cfg.silenceFrames)
    (frames : List (Shown D)) :
    tally ends gate frames + (gate.acceptAll frames).speaking.toNat =
      tally onset gate frames + gate.speaking.toNat := by
  induction frames generalizing gate with
  | nil => rfl
  | cons frame frames ih =>
      have kept : 0 < (gate.accept frame.1 frame.2).2.cfg.silenceFrames := by
        rw [cfg_accept]
        exact lasting
      have rest := ih kept
      have moved := speaking_accept lasting frame.1 frame.2
      have opened := onset_accept gate frame.1 frame.2
      have here : (gate.ends frame).toNat + (gate.accept frame.1 frame.2).2.speaking.toNat =
          (gate.onset frame).toNat + gate.speaking.toNat := by
        unfold ends onset
        cases declared : (gate.accept frame.1 frame.2).1 with
        | true =>
            rw [declared] at moved
            have idle := (opened.mp declared).2.1
            simp [moved, idle]
        | false =>
            rw [declared, Bool.false_or] at moved
            cases speaking : gate.speaking with
            | false => simp [moved, speaking]
            | true => cases (gate.accept frame.1 frame.2).2.speaking <;> simp
      rw [acceptAll_cons, tally, tally]
      omega

theorem Outlasts.ends_le (outlasts : Outlasts short long) (idle : short.speaking = false)
    (idle' : long.speaking = false) (frames : List (Shown D)) :
    tally ends long frames ≤ tally ends short frames := by
  have onsets := outlasts.onsets_le frames
  have balance := tally_balance outlasts.lasting frames
  have balance' := tally_balance (UInt32.lt_of_lt_of_le outlasts.lasting outlasts.longer) frames
  have ahead : (short.acceptAll frames).speaking.toNat ≤
      (long.acceptAll frames).speaking.toNat := by
    cases speaking : (short.acceptAll frames).speaking with
    | false => exact Nat.zero_le _
    | true => rw [((outlasts.acceptAll frames).speaking speaking).1]
  rw [idle] at balance
  rw [idle'] at balance'
  omega

/-! ## Pauses -/

/-- While the gate speaks, its quiet counter is the trailing run of quiet frames. -/
structure CountsPause (gate : SpeechThresholdGate D) (frames : List (Shown D)) : Prop where
  lasting : 0 < gate.cfg.silenceFrames
  counted : gate.speaking = true →
    gate.quietFrames.toNat = Run.trailing gate.cfg.quiet frames ∧
      Run.trailing gate.cfg.quiet frames < gate.cfg.silenceFrames.toNat

variable {gate : SpeechThresholdGate D} {frames : List (Shown D)}

/-- The quiet counter after a frame, of a gate that speaks. -/
theorem CountsPause.quietRun (counts : CountsPause gate frames) (speaking : gate.speaking = true)
    (frame : Shown D) :
    (gate.accept frame.1 frame.2).2.quietFrames.toNat =
      Run.trailing gate.cfg.quiet (frames ++ [frame]) := by
  obtain ⟨counted, short⟩ := counts.counted speaking
  rw [quietFrames_accept]
  cases loud : gate.cfg.loud frame.1 with
  | true =>
      have quiet : gate.cfg.quiet frame = false := by simp [GateConfig.quiet, loud]
      rw [Run.trailing_snoc_of_neg quiet]
      rfl
  | false =>
      have quiet : gate.cfg.quiet frame = true := by simp [GateConfig.quiet, loud]
      have width := UInt32.toNat_lt gate.cfg.silenceFrames
      rw [Run.trailing_snoc_of_pos quiet, if_neg Bool.false_ne_true, if_pos speaking,
        UInt32.toNat_add, counted]
      exact Nat.mod_eq_of_lt (by simp; omega)

/-- Speech goes on over a pause that is shorter than the hangover, and over no other. -/
theorem CountsPause.speaking_iff (counts : CountsPause gate frames)
    (speaking : gate.speaking = true) (frame : Shown D) :
    (gate.accept frame.1 frame.2).2.speaking = true ↔
      Run.trailing gate.cfg.quiet (frames ++ [frame]) < gate.cfg.silenceFrames.toNat := by
  have idle : (gate.accept frame.1 frame.2).1 = false := by
    rw [Bool.eq_false_iff, ne_eq, onset_accept, speaking]
    simp
  have after := counts.quietRun speaking frame
  rw [quietFrames_accept] at after
  rw [speaking_accept counts.lasting, idle, speaking, ← after]
  cases loud : gate.cfg.loud frame.1 with
  | true =>
      have some := UInt32.lt_iff_toNat_lt.mp counts.lasting
      simpa using some
  | false =>
      rw [← UInt32.lt_iff_toNat_lt]
      simp [speaking]

/-- Step lemma: one frame extends the run the gate counts. -/
theorem CountsPause.accept (counts : CountsPause gate frames) (frame : Shown D) :
    CountsPause (gate.accept frame.1 frame.2).2 (frames ++ [frame]) := by
  have moved := speaking_accept counts.lasting frame.1 frame.2
  constructor
  · rw [cfg_accept]
    exact counts.lasting
  · intro after
    rw [cfg_accept]
    cases speaking : gate.speaking with
    | true =>
        exact ⟨counts.quietRun speaking frame, (counts.speaking_iff speaking frame).mp after⟩
    | false =>
        rw [moved, speaking, Bool.false_and, Bool.or_false] at after
        have loud := ((onset_accept gate frame.1 frame.2).mp after).1
        have quiet : gate.cfg.quiet frame = false := by simp [GateConfig.quiet, loud]
        have some := UInt32.lt_iff_toNat_lt.mp counts.lasting
        rw [quietFrames_accept, Run.trailing_snoc_of_neg quiet, loud]
        exact ⟨rfl, some⟩

/-- Run lemma: the runs the gate counts over any sequence. -/
theorem CountsPause.acceptAll (counts : CountsPause gate []) (frames : List (Shown D)) :
    CountsPause (gate.acceptAll frames) frames := by
  induction frames using List.reverseRecOn with
  | nil => exact counts
  | append_singleton frames frame ih =>
      rw [acceptAll_snoc]
      exact ih.accept frame

@[simp] theorem cfg_acceptAll (gate : SpeechThresholdGate D) (frames : List (Shown D)) :
    (gate.acceptAll frames).cfg = gate.cfg := by
  induction frames generalizing gate with
  | nil => rfl
  | cons frame frames ih => rw [acceptAll_cons, ih, cfg_accept]

/-- No onset within speech whose pauses are shorter than the hangover. -/
theorem CountsPause.bridges (counts : CountsPause gate frames) (speaking : gate.speaking = true)
    (later : List (Shown D))
    (short : ∀ heard, heard ≠ [] → heard <+: later →
      Run.trailing gate.cfg.quiet (frames ++ heard) < gate.cfg.silenceFrames.toNat) :
    tally SpeechThresholdGate.onset gate later = 0 ∧
      (gate.acceptAll later).speaking = true := by
  induction later generalizing gate frames with
  | nil => exact ⟨rfl, speaking⟩
  | cons frame later ih =>
      have next : (gate.accept frame.1 frame.2).2.speaking = true := by
        rw [counts.speaking_iff speaking]
        exact short [frame] (List.cons_ne_nil _ _) ⟨later, rfl⟩
      have idle : gate.onset frame = false := by
        rw [onset, Bool.eq_false_iff, ne_eq, onset_accept, speaking]
        simp
      have rest := ih (counts.accept frame) next (by
        intro heard _ within
        rw [cfg_accept, List.append_assoc]
        exact short (frame :: heard) (List.cons_ne_nil _ _)
          (List.prefix_cons_inj frame |>.mpr within))
      rw [tally, idle, acceptAll_cons]
      exact ⟨by rw [rest.1]; rfl, rest.2⟩

end

/-! ## The hangover sweep -/

section

variable {D : Type} [Double D]

/-- A pause inside speech that is shorter than the hangover is no onset. -/
def BridgesPauses (config : GateConfig D) : Prop :=
  ∀ frames later, ((make config).acceptAll frames).speaking = true →
    (∀ heard, heard ≠ [] → heard <+: later →
      Run.trailing config.quiet (frames ++ heard) < config.silenceFrames.toNat) →
    tally onset ((make config).acceptAll frames) later = 0

theorem countsPause_make {config : GateConfig D} (lasting : 1 ≤ config.silenceFrames) :
    CountsPause (make config) [] :=
  ⟨UInt32.lt_of_lt_of_le (by decide) lasting, fun absent => by cases absent⟩

theorem bridgesPauses_of_lasting {config : GateConfig D} (lasting : 1 ≤ config.silenceFrames) :
    BridgesPauses config := by
  intro frames later speaking short
  have counts := (countsPause_make lasting).acceptAll frames
  refine (counts.bridges speaking later ?_).1
  rw [cfg_acceptAll]
  exact short

/-- Of two gates that differ in `silence_frames` only, the one with more hangover speaks whenever
the other does, its onsets are onsets of the other, and neither cuts a pause that is shorter than
its hangover. -/
theorem hangover_mono (config : GateConfig D) (disabled : ¬ ((0 : Int) : D) < config.cooldownMs)
    {s₁ s₂ : UInt32} (lasting : 1 ≤ s₁) (longer : s₁ ≤ s₂) :
    let short := make { config with silenceFrames := s₁ }
    let long := make { config with silenceFrames := s₂ }
    (∀ frames, (short.acceptAll frames).speaking = true →
      (long.acceptAll frames).speaking = true) ∧
    (∀ frames frame, (long.acceptAll frames).onset frame = true →
      (short.acceptAll frames).onset frame = true) ∧
    (∀ frames, tally onset long frames ≤ tally onset short frames ∧
      tally ends long frames ≤ tally ends short frames) ∧
    BridgesPauses { config with silenceFrames := s₁ } ∧
    BridgesPauses { config with silenceFrames := s₂ } := by
  intro short long
  have outlasts : Outlasts short long :=
    ⟨rfl, UInt32.lt_of_lt_of_le (by decide) lasting, longer, disabled, rfl,
      fun absent => by cases absent⟩
  refine ⟨?_, ?_, ?_, ?_, ?_⟩
  · intro frames speaking
    exact ((outlasts.acceptAll frames).speaking speaking).1
  · intro frames frame declared
    exact (outlasts.acceptAll frames).onset_of_long declared
  · intro frames
    exact ⟨outlasts.onsets_le frames, outlasts.ends_le rfl rfl frames⟩
  · exact bridgesPauses_of_lasting lasting
  · exact bridgesPauses_of_lasting (UInt32.le_trans lasting longer)

end

section

open Scenario

/-- Two words with a pause of two frames between them. -/
def twoWords : List (Shown ℚ) :=
  [toneFrame 0, toneFrame 1, silentFrame 2, silentFrame 3, toneFrame 4, toneFrame 5].map
    fun frame => (frameEnergy frame, 0)

/-- A hangover of three frames cuts them no more often than one of a single frame. -/
theorem hangover_mono_twoWords :
    tally onset (make { shortConfig.gate with silenceFrames := 3 }) twoWords ≤
      tally onset (make { shortConfig.gate with silenceFrames := 1 }) twoWords :=
  ((hangover_mono shortConfig.gate (by decide) (by decide) (by decide)).2.2.1 twoWords).1

example : tally onset (make { shortConfig.gate with silenceFrames := 3 }) twoWords = 1 ∧
    tally onset (make { shortConfig.gate with silenceFrames := 1 }) twoWords = 2 := by
  decide +kernel

end

end SpeechThresholdGate

end VoiceHotPath
