import VoiceHotPath.Vad.GateHistory
import VoiceHotPath.Vad.Reuse

/-!
# When a used assembler is as good as new

Between two chunks an assembler keeps its gate's state and its pre-roll.  What
they hold back or let in shows up in the events of the next call, unless the
assembler is neutral or no frame is loud enough ever to open a chunk.
-/

namespace VoiceHotPath

namespace SpeechThresholdGate

section

variable {D : Type} [Double D]

/-- A silent gate whose loud run has reached the onset count is held by its cooldown. -/
def Settled (gate : SpeechThresholdGate D) : Prop :=
  gate.speaking = false → gate.loudFrames < gate.cfg.speechFrames ∨
    ∃ nowNs, gate.cooling (ChunkAssembler.nsToMs nowNs) = true

theorem settled_accept {gate : SpeechThresholdGate D} (positive : 0 < gate.cfg.speechFrames)
    (energy : AudioEnergy D) (nowNs : UInt64) :
    (gate.accept energy (ChunkAssembler.nsToMs nowNs)).2.Settled := by
  cases loud : gate.cfg.loud energy with
  | false =>
      rw [accept_of_quiet loud, acceptQuiet]
      split
      · exact fun _ => .inl positive
      · exact fun _ => .inl positive
  | true =>
      rw [accept_of_loud loud]
      rcases acceptLoud_cases gate (ChunkAssembler.nsToMs nowNs) with
        ⟨going, same⟩ | ⟨-, early, same⟩ | ⟨-, -, held, same⟩ | ⟨-, -, -, same⟩
      · rw [same]
        intro idle
        rw [show gate.countLoud.speaking = true from going] at idle
        cases idle
      · rw [same]
        exact fun _ => .inl early
      · rw [same]
        exact fun _ => .inr ⟨nowNs, held⟩
      · rw [same]
        intro idle
        have never : ¬ 0 < gate.cfg.silenceFrames := of_decide_eq_false idle
        have cleared : (gate.countLoud.trigger (ChunkAssembler.nsToMs nowNs)).loudFrames = 0 :=
          if_neg never
        rw [cleared]
        exact .inl positive

end

end SpeechThresholdGate

namespace ChunkAssembler

section

variable {D : Type} [Double D]

/-- Nothing of the frames received so far can show in a later call. -/
structure Neutral (assembler : ChunkAssembler D) : Prop where
  speaking : assembler.gate.speaking = false
  loudFrames : assembler.gate.loudFrames = 0
  cooling : ∀ nowNs, assembler.gate.cooling (nsToMs nowNs) = false
  preRoll : assembler.preRoll.size = 0 ∨
    assembler.preRoll.cap < assembler.gate.cfg.speechFrames.toNat

/-- Every later call publishes what it would publish on a new assembler. -/
def Isolated (config : ChunkerConfig D) (assembler : ChunkAssembler D) : Prop :=
  ∀ calls, Machine.outputs publish assembler calls =
    Machine.outputs publish (make config) calls

/-- No frame is loud under the configured thresholds. -/
def Deaf (config : ChunkerConfig D) : Prop :=
  ∀ frame, config.loudFrame frame = false

/-- What holds of an assembler between chunks, whatever it has been fed. -/
structure Rested (config : ChunkerConfig D) (assembler : ChunkAssembler D) : Prop where
  active : assembler.active = false
  cfg : assembler.cfg = config
  gateCfg : assembler.gate.cfg = (SpeechThresholdGate.make config.gate).cfg
  cap : assembler.preRoll.cap = config.preRollFrames.toNat
  holds : ∃ frames, assembler.preRoll.Holds frames
  settled : assembler.gate.Settled

theorem speechFrames_make_pos (config : ChunkerConfig D) :
    0 < (SpeechThresholdGate.make config.gate).cfg.speechFrames := by
  rw [UInt32.lt_iff_toNat_lt, SpeechThresholdGate.toNat_speechFrames_make]
  exact Nat.le_max_left 1 _

theorem gate_call (assembler : ChunkAssembler D) (next : Call) :
    (∃ frame nowNs, (assembler.call next).1.gate = (assembler.gated frame nowNs).2) ∨
      (assembler.call next).1.gate = assembler.gate := by
  cases next with
  | frame frame nowNs => exact .inl ⟨frame, nowNs, assembler.gate_onFrame frame nowNs⟩
  | flush nowNs =>
      right
      change (assembler.flush nowNs).1.gate = assembler.gate
      rw [flush]
      split <;> rfl

theorem gate_after (config : ChunkerConfig D) (calls : List Call) :
    (after config calls).gate.cfg = (SpeechThresholdGate.make config.gate).cfg ∧
      (after config calls).gate.Settled := by
  have preserved : ∀ (assembler : ChunkAssembler D) (next : Call),
      assembler.gate.cfg = (SpeechThresholdGate.make config.gate).cfg ∧
        assembler.gate.Settled →
      (assembler.call next).1.gate.cfg = (SpeechThresholdGate.make config.gate).cfg ∧
        (assembler.call next).1.gate.Settled := by
    rintro assembler next ⟨cfg, settled⟩
    rcases gate_call assembler next with ⟨frame, nowNs, same⟩ | same
    · rw [same, gated]
      refine ⟨by simpa using cfg, SpeechThresholdGate.settled_accept ?_ _ _⟩
      rw [cfg]
      exact speechFrames_make_pos config
    · rw [same]
      exact ⟨cfg, settled⟩
  exact Machine.final_invariant call preserved
    ⟨rfl, fun _ => .inl (speechFrames_make_pos config)⟩ calls

/-- Every assembler between chunks is rested. -/
theorem rested_after (config : ChunkerConfig D) (calls : List Call)
    (inactive : (after config calls).active = false) : Rested config (after config calls) := by
  have tracks := tracks_after config calls
  obtain ⟨cfg, settled⟩ := gate_after config calls
  have inPhase := tracks.inPhase
  refine ⟨inactive, tracks.cfg_eq, cfg, tracks.cap_eq, ?_, settled⟩
  cases phase : (timeline config calls).phase with
  | idle since =>
      rw [phase] at inPhase
      exact ⟨_, inPhase.2⟩
  | recording start onset =>
      rw [phase] at inPhase
      rw [inPhase.1] at inactive
      cases inactive

theorem rested_make (config : ChunkerConfig D) : Rested config (make config) :=
  rested_after config [] rfl

/-! ## Neutral assemblers are isolated -/

theorem Neutral.alike {config : ChunkerConfig D} {assembler : ChunkAssembler D}
    (neutral : assembler.Neutral) (rested : Rested config assembler) :
    assembler.Alike (make config) := by
  obtain ⟨frames, holds⟩ := rested.holds
  have never : ∀ nowNs, (make config).gate.cooling (nsToMs nowNs) = false := by
    intro nowNs
    rw [SpeechThresholdGate.cooling, Bool.and_assoc]
    exact Bool.and_false _
  have gate : assembler.gate.Alike (make config).gate := by
    refine ⟨rested.gateCfg, neutral.speaking, neutral.loudFrames, fun going => ?_, fun nowNs => ?_⟩
    · rw [neutral.speaking] at going
      cases going
    · rw [neutral.cooling, never]
  refine ⟨rested.cfg, gate, rested.active, fun going => ?_, ?_, frames, [], by simpa using holds,
    OverwriteRing.holds_empty _ _, ?_⟩
  · rw [rested.active] at going
    cases going
  · exact rested.cap.trans (OverwriteRing.cap_empty _ _).symm
  · have counted : assembler.gate.loudFrames.toNat ≤ 0 := by
      rw [neutral.loudFrames]
      exact Nat.le_refl 0
    rcases neutral.preRoll with empty | short
    · by_cases flat : assembler.preRoll.cap = 0
      · refine .inr ⟨rested.active, neutral.speaking, ?_, counted⟩
        rw [flat, rested.gateCfg]
        exact UInt32.lt_iff_toNat_lt.mp (speechFrames_make_pos config)
      · have size := holds.size_eq
        exact .inl (List.length_eq_zero_iff.mp (by omega))
    · exact .inr ⟨rested.active, neutral.speaking, short, counted⟩

theorem Neutral.isolated {config : ChunkerConfig D} {assembler : ChunkAssembler D}
    (neutral : assembler.Neutral) (rested : Rested config assembler) :
    Isolated config assembler := by
  intro calls
  have steps : ∀ (reused fresh : ChunkAssembler D) (next next' : Call), reused.Alike fresh →
      next = next' → (reused.publish next).1.Alike (fresh.publish next').1 ∧
        (reused.publish next).2 = (fresh.publish next').2 := by
    rintro reused fresh next - alike rfl
    exact alike.publish next
  have runs := (Machine.outputs_simulation steps (neutral.alike rested)
    (List.forall₂_refl calls)).2
  rwa [List.forall₂_eq_eq_eq] at runs

/-! ## Isolated assemblers are neutral -/

/-- What is published first. -/
def firstPublished (assembler : ChunkAssembler D) (calls : List Call) :
    Option (ChunkEvent × List UInt8) :=
  (Machine.outputs publish assembler calls).findSome? id

theorem firstPublished_cons (assembler : ChunkAssembler D) (next : Call) (calls : List Call) :
    assembler.firstPublished (next :: calls) =
      (assembler.published next).or ((assembler.call next).1.firstPublished calls) := by
  rw [firstPublished, Machine.outputs_cons, List.findSome?_cons]
  change _ = (assembler.publish next).2.or _
  cases (assembler.publish next).2 <;> rfl

/-- A number of equal frames at one time, then the end of the call. -/
def burst (frame : AudioFrame) (nowNs : UInt64) (count : Nat) : List Call :=
  List.replicate count (.frame frame nowNs) ++ [.flush nowNs]

theorem burst_succ (frame : AudioFrame) (nowNs : UInt64) (count : Nat) :
    burst frame nowNs (count + 1) = .frame frame nowNs :: burst frame nowNs count := by
  rw [burst, burst, List.replicate_succ, List.cons_append]

section

variable {assembler : ChunkAssembler D} {frame : AudioFrame} {nowNs : UInt64}

theorem firstPublished_burst_zero (inactive : assembler.active = false) :
    assembler.firstPublished (burst frame nowNs 0) = none := by
  have quiet : assembler.published (.flush nowNs) = none := by
    have flushed : (assembler.flush nowNs).2 = none := by
      rw [flush, inactive]
      rfl
    rw [published, show (assembler.call (.flush nowNs)).2 = none from flushed]
    rfl
  have only : burst frame nowNs 0 = [.flush nowNs] := rfl
  rw [only, firstPublished_cons, quiet]
  rfl

/-- A frame that opens nothing goes to the pre-roll. -/
theorem frame_of_not_opens (inactive : assembler.active = false)
    (closed : assembler.opens frame nowNs = false) :
    assembler.published (.frame frame nowNs) = none ∧
      (assembler.call (.frame frame nowNs)).1.active = false ∧
      (assembler.call (.frame frame nowNs)).1.gate = (assembler.gated frame nowNs).2 ∧
      (assembler.call (.frame frame nowNs)).1.preRoll = assembler.preRoll.push frame := by
  have routed : (assembler.prepared (.frame frame nowNs)).active = false ∧
      (assembler.prepared (.frame frame nowNs)).preRoll = assembler.preRoll.push frame := by
    rw [prepared, gatedState_of_not_opens closed, countGap_eq, routeFrame, inactive]
    exact ⟨rfl, rfl⟩
  have same : assembler.call (.frame frame nowNs) =
      (assembler.prepared (.frame frame nowNs), none) := by
    change (assembler.prepared (.frame frame nowNs)).closeFrame nowNs = _
    rw [closeFrame, routed.1]
    rfl
  refine ⟨?_, ?_, assembler.gate_onFrame frame nowNs, ?_⟩
  · rw [published, same]
    rfl
  · rw [same]
    exact routed.1
  · rw [same]
    exact routed.2

/-- Between chunks, and kept from an onset by speech going on or by the cooldown. -/
structure Hushed (assembler : ChunkAssembler D) (nowNs : UInt64) : Prop where
  active : assembler.active = false
  gate : assembler.gate.speaking = true ∨ assembler.gate.cooling (nsToMs nowNs) = true

theorem Hushed.gated (hushed : assembler.Hushed nowNs)
    (loud : assembler.gate.cfg.loud (frameEnergy frame) = true) :
    assembler.gated frame nowNs = (false, assembler.gate.countLoud) := by
  rw [ChunkAssembler.gated, SpeechThresholdGate.accept_of_loud loud]
  rcases SpeechThresholdGate.acceptLoud_cases assembler.gate (nsToMs nowNs) with
    ⟨-, same⟩ | ⟨-, -, same⟩ | ⟨-, -, -, same⟩ | ⟨idle, -, ready, -⟩
  · exact same
  · exact same
  · exact same
  · rcases hushed.gate with going | held
    · rw [idle] at going
      cases going
    · rw [ready] at held
      cases held

/-- A hushed assembler publishes nothing for a burst of loud frames. -/
theorem Hushed.firstPublished (hushed : assembler.Hushed nowNs)
    (loud : assembler.gate.cfg.loud (frameEnergy frame) = true) (count : Nat) :
    assembler.firstPublished (burst frame nowNs count) = none := by
  induction count generalizing assembler with
  | zero => exact firstPublished_burst_zero hushed.active
  | succ count ih =>
      have verdict := hushed.gated loud
      have closed : assembler.opens frame nowNs = false := by
        rw [opens, verdict]
        rfl
      obtain ⟨quiet, inactive, gate, -⟩ := frame_of_not_opens hushed.active closed
      rw [verdict] at gate
      have next : (assembler.call (.frame frame nowNs)).1.Hushed nowNs := by
        refine ⟨inactive, ?_⟩
        rw [gate]
        exact hushed.gate
      rw [burst_succ, firstPublished_cons, quiet, Option.none_or]
      apply ih next
      rw [gate]
      exact loud

/-- Between chunks with nothing to hold back an onset but the count of loud frames. -/
structure Waiting (assembler : ChunkAssembler D) (nowNs : UInt64) (run counted cap : Nat)
    (frames : List AudioFrame) : Prop where
  active : assembler.active = false
  speaking : assembler.gate.speaking = false
  ready : assembler.gate.cooling (nsToMs nowNs) = false
  run : assembler.gate.cfg.speechFrames.toNat = run
  counted : assembler.gate.loudFrames.toNat = counted
  cap : assembler.preRoll.cap = cap
  holds : assembler.preRoll.Holds frames

section

variable {run counted cap : Nat} {frames : List AudioFrame}

/-- A loud frame short of the onset count is counted and kept in the pre-roll. -/
theorem Waiting.early (waiting : assembler.Waiting nowNs run counted cap frames)
    (short : counted + 1 < run)
    (loud : assembler.gate.cfg.loud (frameEnergy frame) = true) :
    assembler.published (.frame frame nowNs) = none ∧
      (assembler.call (.frame frame nowNs)).1.Waiting nowNs run (counted + 1) cap
        (frames ++ [frame]) ∧
      (assembler.call (.frame frame nowNs)).1.gate.cfg = assembler.gate.cfg := by
  have bound := UInt32.toNat_lt assembler.gate.cfg.speechFrames
  have next : (assembler.gate.loudFrames + 1).toNat = counted + 1 := by
    have small := waiting.run
    have room : assembler.gate.loudFrames.toNat + 1 < 2 ^ 32 := by
      rw [waiting.counted]
      omega
    rw [WrappingCounter.toNat_succ32 room, waiting.counted]
  have early : assembler.gate.loudFrames + 1 < assembler.gate.cfg.speechFrames := by
    rw [UInt32.lt_iff_toNat_lt, next, waiting.run]
    exact short
  have verdict : assembler.gated frame nowNs = (false, assembler.gate.countLoud) := by
    rw [gated, SpeechThresholdGate.accept_of_loud loud]
    simp [SpeechThresholdGate.acceptLoud, early]
  have closed : assembler.opens frame nowNs = false := by
    rw [opens, verdict]
    rfl
  obtain ⟨quiet, inactive, gate, preRoll⟩ := frame_of_not_opens waiting.active closed
  rw [verdict] at gate
  refine ⟨quiet, ⟨inactive, ?_, ?_, ?_, ?_, ?_, ?_⟩, ?_⟩
  · rw [gate]
    exact waiting.speaking
  · rw [gate]
    exact waiting.ready
  · rw [gate]
    exact waiting.run
  · rw [gate]
    exact next
  · rw [preRoll, OverwriteRing.cap_push]
    exact waiting.cap
  · rw [preRoll]
    exact waiting.holds.push frame
  · rw [gate]
    rfl

theorem Waiting.firstPublished_none (waiting : assembler.Waiting nowNs run counted cap frames)
    (loud : assembler.gate.cfg.loud (frameEnergy frame) = true) {count : Nat}
    (early : counted + count < run) :
    assembler.firstPublished (burst frame nowNs count) = none := by
  induction count generalizing assembler counted frames with
  | zero => exact firstPublished_burst_zero waiting.active
  | succ count ih =>
      obtain ⟨quiet, next, cfg⟩ := waiting.early (by omega) loud
      rw [burst_succ, firstPublished_cons, quiet, Option.none_or]
      exact ih next (by rw [cfg]; exact loud) (by omega)

/-- The frame that completes the onset count opens a chunk on the pre-roll. -/
theorem Waiting.opens (waiting : assembler.Waiting nowNs run counted cap frames)
    (ripe : counted + 1 = run) (loud : assembler.gate.cfg.loud (frameEnergy frame) = true) :
    assembler.opens frame nowNs = true := by
  have bound := UInt32.toNat_lt assembler.gate.cfg.speechFrames
  have reached : assembler.gate.cfg.speechFrames ≤ assembler.gate.loudFrames + 1 := by
    rw [UInt32.le_iff_toNat_le, UInt32.toNat_add, waiting.counted]
    have small := waiting.run
    have exact : (counted + (1 : UInt32).toNat) % 2 ^ 32 = counted + 1 :=
      Nat.mod_eq_of_lt (by simp; omega)
    omega
  rw [ChunkAssembler.opens, waiting.active, Bool.not_false, Bool.and_true]
  exact (SpeechThresholdGate.onset_accept _ _ _).mpr
    ⟨loud, waiting.speaking, reached, waiting.ready⟩

/-- An opened chunk is published by the frame that opens it or by the flush. -/
theorem firstPublished_of_opens (opened : assembler.opens frame nowNs = true) :
    ∃ published, assembler.firstPublished (burst frame nowNs 1) = some published ∧
      published.1.frameCount = UInt32.ofNat (assembler.preRoll.contents.length + 1) := by
  obtain ⟨active, carries⟩ := carries_of_opens opened
  have frameCount := carries.frameCount
  rw [List.length_append, List.length_singleton] at frameCount
  have routed : assembler.prepared (.frame frame nowNs) =
      (assembler.gatedState frame nowNs).append frame := by
    rw [prepared, routeFrame, if_pos active]
  have going : (assembler.prepared (.frame frame nowNs)).active = true := by
    rw [routed, active_append]
    exact active
  have two : burst frame nowNs 1 = [.frame frame nowNs, .flush nowNs] := rfl
  have closing : assembler.call (.frame frame nowNs) =
      (assembler.prepared (.frame frame nowNs)).closeFrame nowNs := rfl
  rw [← routed] at frameCount
  rw [two, firstPublished_cons, firstPublished_cons]
  rcases closeFrame_cases (assembler.prepared (.frame frame nowNs)) nowNs with
    ⟨idle, -⟩ | ⟨-, -, same⟩ | ⟨-, -, -, same⟩ | ⟨-, -, -, same⟩
  · rw [going] at idle
    cases idle
  · rw [published, closing, same]
    exact ⟨_, rfl, frameCount⟩
  · rw [published, closing, same]
    exact ⟨_, rfl, frameCount⟩
  · have flushed : (assembler.prepared (.frame frame nowNs)).call (.flush nowNs) =
        (assembler.prepared (.frame frame nowNs)).closeChunk .streamEnd nowNs := by
      change (assembler.prepared (.frame frame nowNs)).flush nowNs = _
      rw [flush, going]
      rfl
    rw [published, closing, same, Option.map_none, Option.none_or, published, flushed]
    exact ⟨_, rfl, frameCount⟩

/-- A burst of loud frames up to the onset count is published. -/
theorem Waiting.firstPublished_some
    (waiting : assembler.Waiting nowNs run counted cap frames)
    (loud : assembler.gate.cfg.loud (frameEnergy frame) = true) {count : Nat}
    (ripe : counted + (count + 1) = run) :
    ∃ published, assembler.firstPublished (burst frame nowNs (count + 1)) = some published ∧
      published.1.frameCount = UInt32.ofNat (min cap (frames.length + count) + 1) := by
  induction count generalizing assembler counted frames with
  | zero =>
      obtain ⟨published, first, frameCount⟩ := firstPublished_of_opens (waiting.opens ripe loud)
      refine ⟨published, first, frameCount.trans ?_⟩
      rw [waiting.holds.length_contents, waiting.cap]
      rfl
  | succ count ih =>
      obtain ⟨quiet, next, cfg⟩ := waiting.early (by omega) loud
      obtain ⟨published, first, frameCount⟩ := ih next (by rw [cfg]; exact loud) (by omega)
      refine ⟨published, ?_, frameCount.trans ?_⟩
      · rw [burst_succ, firstPublished_cons, quiet, Option.none_or]
        exact first
      · rw [List.length_append, List.length_singleton, Nat.add_right_comm, Nat.add_assoc]

end

end

section

variable {config : ChunkerConfig D} {assembler : ChunkAssembler D} {frame : AudioFrame}

theorem Rested.loud_eq (rested : Rested config assembler) (frame : AudioFrame) :
    assembler.gate.cfg.loud (frameEnergy frame) = config.loudFrame frame := by
  rw [rested.gateCfg]
  rfl

/-- A new assembler waits for the full onset count with an empty pre-roll. -/
theorem waiting_make (config : ChunkerConfig D) (nowNs : UInt64) :
    (make config).Waiting nowNs config.onsetRun 0 config.preRollFrames.toNat [] := by
  refine ⟨rfl, rfl, ?_, SpeechThresholdGate.toNat_speechFrames_make config, rfl,
    OverwriteRing.cap_empty _ _, OverwriteRing.holds_empty _ _⟩
  rw [SpeechThresholdGate.cooling, Bool.and_assoc]
  exact Bool.and_false _

theorem Isolated.not_hushed (isolated : Isolated config assembler)
    (rested : Rested config assembler) (loud : config.loudFrame frame = true) (nowNs : UInt64) :
    ¬ assembler.Hushed nowNs := by
  intro hushed
  obtain ⟨count, run⟩ : ∃ count, config.onsetRun = count + 1 :=
    Nat.exists_eq_add_of_le' (Nat.le_max_left 1 _)
  have silent := hushed.firstPublished (by rw [rested.loud_eq]; exact loud) (count + 1)
  obtain ⟨published, first, -⟩ := (waiting_make config nowNs).firstPublished_some
    (by rw [(rested_make config).loud_eq]; exact loud) (by rw [run, Nat.zero_add])
  have same : assembler.firstPublished (burst frame nowNs (count + 1)) =
      (make config).firstPublished (burst frame nowNs (count + 1)) :=
    congrArg _ (isolated _)
  rw [silent, first] at same
  cases same

/-- An isolated assembler is neutral, if any frame is loud. -/
theorem Isolated.neutral (isolated : Isolated config assembler)
    (rested : Rested config assembler) (loud : config.loudFrame frame = true) :
    assembler.Neutral := by
  have heard : assembler.gate.cfg.loud (frameEnergy frame) = true := by
    rw [rested.loud_eq]
    exact loud
  have heard' : (make config).gate.cfg.loud (frameEnergy frame) = true := by
    rw [(rested_make config).loud_eq]
    exact loud
  have run : assembler.gate.cfg.speechFrames.toNat = config.onsetRun := by
    rw [rested.gateCfg]
    exact SpeechThresholdGate.toNat_speechFrames_make config
  have speaking : assembler.gate.speaking = false := by
    by_contra going
    exact isolated.not_hushed rested loud 0
      ⟨rested.active, .inl (Bool.not_eq_false _ |>.mp going)⟩
  have cooling : ∀ nowNs, assembler.gate.cooling (nsToMs nowNs) = false := by
    intro nowNs
    by_contra held
    exact isolated.not_hushed rested loud nowNs
      ⟨rested.active, .inr (Bool.not_eq_false _ |>.mp held)⟩
  have short : assembler.gate.loudFrames.toNat < config.onsetRun := by
    rcases rested.settled speaking with short | ⟨nowNs, held⟩
    · rw [← run]
      exact UInt32.lt_iff_toNat_lt.mp short
    · rw [cooling] at held
      cases held
  obtain ⟨frames, holds⟩ := rested.holds
  have waiting : assembler.Waiting 0 config.onsetRun assembler.gate.loudFrames.toNat
      config.preRollFrames.toNat frames :=
    ⟨rested.active, speaking, cooling 0, run, rfl, rested.cap, holds⟩
  have waiting' := waiting_make config 0
  have firsts : ∀ count, assembler.firstPublished (burst frame 0 count) =
      (make config).firstPublished (burst frame 0 count) := fun count =>
    congrArg _ (isolated _)
  have uncounted : assembler.gate.loudFrames.toNat = 0 := by
    by_contra counted
    obtain ⟨count, rest⟩ : ∃ count,
        config.onsetRun - assembler.gate.loudFrames.toNat = count + 1 :=
      Nat.exists_eq_add_of_le' (by omega)
    obtain ⟨published, first, -⟩ := waiting.firstPublished_some heard
      (show _ + (count + 1) = _ by omega)
    have none := waiting'.firstPublished_none heard' (show 0 + (count + 1) < _ by omega)
    rw [firsts, none] at first
    cases first
  refine ⟨speaking, UInt32.toNat_inj.mp uncounted, cooling, ?_⟩
  rw [run, rested.cap]
  by_contra leak
  rw [not_or, Nat.not_lt, holds.size_eq, rested.cap] at leak
  obtain ⟨count, onset⟩ : ∃ count, config.onsetRun = count + 1 :=
    Nat.exists_eq_add_of_le' (Nat.le_max_left 1 _)
  obtain ⟨published, first, frameCount⟩ := waiting.firstPublished_some heard
    (show _ + (count + 1) = _ by omega)
  obtain ⟨published', first', frameCount'⟩ := waiting'.firstPublished_some heard'
    (show 0 + (count + 1) = _ by omega)
  rw [firsts, first'] at first
  cases first
  have counts := congrArg UInt32.toNat (frameCount.symm.trans frameCount')
  have bound := UInt32.toNat_lt config.preRollFrames
  rw [UInt32.toNat_ofNat', UInt32.toNat_ofNat', List.length_nil] at counts
  omega

/-- Without loud frames nothing is ever published. -/
theorem Deaf.outputs (deaf : Deaf config) {assembler : ChunkAssembler D}
    (inactive : assembler.active = false)
    (cfg : assembler.gate.cfg = (SpeechThresholdGate.make config.gate).cfg) (calls : List Call) :
    Machine.outputs publish assembler calls = List.replicate calls.length none := by
  induction calls generalizing assembler with
  | nil => rfl
  | cons next rest ih =>
      rw [Machine.outputs_cons, List.length_cons, List.replicate_succ]
      cases next with
      | frame frame nowNs =>
          have quiet : assembler.gate.cfg.loud (frameEnergy frame) = false := by
            rw [cfg]
            exact deaf frame
          have verdict : assembler.gated frame nowNs = (false, assembler.gate.acceptQuiet) :=
            SpeechThresholdGate.accept_of_quiet quiet (nsToMs nowNs)
          have closed : assembler.opens frame nowNs = false := by
            rw [opens, verdict]
            rfl
          obtain ⟨none, inactive', gate, -⟩ := frame_of_not_opens inactive closed
          refine congrArg₂ List.cons none (ih inactive' ?_)
          rw [show (assembler.publish (.frame frame nowNs)).1.gate = _ from gate, verdict]
          exact (SpeechThresholdGate.cfg_acceptQuiet _).trans cfg
      | flush nowNs =>
          have same : assembler.call (.flush nowNs) = (assembler, none) := by
            change assembler.flush nowNs = _
            rw [flush, inactive]
            rfl
          rw [publish, published, same]
          exact congrArg _ (ih inactive cfg)

/-- Between chunks, a used assembler is isolated exactly when it is neutral, or
when no frame can open a chunk at all. -/
theorem Rested.isolated_iff (rested : Rested config assembler) :
    Isolated config assembler ↔ Deaf config ∨ assembler.Neutral := by
  constructor
  · intro isolated
    by_cases deaf : Deaf config
    · exact .inl deaf
    · obtain ⟨frame, loud⟩ := not_forall.mp deaf
      exact .inr (isolated.neutral rested (Bool.not_eq_false _ |>.mp loud))
  · rintro (deaf | neutral)
    · intro calls
      rw [deaf.outputs rested.active rested.gateCfg,
        deaf.outputs (rested_make config).active (rested_make config).gateCfg]
    · exact neutral.isolated rested

end

end

end ChunkAssembler

end VoiceHotPath
