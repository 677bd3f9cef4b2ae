import VoiceHotPath.Vad.BufferRoom

/-!
# The longest chunk

Some quiet frames, and then loud ones up to the cap, make a chunk of the full
pre-roll, the onset frame and every frame up to the cap.
-/

namespace VoiceHotPath

open ChunkAssembler

/-- Quiet frames and then loud ones, one every 20 ms. -/
def speechInput (quiet loud : AudioFrame) (a i : Nat) : AudioFrame × UInt64 :=
  (if i < a then quiet else loud, UInt64.ofNat (20000000 * i))

def speechStream (quiet loud : AudioFrame) (a k : Nat) : Stream :=
  (List.range k).map (speechInput quiet loud a)

theorem speechInput_loud (quiet loud : AudioFrame) {a i : Nat} (late : a ≤ i) :
    speechInput quiet loud a i = (loud, UInt64.ofNat (20000000 * i)) := by
  rw [speechInput, if_neg (Nat.not_lt.mpr late)]

theorem speechStream_succ (quiet loud : AudioFrame) (a k : Nat) :
    speechStream quiet loud a (k + 1) =
      speechStream quiet loud a k ++ [speechInput quiet loud a k] := by
  rw [speechStream, List.range_succ, List.map_append]
  rfl

/-- The stream splits at each of its frames. -/
theorem speechStream_split (quiet loud : AudioFrame) (a : Nat) {i k : Nat} (inside : i < k) :
    ∃ after, speechStream quiet loud a k =
      speechStream quiet loud a i ++ speechInput quiet loud a i :: after := by
  induction inside with
  | refl => exact ⟨[], speechStream_succ quiet loud a i⟩
  | @step m _ ih =>
      obtain ⟨after, split⟩ := ih
      refine ⟨after ++ [speechInput quiet loud a m], ?_⟩
      rw [speechStream_succ, split, List.append_assoc]
      rfl

namespace ChunkAssembler

variable [RationalSqrt]

/-- No chunk yet: the pre-roll has been pushed `k` frames, those from the `a`-th on loud. -/
structure Lulled (opt : ChunkerOptions) (a k : Nat) (assembler : ChunkAssembler ℚ) : Prop where
  cfg : assembler.cfg = opt.chunker
  gateCfg : assembler.gate.cfg = (SpeechThresholdGate.make opt.chunker.gate).cfg
  cap : assembler.preRoll.cap = opt.preRollFrames.toNat
  inactive : assembler.active = false
  silent : assembler.gate.speaking = false
  held : ∃ held, assembler.preRoll.Holds held ∧ (∀ frame ∈ held, frame.IsPcm20Ms) ∧
    held.length = k
  heard : assembler.gate.loudFrames.toNat = k - a

/-- A chunk holds a pre-roll of `n` frames, its onset frame and `e` more. -/
structure Sounding (opt : ChunkerOptions) (n startNs e : Nat) (assembler : ChunkAssembler ℚ) :
    Prop where
  cfg : assembler.cfg = opt.chunker
  gateCfg : assembler.gate.cfg = (SpeechThresholdGate.make opt.chunker.gate).cfg
  active : assembler.active = true
  speaking : assembler.gate.speaking = decide (0 < opt.silenceFrames)
  started : assembler.tSpeechStartNs.toNat = startNs
  carries : ∃ frames, assembler.Carries frames ∧ (∀ frame ∈ frames, frame.IsPcm20Ms) ∧
    frames.length = n + 1 + e
  fits : 960 * (n + 1 + e) ≤ opt.chunker.maxChunkBytes

variable {opt : ChunkerOptions} {a k n startNs e : Nat} {assembler : ChunkAssembler ℚ}
  {frame : AudioFrame} {nowNs : UInt64}

theorem lulled_make (opt : ChunkerOptions) (a : Nat) : Lulled opt a 0 (make opt.chunker) where
  cfg := rfl
  gateCfg := rfl
  cap := OverwriteRing.cap_empty _ _
  inactive := rfl
  silent := rfl
  held := ⟨[], OverwriteRing.holds_empty _ _, (fun _ absent => by cases absent), rfl⟩
  heard := (Nat.zero_sub a).symm

/-- A frame that declares no onset goes to the pre-roll. -/
theorem Lulled.push (lulled : Lulled opt a k assembler) (pcm : frame.IsPcm20Ms)
    (quiet : (assembler.gated frame nowNs).1 = false)
    (silent : (assembler.gated frame nowNs).2.speaking = false)
    (heard : (assembler.gated frame nowNs).2.loudFrames.toNat = k + 1 - a) :
    Lulled opt a (k + 1) (assembler.onFrame frame nowNs).1 := by
  obtain ⟨held, holds, heldPcm, length⟩ := lulled.held
  have opens : assembler.opens frame nowNs = false := by
    rw [ChunkAssembler.opens, quiet, Bool.false_and]
  have inactive : (assembler.gatedState frame nowNs).active = false := by
    rw [active_gatedState, opens, lulled.inactive, Bool.or_false]
  have kept : (assembler.onFrame frame nowNs).1 =
      (assembler.gatedState frame nowNs).routeFrame frame := by
    rw [onFrame_eq, ChunkAssembler.closeFrame, active_routeFrame, inactive]
    rfl
  rw [kept]
  refine ⟨?_, ?_, ?_, ?_, ?_, ⟨held ++ [frame], ?_, pcm_snoc heldPcm pcm, ?_⟩, ?_⟩
  · rw [cfg_routeFrame, cfg_gatedState, lulled.cfg]
  · rw [gate_routeFrame, gate_gatedState, gated, SpeechThresholdGate.cfg_accept, lulled.gateCfg]
  · rw [cap_routeFrame, cap_gatedState, lulled.cap]
  · rw [active_routeFrame, inactive]
  · rw [gate_routeFrame, gate_gatedState, silent]
  · have pushed := holds.push frame
    rw [routeFrame_of_inactive inactive, gatedState_of_not_opens opens, countGap_eq]
    exact pushed
  · rw [List.length_append, length]
    rfl
  · rw [gate_routeFrame, gate_gatedState, heard]

theorem Lulled.onQuiet (lulled : Lulled opt a k assembler) (pcm : frame.IsPcm20Ms)
    (quiet : opt.chunker.loudFrame frame = false) (early : k < a) :
    Lulled opt a (k + 1) (assembler.onFrame frame nowNs).1 := by
  have verdict : assembler.gated frame nowNs = (false, assembler.gate.acceptQuiet) := by
    refine SpeechThresholdGate.accept_of_quiet ?_ _
    rw [lulled.gateCfg]
    exact quiet
  have stays : assembler.gate.acceptQuiet = { assembler.gate with loudFrames := 0 } := by
    refine if_neg ?_
    rw [lulled.silent]
    exact Bool.false_ne_true
  refine lulled.push pcm ?_ ?_ ?_
  · rw [verdict]
  · rw [verdict, stays]
    exact lulled.silent
  · rw [verdict, stays]
    exact (Nat.sub_eq_zero_of_le early).symm

theorem Lulled.hears (lulled : Lulled opt a k assembler)
    (loud : opt.chunker.loudFrame frame = true) :
    assembler.gate.cfg.loud (frameEnergy frame) = true := by
  rw [lulled.gateCfg]
  exact loud

/-- Up to the onset the gate counts the loud frames without a wrap. -/
theorem Lulled.next (lulled : Lulled opt a k assembler) (begun : a ≤ k)
    (within : k + 1 - a ≤ opt.chunker.onsetRun) :
    (assembler.gate.loudFrames + 1).toNat = k + 1 - a := by
  have short := opt.chunker.onsetRun_lt
  have heard := lulled.heard
  have room : assembler.gate.loudFrames.toNat + 1 < 2 ^ 32 := by omega
  rw [WrappingCounter.toNat_succ32 room, heard]
  omega

theorem Lulled.onLoud (lulled : Lulled opt a k assembler) (pcm : frame.IsPcm20Ms)
    (loud : opt.chunker.loudFrame frame = true) (begun : a ≤ k)
    (early : k + 1 - a < opt.chunker.onsetRun) :
    Lulled opt a (k + 1) (assembler.onFrame frame nowNs).1 := by
  have run := SpeechThresholdGate.toNat_speechFrames_make opt.chunker
  have next := lulled.next begun (Nat.le_of_lt early)
  have verdict : assembler.gated frame nowNs = (false, assembler.gate.countLoud) := by
    rw [gated, SpeechThresholdGate.accept_of_loud (lulled.hears loud)]
    rcases SpeechThresholdGate.acceptLoud_cases assembler.gate (nsToMs nowNs) with
      ⟨going, -⟩ | ⟨-, -, same⟩ | ⟨-, late, -⟩ | ⟨-, late, -⟩
    · rw [lulled.silent] at going
      cases going
    · exact same
    all_goals
      rw [lulled.gateCfg, UInt32.le_iff_toNat_le, run, next] at late
      omega
  refine lulled.push pcm ?_ ?_ ?_
  · rw [verdict]
  · rw [verdict]
    exact lulled.silent
  · rw [verdict]
    exact next

/-- The loud frame that completes the run opens a chunk on the pre-roll. -/
theorem Lulled.opens (lulled : Lulled opt a k assembler) (pcm : frame.IsPcm20Ms)
    (loud : opt.chunker.loudFrame frame = true) (begun : a ≤ k)
    (late : k + 1 - a = opt.chunker.onsetRun)
    (skips : assembler.SkipsNothing frame nowNs) :
    Sounding opt (min opt.preRollFrames.toNat k) nowNs.toNat 0
      ((assembler.gatedState frame nowNs).routeFrame frame) := by
  have run := SpeechThresholdGate.toNat_speechFrames_make opt.chunker
  have next := lulled.next begun (Nat.le_of_eq late)
  have here := lulled.hears loud
  have cooldown : assembler.gate.cfg.cooldownMs = 0 := by
    rw [lulled.gateCfg]
    rfl
  have ready : assembler.gate.cooling (nsToMs nowNs) = false := by
    unfold SpeechThresholdGate.cooling
    rw [cooldown]
    simp
  have onset : (assembler.gated frame nowNs).1 = true := by
    refine (SpeechThresholdGate.onset_accept _ _ _).mpr ⟨here, lulled.silent, ?_, ready⟩
    rw [lulled.gateCfg, UInt32.le_iff_toNat_le, run, next, late]
  have speaking : (assembler.gated frame nowNs).2.speaking = decide (0 < opt.silenceFrames) := by
    rw [gated, SpeechThresholdGate.accept_of_loud here] at onset ⊢
    rcases SpeechThresholdGate.acceptLoud_cases assembler.gate (nsToMs nowNs) with
      ⟨-, same⟩ | ⟨-, -, same⟩ | ⟨-, -, -, same⟩ | ⟨-, -, -, same⟩
    · rw [same] at onset
      cases onset
    · rw [same] at onset
      cases onset
    · rw [same] at onset
      cases onset
    · rw [same]
      change decide (0 < assembler.gate.cfg.silenceFrames) = _
      rw [lulled.gateCfg]
      rfl
  have opens : assembler.opens frame nowNs = true := by
    rw [ChunkAssembler.opens, onset, lulled.inactive]
    rfl
  have active : (assembler.gatedState frame nowNs).active = true := by
    rw [active_gatedState, opens, Bool.true_or]
  have cfg : (assembler.gatedState frame nowNs).cfg = opt.chunker := by
    rw [cfg_gatedState, lulled.cfg]
  obtain ⟨held, holds, heldPcm, length⟩ := lulled.held
  have contents : assembler.preRoll.contents.length = min opt.preRollFrames.toNat k := by
    rw [holds.length_contents, lulled.cap, length]
  have contentsPcm : ∀ frame' ∈ assembler.preRoll.contents, frame'.IsPcm20Ms := by
    rw [holds.contents_eq]
    intro frame' member
    exact heldPcm frame' (List.mem_of_mem_drop member)
  have carries := carries_gatedState opens
  -- Skipping nothing, the pre-roll has fitted, and so has the frame.
  have held' : 960 * assembler.preRoll.contents.length ≤ opt.chunker.maxChunkBytes := by
    have all := (appendsAll_preRoll contentsPcm).mp (skips.1 opens)
    rw [lulled.cfg] at all
    exact all
  have whole := (carries.hasRoom_iff contentsPcm (by rw [cfg]; exact held') pcm).mp (skips.2 active)
  rw [cfg, contents] at whole
  refine ⟨?_, ?_, ?_, ?_, ?_, ⟨assembler.preRoll.contents ++ [frame], ?_,
    pcm_snoc contentsPcm pcm, ?_⟩, whole⟩
  · rw [cfg_routeFrame, cfg]
  · rw [gate_routeFrame, gate_gatedState, gated, SpeechThresholdGate.cfg_accept, lulled.gateCfg]
  · rw [active_routeFrame, active]
  · rw [gate_routeFrame, gate_gatedState, speaking]
  · rw [tSpeechStartNs_routeFrame, tSpeechStartNs_gatedState, opens, if_pos rfl]
  · rw [routeFrame_of_active active]
    exact carries.append frame
  · rw [List.length_append, contents]
    rfl

/-- Below the cap a chunk goes on, and holds the next loud frame. -/
theorem Sounding.next (sounding : Sounding opt n startNs e assembler) {now next : UInt64}
    (here : now.toNat = startNs + 20000000 * e) (below : e < opt.capFrames)
    (pcm : frame.IsPcm20Ms) (loud : opt.chunker.loudFrame frame = true)
    (skips : (assembler.closeFrame now).1.SkipsNothing frame next) :
    Sounding opt n startNs (e + 1)
      (((assembler.closeFrame now).1.gatedState frame next).routeFrame frame) := by
  have lasting : opt.silenceFrames ≠ 0 := by
    intro none
    rw [ChunkerOptions.capFrames, if_pos none] at below
    cases below
  have going : assembler.gate.speaking = true := by
    rw [sounding.speaking]
    exact decide_eq_true (UInt32.pos_iff_ne_zero.mpr lasting)
  have since : (now - assembler.tSpeechStartNs).toNat = 20000000 * e := by
    have started := sounding.started
    rw [UInt64.toNat_sub_of_le _ _ (UInt64.le_iff_toNat_le.mpr (by omega))]
    omega
  have stays : (assembler.closeFrame now).1 = assembler := by
    rcases closeFrame_cases assembler now with ⟨inactive, same⟩ | ⟨-, ended, same⟩ |
      ⟨-, -, capped, same⟩ | ⟨-, -, -, same⟩
    · rw [same]
    · rw [going] at ended
      cases ended
    · rw [sounding.cfg, elapsedMs, ChunkerOptions.capped_iff since] at capped
      rw [ChunkerOptions.capFrames, if_neg lasting] at below
      exact absurd capped (Nat.not_le.mpr below)
    · rw [same]
  rw [stays] at skips ⊢
  have opens : assembler.opens frame next = false := by
    rw [ChunkAssembler.opens, sounding.active]
    exact Bool.and_false _
  have active : (assembler.gatedState frame next).active = true := by
    rw [active_gatedState, sounding.active, Bool.or_true]
  have cfg : (assembler.gatedState frame next).cfg = opt.chunker := by
    rw [cfg_gatedState, sounding.cfg]
  have speaking : (assembler.gated frame next).2.speaking = true := by
    have here : assembler.gate.cfg.loud (frameEnergy frame) = true := by
      rw [sounding.gateCfg]
      exact loud
    rw [gated, SpeechThresholdGate.accept_of_loud here]
    rcases SpeechThresholdGate.acceptLoud_cases assembler.gate (nsToMs next) with
      ⟨-, same⟩ | ⟨idle, -⟩ | ⟨idle, -⟩ | ⟨idle, -⟩
    · rw [same]
      exact going
    all_goals
      rw [going] at idle
      cases idle
  obtain ⟨frames, carries, framesPcm, length⟩ := sounding.carries
  have kept := carries.gatedState opens
  have fits := sounding.fits
  have whole := (kept.hasRoom_iff framesPcm (by rw [cfg, length]; exact fits) pcm).mp
    (skips.2 active)
  rw [cfg, length] at whole
  refine ⟨?_, ?_, ?_, ?_, ?_, ⟨frames ++ [frame], ?_, pcm_snoc framesPcm pcm, ?_⟩, whole⟩
  · rw [cfg_routeFrame, cfg]
  · rw [gate_routeFrame, gate_gatedState, gated, SpeechThresholdGate.cfg_accept, sounding.gateCfg]
  · rw [active_routeFrame, active]
  · rw [gate_routeFrame, gate_gatedState, speaking, ← going, sounding.speaking]
  · rw [tSpeechStartNs_routeFrame, tSpeechStartNs_gatedState, opens, if_neg Bool.false_ne_true,
      sounding.started]
  · rw [routeFrame_of_active active]
    exact kept.append frame
  · rw [List.length_append, length]
    rfl

/-- The chunk is published, now or by the flush of the stream. -/
theorem Sounding.published (sounding : Sounding opt n startNs e assembler) (now endNs : UInt64) :
    ∃ event, ((assembler.closeFrame now).2 = some event ∨
        ((assembler.closeFrame now).1.flush endNs).2 = some event) ∧
      event.byteCount = UInt32.ofNat (960 * (n + 1 + e)) ∧
      event.frameCount = UInt32.ofNat (n + 1 + e) := by
  obtain ⟨frames, carries, pcm, length⟩ := sounding.carries
  have fits : 960 * frames.length ≤ assembler.cfg.maxChunkBytes := by
    rw [sounding.cfg, length]
    exact sounding.fits
  rw [← length]
  rcases closeFrame_cases assembler now with ⟨inactive, -⟩ | ⟨-, -, same⟩ | ⟨-, -, -, same⟩ |
    ⟨-, -, -, same⟩
  · rw [sounding.active] at inactive
    cases inactive
  · rw [same]
    exact ⟨_, .inl rfl, carries.counts pcm fits rfl⟩
  · rw [same]
    exact ⟨_, .inl rfl, carries.counts pcm fits rfl⟩
  · rw [same]
    have flushed : assembler.flush endNs = assembler.closeChunk .streamEnd endNs := by
      rw [ChunkAssembler.flush, sounding.active]
      rfl
    rw [flushed]
    exact ⟨_, .inr rfl, carries.counts pcm fits rfl⟩

/-! ## The run -/

/-- The assembler of `hot_loop` after so many frames of speech. -/
def afterSpeech (opt : ChunkerOptions) (quiet loud : AudioFrame) (a k : Nat) : ChunkAssembler ℚ :=
  afterStream opt.chunker (speechStream quiet loud a k)

/-- The assembler when the next frame has been appended. -/
def routedSpeech (opt : ChunkerOptions) (quiet loud : AudioFrame) (a k : Nat) :
    ChunkAssembler ℚ :=
  ((afterSpeech opt quiet loud a k).gatedState (speechInput quiet loud a k).1
    (speechInput quiet loud a k).2).routeFrame (speechInput quiet loud a k).1

theorem afterSpeech_succ (opt : ChunkerOptions) (quiet loud : AudioFrame) (a k : Nat) :
    afterSpeech opt quiet loud a (k + 1) =
      ((afterSpeech opt quiet loud a k).onFrame (speechInput quiet loud a k).1
        (speechInput quiet loud a k).2).1 := by
  rw [afterSpeech, speechStream_succ]
  exact afterStream_snoc _ _ _ _

section

variable {quiet loud : AudioFrame} (loudPcm : loud.IsPcm20Ms)
  (isLoud : opt.chunker.loudFrame loud = true)
  (isQuiet : 0 < a → quiet.IsPcm20Ms ∧ opt.chunker.loudFrame quiet = false)

include loudPcm isLoud isQuiet

/-- Before the onset nothing but the pre-roll moves. -/
theorem lulled_speech (early : k < a + opt.chunker.onsetRun) :
    Lulled opt a k (afterSpeech opt quiet loud a k) := by
  induction k with
  | zero => exact lulled_make opt a
  | succ k ih =>
      have lulled := ih (by omega)
      rw [afterSpeech_succ]
      by_cases lull : k < a
      · obtain ⟨pcm, soft⟩ := isQuiet (Nat.lt_of_le_of_lt (Nat.zero_le _) lull)
        rw [speechInput, if_pos lull]
        exact lulled.onQuiet pcm soft lull
      · rw [speechInput, if_neg lull]
        exact lulled.onLoud loudPcm isLoud (Nat.not_lt.mp lull) (by omega)

/-- From the onset to the cap every frame is appended to the chunk. -/
theorem sounding_speech {onset : Nat} (at_onset : onset + 1 = a + opt.chunker.onsetRun)
    (clock : 20000000 * (onset + e) < 2 ^ 64) (within : e ≤ opt.capFrames)
    (skips : ∀ i ≤ onset + e, (afterSpeech opt quiet loud a i).SkipsNothing
      (speechInput quiet loud a i).1 (speechInput quiet loud a i).2) :
    Sounding opt (min opt.preRollFrames.toNat onset) (20000000 * onset) e
      (routedSpeech opt quiet loud a (onset + e)) := by
  have run : 0 < opt.chunker.onsetRun := by
    unfold ChunkerConfig.onsetRun
    omega
  have late : ∀ e, a ≤ onset + e := fun e => by omega
  have now : ∀ e', e' ≤ e →
      (UInt64.ofNat (20000000 * (onset + e'))).toNat = 20000000 * onset + 20000000 * e' := by
    intro e' before
    rw [UInt64.toNat_ofNat_of_lt' (by change _ < 2 ^ 64; omega), Nat.mul_add]
  induction e with
  | zero =>
      have lulled := lulled_speech loudPcm isLoud isQuiet (k := onset) (by omega)
      have here := skips onset (Nat.le_refl _)
      have begun : a ≤ onset := late 0
      rw [speechInput_loud quiet loud begun] at here
      have opened := lulled.opens loudPcm isLoud begun (by omega) here
      have start := now 0 (Nat.le_refl 0)
      rw [Nat.mul_zero, Nat.add_zero, Nat.add_zero] at start
      rw [start] at opened
      rw [Nat.add_zero, routedSpeech, speechInput_loud quiet loud begun]
      exact opened
  | succ e ih =>
      have sounding := ih (by omega) (Nat.le_of_succ_le within)
        (fun i before => skips i (Nat.le_succ_of_le before))
        (fun e' before => now e' (Nat.le_succ_of_le before))
      have here := skips (onset + (e + 1)) (Nat.le_refl _)
      have grown : afterSpeech opt quiet loud a (onset + (e + 1)) =
          ((routedSpeech opt quiet loud a (onset + e)).closeFrame
            (UInt64.ofNat (20000000 * (onset + e)))).1 := by
        rw [← Nat.add_assoc, afterSpeech_succ, onFrame_eq, routedSpeech,
          speechInput_loud quiet loud (late e)]
      rw [speechInput_loud quiet loud (late (e + 1)), grown] at here
      rw [routedSpeech, speechInput_loud quiet loud (late (e + 1)), grown]
      exact sounding.next (now e (Nat.le_succ e)) within loudPcm isLoud here

end

end ChunkAssembler

end VoiceHotPath
