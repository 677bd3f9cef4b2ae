import Mathlib.Data.Rat.Floor
import VoiceHotPath.Vad.GateHistory

/-!
# Room in the chunk buffer

`hot_loop` sizes the buffer of every session from the cap on the length of a
chunk.  A chunk holds the pre-roll it is opened on, its onset frame, and the
frames up to the cap; the pre-roll is not part of the sizing.
-/

namespace VoiceHotPath

/-- What `parse_args` leaves in `opt.chunker`; it has no option for the cooldown. -/
structure ChunkerOptions where
  rmsThreshold : ℚ := 2 / 100
  peakThreshold : ℚ := 10 / 100
  speechFrames : UInt32 := 2
  silenceFrames : UInt32 := 12
  preRollFrames : UInt32 := 5
  maxChunkMs : ℚ := 15000
  deriving DecidableEq, Repr

/-- The chunker of `hot_loop`, with `max_chunk_bytes` derived from `max_chunk_ms`. -/
def ChunkerOptions.chunker (opt : ChunkerOptions) : ChunkerConfig ℚ where
  gate :=
    { rmsThreshold := some opt.rmsThreshold
      peakThreshold := some opt.peakThreshold
      speechFrames := opt.speechFrames
      silenceFrames := opt.silenceFrames
      cooldownMs := 0 }
  preRollFrames := opt.preRollFrames
  maxChunkMs := opt.maxChunkMs
  maxChunkBytes := ⌊opt.maxChunkMs / 1000 * 24000 * 2 * (11 / 10)⌋₊

theorem ChunkerOptions.maxChunkBytes_eq (opt : ChunkerOptions) :
    opt.chunker.maxChunkBytes = ⌊opt.maxChunkMs * (264 / 5)⌋₊ := by
  have same : opt.maxChunkMs / 1000 * 24000 * 2 * (11 / 10) = opt.maxChunkMs * (264 / 5) := by
    ring
  exact congrArg Nat.floor same

/-- A frame of 20 ms at 24 kHz in 16-bit PCM. -/
def AudioFrame.IsPcm20Ms (frame : AudioFrame) : Prop :=
  frame.hdr.byteLen = 960 ∧ frame.hdr.sampleRate = 24000 ∧
    frame.hdr.format = AudioFormat.pcm16Le.code

instance (frame : AudioFrame) : Decidable frame.IsPcm20Ms :=
  inferInstanceAs (Decidable (_ ∧ _ ∧ _))

theorem AudioFrame.IsPcm20Ms.toNat_byteLen {frame : AudioFrame} (pcm : frame.IsPcm20Ms) :
    frame.hdr.byteLen.toNat = 960 := by
  rw [pcm.1]
  rfl

theorem totalBytes_pcm {frames : List AudioFrame} (pcm : ∀ frame ∈ frames, frame.IsPcm20Ms) :
    totalBytes frames = 960 * frames.length := by
  induction frames with
  | nil => rfl
  | cons frame frames ih =>
      obtain ⟨here, later⟩ := List.forall_mem_cons.mp pcm
      have rest := ih later
      have length := here.toNat_byteLen
      rw [totalBytes] at rest ⊢
      rw [List.map_cons, List.sum_cons, rest, length, List.length_cons]
      omega

theorem pcm_snoc {frames : List AudioFrame} {frame : AudioFrame}
    (pcm : ∀ frame ∈ frames, frame.IsPcm20Ms) (last : frame.IsPcm20Ms) :
    ∀ frame' ∈ frames ++ [frame], frame'.IsPcm20Ms := by
  intro frame' member
  rcases List.mem_append.mp member with before | here
  · exact pcm frame' before
  · rw [List.mem_singleton.mp here]
    exact last

namespace ChunkAssembler

section

variable {D : Type}

/-- The test of `append`: there is room for the frame. -/
def HasRoom (assembler : ChunkAssembler D) (frame : AudioFrame) : Prop :=
  assembler.buffer.length + frame.hdr.byteLen.toNat ≤ assembler.cfg.maxChunkBytes

/-- Appending some frames one after the other skips none. -/
def AppendsAll : ChunkAssembler D → List AudioFrame → Prop
  | _, [] => True
  | assembler, frame :: frames =>
      assembler.HasRoom frame ∧ AppendsAll (assembler.append frame) frames

/-- `on_frame` skips no append: none of the pre-roll it opens a chunk on, and not the frame. -/
def SkipsNothing [Double D] (assembler : ChunkAssembler D) (frame : AudioFrame)
    (nowNs : UInt64) : Prop :=
  (assembler.opens frame nowNs = true →
    AppendsAll (({ assembler.countGap frame.hdr.seq with
      gate := (assembler.gated frame nowNs).2 }).openChunk nowNs) assembler.preRoll.contents) ∧
  ((assembler.gatedState frame nowNs).active = true →
    (assembler.gatedState frame nowNs).HasRoom frame)

variable {assembler : ChunkAssembler D} {frames : List AudioFrame}

theorem routeFrame_of_active {frame : AudioFrame} (active : assembler.active = true) :
    assembler.routeFrame frame = assembler.append frame :=
  if_pos active

theorem routeFrame_of_inactive {frame : AudioFrame} (inactive : assembler.active = false) :
    assembler.routeFrame frame = { assembler with preRoll := assembler.preRoll.push frame } :=
  if_neg (by rw [inactive]; exact Bool.false_ne_true)

/-- The buffer of a chunk whose frames fit. -/
theorem Carries.length_buffer (carries : assembler.Carries frames)
    (pcm : ∀ frame ∈ frames, frame.IsPcm20Ms)
    (fits : 960 * frames.length ≤ assembler.cfg.maxChunkBytes) :
    assembler.buffer.length = 960 * frames.length := by
  have total := totalBytes_pcm pcm
  rw [carries.buffer, (fillBuffer_of_fits (total.trans_le fits)).2, total]

theorem Carries.hasRoom_iff (carries : assembler.Carries frames)
    (pcm : ∀ frame ∈ frames, frame.IsPcm20Ms)
    (fits : 960 * frames.length ≤ assembler.cfg.maxChunkBytes) {frame : AudioFrame}
    (here : frame.IsPcm20Ms) :
    assembler.HasRoom frame ↔ 960 * (frames.length + 1) ≤ assembler.cfg.maxChunkBytes := by
  rw [HasRoom, carries.length_buffer pcm fits, here.toNat_byteLen, Nat.mul_add]

/-- Frames are appended without a skip exactly when there is room for all of them. -/
theorem Carries.appendsAll_iff (carries : assembler.Carries frames)
    (pcm : ∀ frame ∈ frames, frame.IsPcm20Ms)
    (fits : 960 * frames.length ≤ assembler.cfg.maxChunkBytes) {more : List AudioFrame}
    (later : ∀ frame ∈ more, frame.IsPcm20Ms) :
    assembler.AppendsAll more ↔
      960 * (frames.length + more.length) ≤ assembler.cfg.maxChunkBytes := by
  induction more generalizing assembler frames with
  | nil => exact ⟨fun _ => fits, fun _ => trivial⟩
  | cons frame more ih =>
      obtain ⟨here, rest⟩ := List.forall_mem_cons.mp later
      have room := carries.hasRoom_iff pcm fits here
      have next := fun fits' => ih (carries.append frame) (pcm_snoc pcm here) fits' rest
      rw [cfg_append, List.length_append, List.length_singleton] at next
      rw [AppendsAll, room, List.length_cons]
      constructor
      · rintro ⟨one, all⟩
        have whole := (next one).mp all
        omega
      · intro whole
        have one : 960 * (frames.length + 1) ≤ assembler.cfg.maxChunkBytes := by omega
        exact ⟨one, (next one).mpr (by omega)⟩

/-- The counts of an event whose frames fit, in 32 bits as well. -/
theorem Carries.counts (carries : assembler.Carries frames)
    (pcm : ∀ frame ∈ frames, frame.IsPcm20Ms)
    (fits : 960 * frames.length ≤ assembler.cfg.maxChunkBytes) {reason : CloseReason}
    {nowNs : UInt64} {event : ChunkEvent}
    (closed : (assembler.closeChunk reason nowNs).2 = some event) :
    event.byteCount = UInt32.ofNat (960 * frames.length) ∧
      event.frameCount = UInt32.ofNat frames.length := by
  cases closed
  refine ⟨?_, carries.frameCount⟩
  change UInt32.ofNat assembler.buffer.length = _
  rw [carries.length_buffer pcm fits]

variable [Double D] {frame : AudioFrame} {nowNs : UInt64}

/-- A frame that opens a chunk finds it carrying the pre-roll. -/
theorem carries_gatedState (opens : assembler.opens frame nowNs = true) :
    (assembler.gatedState frame nowNs).Carries assembler.preRoll.contents := by
  have carries := carries_openOnPreRoll
    { assembler.countGap frame.hdr.seq with gate := (assembler.gated frame nowNs).2 } nowNs
  rw [gatedState_of_opens opens]
  simpa [countGap_eq] using carries

/-- A chunk that is open carries the same frames when the gate has run. -/
theorem Carries.gatedState (carries : assembler.Carries frames)
    (opens : assembler.opens frame nowNs = false) :
    (assembler.gatedState frame nowNs).Carries frames := by
  obtain ⟨count, first, firstSeq, lastSeq, firstNs, format, buffer⟩ := carries
  rw [gatedState_of_not_opens opens, countGap_eq]
  exact ⟨count, first, firstSeq, lastSeq, firstNs, format, buffer⟩

/-- The pre-roll is appended without a skip exactly when there is room for it. -/
theorem appendsAll_preRoll (pcm : ∀ frame ∈ assembler.preRoll.contents, frame.IsPcm20Ms) :
    AppendsAll (({ assembler.countGap frame.hdr.seq with
        gate := (assembler.gated frame nowNs).2 }).openChunk nowNs) assembler.preRoll.contents ↔
      960 * assembler.preRoll.contents.length ≤ assembler.cfg.maxChunkBytes := by
  have all := (carries_openChunk { assembler.countGap frame.hdr.seq with
    gate := (assembler.gated frame nowNs).2 } nowNs).appendsAll_iff
      (fun _ absent => by cases absent) (Nat.zero_le _) pcm
  rw [List.length_nil, Nat.zero_add] at all
  have cfg : (assembler.countGap frame.hdr.seq).cfg = assembler.cfg := by
    rw [countGap_eq]
  rw [← cfg]
  exact all

end

end ChunkAssembler

namespace ChunkerOptions

open ChunkAssembler

variable [RationalSqrt]

/-- How many frames after the onset frame a chunk can hold. -/
def capFrames (opt : ChunkerOptions) : Nat :=
  if opt.silenceFrames = 0 then 0 else ⌈opt.maxChunkMs / 20⌉₊

/-- Some frame is loud. -/
def HearsLoud (opt : ChunkerOptions) : Prop :=
  ∃ frame : AudioFrame, frame.IsPcm20Ms ∧ opt.chunker.loudFrame frame = true

/-- Some frame is quiet. -/
def HearsQuiet (opt : ChunkerOptions) : Prop :=
  ∃ frame : AudioFrame, frame.IsPcm20Ms ∧ opt.chunker.loudFrame frame = false

/--
A chunk can open on a pre-roll of up to so many frames.  If every frame is loud,
the onset comes at the `speech_frames`-th, and the pre-roll holds those before.
-/
def OpensOn (opt : ChunkerOptions) (n : Nat) : Prop :=
  n ≤ opt.preRollFrames.toNat ∧ (n < opt.chunker.onsetRun ∨ opt.HearsQuiet)

/-- The buffer, and a count of bytes in 32 bits, have room for the pre-roll as well. -/
def Affordable (opt : ChunkerOptions) : Prop :=
  opt.HearsLoud → ∀ n, opt.OpensOn n →
    960 * (n + 1 + opt.capFrames) ≤ ⌊opt.maxChunkMs * (264 / 5)⌋₊ ∧
      960 * (n + 1 + opt.capFrames) < 2 ^ 32

variable {opt : ChunkerOptions}

theorem Affordable.room (affordable : opt.Affordable) (loud : opt.HearsLoud) {n : Nat}
    (opens : opt.OpensOn n) :
    960 * (n + 1 + opt.capFrames) ≤ opt.chunker.maxChunkBytes ∧
      960 * (n + 1 + opt.capFrames) < 2 ^ 32 := by
  rw [maxChunkBytes_eq]
  exact affordable loud n opens

theorem OpensOn.of_le {m n : Nat} (opens : opt.OpensOn n) (le : m ≤ n) : opt.OpensOn m :=
  ⟨Nat.le_trans le opens.1, opens.2.imp_left (Nat.lt_of_le_of_lt le)⟩

omit [RationalSqrt] in
/-- Short of its last frame, the cap is paid for by the sizing. -/
theorem le_maxChunkBytes (opt : ChunkerOptions) :
    1056 * (opt.capFrames - 1) ≤ opt.chunker.maxChunkBytes := by
  rw [maxChunkBytes_eq]
  unfold capFrames
  split
  · exact Nat.zero_le _
  · cases cap : ⌈opt.maxChunkMs / 20⌉₊ with
    | zero => exact Nat.zero_le _
    | succ k =>
        have below : k < ⌈opt.maxChunkMs / 20⌉₊ := by omega
        have ms := Nat.lt_ceil.mp below
        apply Nat.le_floor
        push_cast
        linarith

/-- The cap is reached after so many frames. -/
theorem capped_iff {ns : UInt64} {k : Nat} (elapsed : ns.toNat = 20000000 * k) :
    opt.chunker.maxChunkMs ≤ nsToMs ns ↔ ⌈opt.maxChunkMs / 20⌉₊ ≤ k := by
  have ms : (nsToMs ns : ℚ) = 20 * k := by
    change (((ns.toNat : Int) : ℚ) / ((1000000 : Int) : ℚ)) = _
    rw [elapsed]
    push_cast
    ring
  rw [ms, Nat.ceil_le, div_le_iff₀ (by norm_num), mul_comm]
  exact Iff.rfl

end ChunkerOptions

namespace SpeechThresholdGate

variable {opt : ChunkerOptions} {gate : SpeechThresholdGate ℚ}

/-- Not speaking yet, the gate has heard so many loud frames and waits for more. -/
def Waits (opt : ChunkerOptions) (gate : SpeechThresholdGate ℚ) (k : Nat) : Prop :=
  gate.speaking = false → k ≤ gate.loudFrames.toNat ∧ gate.loudFrames.toNat < opt.chunker.onsetRun

variable [RationalSqrt]

/-- Step lemma: what a loud frame does to a gate that waits. -/
theorem Waits.accept {k : Nat} (waits : gate.Waits opt k)
    (cfg : gate.cfg = (SpeechThresholdGate.make opt.chunker.gate).cfg) {energy : AudioEnergy ℚ}
    (loud : gate.cfg.loud energy = true) (nowMs : ℚ) :
    ((gate.accept energy nowMs).1 = true → k < opt.chunker.onsetRun ∧
        (gate.accept energy nowMs).2.Waits opt 0) ∧
      ((gate.accept energy nowMs).1 = false → (gate.accept energy nowMs).2.Waits opt (k + 1)) := by
  have run := toNat_speechFrames_make opt.chunker
  have short := opt.chunker.onsetRun_lt
  rw [← cfg] at run
  rw [accept_of_loud loud]
  rcases acceptLoud_cases gate nowMs with
    ⟨going, same⟩ | ⟨idle, early, same⟩ | ⟨idle, late, held, same⟩ | ⟨idle, late, ready, same⟩
  · rw [same]
    refine ⟨(fun absent => by cases absent), fun _ stopped => ?_⟩
    rw [speaking_countLoud, going] at stopped
    cases stopped
  · rw [same]
    obtain ⟨heard, few⟩ := waits idle
    refine ⟨(fun absent => by cases absent), fun _ _ => ?_⟩
    have next : (gate.loudFrames + 1).toNat = gate.loudFrames.toNat + 1 :=
      WrappingCounter.toNat_succ32 (by omega)
    have below := UInt32.lt_iff_toNat_lt.mp early
    rw [loudFrames_countLoud, next] at *
    omega
  · -- The options leave the cooldown at zero.
    have none : gate.cfg.cooldownMs = 0 := by
      rw [cfg]
      rfl
    unfold cooling at held
    rw [none] at held
    simp at held
  · rw [same]
    obtain ⟨heard, few⟩ := waits idle
    refine ⟨fun _ => ⟨Nat.lt_of_le_of_lt heard few, fun stopped => ?_⟩,
      fun absent => by cases absent⟩
    have brief : ¬ 0 < gate.cfg.silenceFrames := of_decide_eq_false stopped
    have zero : (gate.countLoud.trigger nowMs).loudFrames = 0 := if_neg brief
    rw [zero]
    exact ⟨Nat.le_refl 0, Nat.lt_of_le_of_lt (Nat.zero_le _) few⟩

/-- Without a hangover the gate never speaks on. -/
theorem brief_accept (brief : gate.cfg.silenceFrames = 0) (stopped : gate.speaking = false)
    (energy : AudioEnergy ℚ) (nowMs : ℚ) : (gate.accept energy nowMs).2.speaking = false := by
  cases loud : gate.cfg.loud energy with
  | false =>
      rw [accept_of_quiet loud]
      simp [acceptQuiet, stopped]
  | true =>
      rw [accept_of_loud loud]
      rcases acceptLoud_cases gate nowMs with ⟨going, same⟩ | ⟨-, -, same⟩ | ⟨-, -, -, same⟩ |
        ⟨-, -, -, same⟩
      · rw [stopped] at going
        cases going
      · rw [same]
        exact stopped
      · rw [same]
        exact stopped
      · rw [same]
        simp [trigger, brief]

end SpeechThresholdGate

namespace ChunkAssembler

variable [RationalSqrt]

/--
The open chunk holds no more than a pre-roll, its onset frame and the `e` frames
since; the last frame was received `e` frames after the onset.
-/
structure Recording (opt : ChunkerOptions) (assembler : ChunkAssembler ℚ) (nowNs : UInt64)
    (e : Nat) (frames : List AudioFrame) : Prop where
  loud : opt.HearsLoud
  carries : assembler.Carries frames
  pcm : ∀ frame ∈ frames, frame.IsPcm20Ms
  opened : ∃ n, opt.OpensOn n ∧ frames.length ≤ n + 1 + e
  elapsed : nowNs.toNat = assembler.tSpeechStartNs.toNat + 20000000 * e
  emptied : assembler.preRoll.Holds []

/--
What holds of an assembler fed frames of 20 ms, the last of them at `lastNs`,
while an open chunk stays below `limit` frames after its onset frame.
-/
structure Spacious (opt : ChunkerOptions) (limit : Nat) (lastNs : Option UInt64)
    (assembler : ChunkAssembler ℚ) : Prop where
  cfg : assembler.cfg = opt.chunker
  gateCfg : assembler.gate.cfg = (SpeechThresholdGate.make opt.chunker.gate).cfg
  cap : assembler.preRoll.cap = opt.preRollFrames.toNat
  brief : opt.silenceFrames = 0 → assembler.gate.speaking = false
  waiting : ∃ held, assembler.preRoll.Holds held ∧ (∀ frame ∈ held, frame.IsPcm20Ms) ∧
    (¬ opt.HearsQuiet → assembler.gate.Waits opt held.length)
  recording : assembler.active = true → ∃ last e frames, lastNs = some last ∧
    assembler.Recording opt last e frames ∧ e < limit

variable {limit : Nat} {opt : ChunkerOptions} {assembler : ChunkAssembler ℚ}
  {lastNs : Option UInt64}

theorem Recording.fits {nowNs : UInt64} {e : Nat} {frames : List AudioFrame}
    (recording : assembler.Recording opt nowNs e frames) (affordable : opt.Affordable)
    (capped : e ≤ opt.capFrames) :
    960 * frames.length ≤ opt.chunker.maxChunkBytes ∧ 960 * frames.length < 2 ^ 32 := by
  obtain ⟨n, opens, few⟩ := recording.opened
  obtain ⟨room, width⟩ := affordable.room recording.loud opens
  omega

/-- The time since the onset, as `elapsed_ms` reads it. -/
theorem Recording.since {nowNs : UInt64} {e : Nat} {frames : List AudioFrame}
    (recording : assembler.Recording opt nowNs e frames) :
    (nowNs - assembler.tSpeechStartNs).toNat = 20000000 * e := by
  have elapsed := recording.elapsed
  rw [UInt64.toNat_sub_of_le _ _ (UInt64.le_iff_toNat_le.mpr (by omega))]
  omega

/-- A gate that speaks on has a hangover, and the cap is that of the length. -/
theorem Spacious.capFrames_of_going (spacious : Spacious opt limit lastNs assembler)
    (going : assembler.gate.speaking = true) : opt.capFrames = ⌈opt.maxChunkMs / 20⌉₊ := by
  refine if_neg fun none => ?_
  rw [spacious.brief none] at going
  cases going

/-- The event of a chunk that fits counts its bytes. -/
theorem Recording.counted {nowNs endNs : UInt64} {e : Nat} {frames : List AudioFrame}
    (recording : assembler.Recording opt nowNs e frames) (affordable : opt.Affordable)
    (capped : e ≤ opt.capFrames) (cfg : assembler.cfg = opt.chunker) {reason : CloseReason}
    {event : ChunkEvent} (closed : (assembler.closeChunk reason endNs).2 = some event) :
    event.byteCount.toNat = 960 * event.frameCount.toNat := by
  obtain ⟨room, width⟩ := recording.fits affordable capped
  obtain ⟨bytes, count⟩ := recording.carries.counts recording.pcm (cfg ▸ room) closed
  have narrow : frames.length < 2 ^ 32 := by omega
  rw [bytes, count, UInt32.toNat_ofNat_of_lt' width, UInt32.toNat_ofNat_of_lt' narrow]

theorem spacious_make (opt : ChunkerOptions) (limit : Nat) :
    Spacious opt limit none (make opt.chunker) where
  cfg := rfl
  gateCfg := rfl
  cap := OverwriteRing.cap_empty _ _
  brief := fun _ => rfl
  waiting := by
    refine ⟨[], OverwriteRing.holds_empty _ _, (fun _ absent => by cases absent), fun _ _ => ?_⟩
    have run : 0 < opt.chunker.onsetRun := by
      unfold ChunkerConfig.onsetRun
      omega
    exact ⟨Nat.le_refl 0, run⟩
  recording := fun absent => by cases absent

/-- Without an open chunk the time of the last frame does not matter. -/
theorem Spacious.idle (spacious : Spacious opt limit lastNs assembler)
    (inactive : assembler.active = false) (limit' : Nat) (lastNs' : Option UInt64) :
    Spacious opt limit' lastNs' assembler :=
  { spacious with
    recording := fun active => by
      rw [inactive] at active
      cases active }

theorem Spacious.flush (spacious : Spacious opt opt.capFrames lastNs assembler)
    (affordable : opt.Affordable) (nowNs : UInt64) :
    (∀ event, (assembler.flush nowNs).2 = some event →
        event.byteCount.toNat = 960 * event.frameCount.toNat) ∧
      (∀ lastNs', Spacious opt opt.capFrames lastNs' (assembler.flush nowNs).1) ∧
      (assembler.flush nowNs).1.active = false := by
  unfold ChunkAssembler.flush
  cases active : assembler.active with
  | false => exact ⟨(fun _ absent => by cases absent), spacious.idle active _, active⟩
  | true =>
      obtain ⟨last, e, frames, -, recording, capped⟩ := spacious.recording active
      refine ⟨fun event closed => ?_, fun lastNs' => ?_, rfl⟩
      · exact recording.counted affordable (Nat.le_of_lt capped) spacious.cfg closed
      · exact { spacious with recording := fun absent => by cases absent }

/-- What a frame does to the frames a gate waits for. -/
theorem Spacious.waits (spacious : Spacious opt limit lastNs assembler) {frame : AudioFrame}
    (pcm : frame.IsPcm20Ms) (nowNs : UInt64) {k : Nat}
    (waits : ¬ opt.HearsQuiet → assembler.gate.Waits opt k) (noQuiet : ¬ opt.HearsQuiet) :
    ((assembler.gated frame nowNs).1 = true → k < opt.chunker.onsetRun ∧
        (assembler.gated frame nowNs).2.Waits opt 0) ∧
      ((assembler.gated frame nowNs).1 = false →
        (assembler.gated frame nowNs).2.Waits opt (k + 1)) := by
  have loud : assembler.gate.cfg.loud (frameEnergy frame) = true := by
    cases loud : assembler.gate.cfg.loud (frameEnergy frame) with
    | true => rfl
    | false =>
        rw [spacious.gateCfg] at loud
        exact absurd ⟨frame, pcm, loud⟩ noQuiet
  exact (waits noQuiet).accept spacious.gateCfg loud _

/-- A frame that opens a chunk: the chunk holds the pre-roll and the frame. -/
theorem Spacious.openOn (spacious : Spacious opt limit lastNs assembler) {frame : AudioFrame}
    (pcm : frame.IsPcm20Ms) {nowNs : UInt64} (opens : assembler.opens frame nowNs = true) :
    opt.HearsLoud ∧ opt.OpensOn assembler.preRoll.contents.length ∧
      (∀ frame' ∈ assembler.preRoll.contents, frame'.IsPcm20Ms) ∧
      (assembler.gatedState frame nowNs).Carries assembler.preRoll.contents ∧
      (assembler.gatedState frame nowNs).active = true ∧
      (assembler.gatedState frame nowNs).tSpeechStartNs = nowNs ∧
      (assembler.gatedState frame nowNs).preRoll.Holds [] ∧
      (¬ opt.HearsQuiet → (assembler.gated frame nowNs).2.Waits opt 0) := by
  obtain ⟨held, holds, heldPcm, waits⟩ := spacious.waiting
  have waits := spacious.waits pcm nowNs waits
  have onset : (assembler.gated frame nowNs).1 = true := (Bool.and_eq_true_iff.mp opens).1
  have loud := ((SpeechThresholdGate.onset_accept _ _ _).mp onset).1
  rw [spacious.gateCfg] at loud
  refine ⟨⟨frame, pcm, loud⟩, ⟨?_, ?_⟩, ?_, ?_, ?_, ?_, ?_, fun none => ((waits none).1 onset).2⟩
  · rw [holds.length_contents, spacious.cap]
    exact Nat.min_le_left _ _
  · by_cases quiet : opt.HearsQuiet
    · exact .inr quiet
    · have few := ((waits quiet).1 onset).1
      rw [holds.length_contents]
      exact .inl (Nat.lt_of_le_of_lt (Nat.min_le_right _ _) few)
  · rw [holds.contents_eq]
    intro frame' member
    exact heldPcm frame' (List.mem_of_mem_drop member)
  · exact carries_gatedState opens
  · rw [active_gatedState, opens, Bool.true_or]
  · rw [tSpeechStartNs_gatedState, opens, if_pos rfl]
  · rw [gatedState_of_opens opens, preRoll_openOnPreRoll]
    exact OverwriteRing.holds_clear _

/-- The configuration is not touched, and without a hangover the gate stays silent. -/
theorem Spacious.routed_keeps (spacious : Spacious opt limit lastNs assembler)
    (frame : AudioFrame) (nowNs : UInt64) :
    (assembler.gatedState frame nowNs).cfg = opt.chunker ∧
      ((assembler.gatedState frame nowNs).routeFrame frame).gate.cfg =
        (SpeechThresholdGate.make opt.chunker.gate).cfg ∧
      ((assembler.gatedState frame nowNs).routeFrame frame).preRoll.cap =
        opt.preRollFrames.toNat ∧
      (opt.silenceFrames = 0 →
        ((assembler.gatedState frame nowNs).routeFrame frame).gate.speaking = false) := by
  refine ⟨?_, ?_, ?_, ?_⟩
  · rw [cfg_gatedState, spacious.cfg]
  · rw [gate_routeFrame, gate_gatedState, gated, SpeechThresholdGate.cfg_accept, spacious.gateCfg]
  · rw [cap_routeFrame, cap_gatedState, spacious.cap]
  · intro none
    rw [gate_routeFrame, gate_gatedState]
    refine SpeechThresholdGate.brief_accept ?_ (spacious.brief none) _ _
    rw [spacious.gateCfg]
    exact none

/-- The gate and the routing of a frame that opens a chunk. -/
theorem Spacious.route_opening (spacious : Spacious opt limit lastNs assembler)
    (affordable : opt.Affordable) {frame : AudioFrame} (pcm : frame.IsPcm20Ms) {nowNs : UInt64}
    (opens : assembler.opens frame nowNs = true) :
    assembler.SkipsNothing frame nowNs ∧
      Spacious opt (opt.capFrames + 1) (some nowNs)
        ((assembler.gatedState frame nowNs).routeFrame frame) := by
  obtain ⟨cfg, gateCfg, cap, brief⟩ := spacious.routed_keeps frame nowNs
  obtain ⟨loud, opensOn, contents, carries, active, started, emptied, waits⟩ :=
    spacious.openOn pcm opens
  obtain ⟨room, -⟩ := affordable.room loud opensOn
  have fits : 960 * assembler.preRoll.contents.length ≤ opt.chunker.maxChunkBytes := by omega
  refine ⟨⟨fun _ => ?_, fun _ => ?_⟩, ?_⟩
  · rw [appendsAll_preRoll contents, spacious.cfg]
    exact fits
  · refine (carries.hasRoom_iff contents (by rw [cfg]; exact fits) pcm).mpr ?_
    rw [cfg]
    omega
  · refine ⟨(cfg_routeFrame _ _).trans cfg, gateCfg, cap, brief, ⟨[], ?_, ?_, ?_⟩, fun _ => ?_⟩
    · rw [routeFrame_of_active active, preRoll_append]
      exact emptied
    · exact fun _ absent => by cases absent
    · rw [gate_routeFrame, gate_gatedState]
      exact waits
    · refine ⟨nowNs, 0, assembler.preRoll.contents ++ [frame], rfl, ?_, Nat.succ_pos _⟩
      rw [routeFrame_of_active active]
      refine ⟨loud, carries.append frame, pcm_snoc contents pcm, ⟨_, opensOn, ?_⟩, ?_, ?_⟩
      · rw [List.length_append]
        exact Nat.le_refl _
      · rw [tSpeechStartNs_append, started]
        rfl
      · rw [preRoll_append]
        exact emptied

/-- The gate and the routing of a frame while a chunk is open. -/
theorem Spacious.route_recording (spacious : Spacious opt opt.capFrames lastNs assembler)
    (affordable : opt.Affordable) {frame : AudioFrame} (pcm : frame.IsPcm20Ms) {nowNs : UInt64}
    (cadence : ∀ last, lastNs = some last → nowNs.toNat = last.toNat + 20000000)
    (active : assembler.active = true) :
    assembler.SkipsNothing frame nowNs ∧
      Spacious opt (opt.capFrames + 1) (some nowNs)
        ((assembler.gatedState frame nowNs).routeFrame frame) := by
  obtain ⟨cfg, gateCfg, cap, brief⟩ := spacious.routed_keeps frame nowNs
  have opens : assembler.opens frame nowNs = false := by
    rw [ChunkAssembler.opens, active]
    exact Bool.and_false _
  have same : (assembler.gatedState frame nowNs).active = true := by
    rw [active_gatedState, active, Bool.or_true]
  have preRoll : (assembler.gatedState frame nowNs).preRoll = assembler.preRoll := by
    rw [gatedState_of_not_opens opens, countGap_eq]
  obtain ⟨held, -, -, waits⟩ := spacious.waiting
  have waits := spacious.waits pcm nowNs (k := 0) fun none stopped =>
    ⟨Nat.zero_le _, (waits none stopped).2⟩
  obtain ⟨last, e, frames, known, recording, capped⟩ := spacious.recording active
  have carries := recording.carries.gatedState opens
  obtain ⟨n, opensOn, few⟩ := recording.opened
  obtain ⟨room, -⟩ := affordable.room recording.loud opensOn
  have fits : 960 * frames.length ≤ opt.chunker.maxChunkBytes := by omega
  refine ⟨⟨fun absent => ?_, fun _ => ?_⟩, ?_⟩
  · rw [opens] at absent
    cases absent
  · refine (carries.hasRoom_iff recording.pcm (by rw [cfg]; exact fits) pcm).mpr ?_
    rw [cfg]
    omega
  · refine ⟨(cfg_routeFrame _ _).trans cfg, gateCfg, cap, brief, ⟨[], ?_, ?_, ?_⟩, fun _ => ?_⟩
    · rw [routeFrame_of_active same, preRoll_append, preRoll]
      exact recording.emptied
    · exact fun _ absent => by cases absent
    · rw [gate_routeFrame, gate_gatedState]
      intro none stopped
      cases onset : (assembler.gated frame nowNs).1 with
      | true => exact ((waits none).1 onset).2 stopped
      | false => exact ⟨Nat.zero_le _, ((waits none).2 onset stopped).2⟩
    · refine ⟨nowNs, e + 1, frames ++ [frame], rfl, ?_, Nat.succ_lt_succ capped⟩
      rw [routeFrame_of_active same]
      refine ⟨recording.loud, carries.append frame, pcm_snoc recording.pcm pcm, ⟨n, opensOn, ?_⟩,
        ?_, ?_⟩
      · rw [List.length_append, List.length_singleton]
        omega
      · rw [tSpeechStartNs_append, tSpeechStartNs_gatedState, opens, if_neg Bool.false_ne_true,
          cadence last known, recording.elapsed]
        omega
      · rw [preRoll_append, preRoll]
        exact recording.emptied

/-- The gate and the routing of a frame into the pre-roll. -/
theorem Spacious.route_waiting (spacious : Spacious opt limit lastNs assembler)
    {frame : AudioFrame} (pcm : frame.IsPcm20Ms) {nowNs : UInt64}
    (opens : assembler.opens frame nowNs = false) (inactive : assembler.active = false)
    (limit' : Nat) :
    assembler.SkipsNothing frame nowNs ∧
      Spacious opt limit' (some nowNs) ((assembler.gatedState frame nowNs).routeFrame frame) := by
  obtain ⟨cfg, gateCfg, cap, brief⟩ := spacious.routed_keeps frame nowNs
  have same : (assembler.gatedState frame nowNs).active = false := by
    rw [active_gatedState, opens, inactive, Bool.or_false]
  have quiet : (assembler.gated frame nowNs).1 = false := by
    rw [ChunkAssembler.opens, inactive, Bool.not_false, Bool.and_true] at opens
    exact opens
  obtain ⟨held, holds, heldPcm, waits⟩ := spacious.waiting
  have waits := spacious.waits pcm nowNs waits
  refine ⟨⟨fun absent => ?_, fun absent => ?_⟩, ?_⟩
  · rw [opens] at absent
    cases absent
  · rw [same] at absent
    cases absent
  · refine ⟨(cfg_routeFrame _ _).trans cfg, gateCfg, cap, brief, ⟨held ++ [frame], ?_, ?_, ?_⟩,
      fun absent => ?_⟩
    · have pushed := holds.push frame
      rw [routeFrame_of_inactive same, gatedState_of_not_opens opens, countGap_eq]
      exact pushed
    · exact pcm_snoc heldPcm pcm
    · intro none
      rw [gate_routeFrame, gate_gatedState, List.length_append]
      exact (waits none).2 quiet
    · rw [active_routeFrame, same] at absent
      cases absent

/-- The gate and the routing of a frame skip nothing, and leave no more than the cap allows. -/
theorem Spacious.route (spacious : Spacious opt opt.capFrames lastNs assembler)
    (affordable : opt.Affordable) {frame : AudioFrame} (pcm : frame.IsPcm20Ms) {nowNs : UInt64}
    (cadence : ∀ last, lastNs = some last → nowNs.toNat = last.toNat + 20000000) :
    assembler.SkipsNothing frame nowNs ∧
      Spacious opt (opt.capFrames + 1) (some nowNs)
        ((assembler.gatedState frame nowNs).routeFrame frame) := by
  cases opens : assembler.opens frame nowNs with
  | true => exact spacious.route_opening affordable pcm opens
  | false =>
      cases active : assembler.active with
      | true => exact spacious.route_recording affordable pcm cadence active
      | false => exact spacious.route_waiting pcm opens active _

/-- The closing tests end a chunk at the cap, and count its bytes. -/
theorem Spacious.closeFrame {nowNs : UInt64} (positive : 0 < opt.maxChunkMs)
    (spacious : Spacious opt (opt.capFrames + 1) (some nowNs) assembler)
    (affordable : opt.Affordable) :
    Spacious opt opt.capFrames (some nowNs) (assembler.closeFrame nowNs).1 ∧
      ∀ event, (assembler.closeFrame nowNs).2 = some event →
        event.byteCount.toNat = 960 * event.frameCount.toNat := by
  rcases closeFrame_cases assembler nowNs with ⟨inactive, same⟩ | ⟨active, ended, same⟩ |
    ⟨active, going, capped, same⟩ | ⟨active, going, brief, same⟩
  · rw [same]
    exact ⟨spacious.idle inactive _ _, fun _ absent => by cases absent⟩
  · obtain ⟨last, e, frames, known, recording, within⟩ := spacious.recording active
    rw [same]
    refine ⟨{ spacious with recording := fun absent => by cases absent }, fun event closed => ?_⟩
    exact recording.counted affordable (Nat.le_of_lt_succ within) spacious.cfg closed
  · obtain ⟨last, e, frames, known, recording, within⟩ := spacious.recording active
    obtain ⟨n, opensOn, -⟩ := recording.opened
    have room : 0 < opt.capFrames := by
      rw [spacious.capFrames_of_going going]
      exact Nat.ceil_pos.mpr (div_pos positive (by norm_num))
    rw [same]
    refine ⟨{ spacious with recording := fun _ => ?_ }, fun event closed => ?_⟩
    · refine ⟨nowNs, 0, [], rfl, ?_, room⟩
      exact ⟨recording.loud, carries_openChunk _ nowNs, (fun _ absent => by cases absent),
        ⟨n, opensOn, Nat.zero_le _⟩, rfl, recording.emptied⟩
    · exact recording.counted affordable (Nat.le_of_lt_succ within) spacious.cfg closed
  · obtain ⟨last, e, frames, known, recording, -⟩ := spacious.recording active
    cases known
    have within : e < opt.capFrames := by
      rw [spacious.capFrames_of_going going]
      rw [spacious.cfg, elapsedMs, ChunkerOptions.capped_iff recording.since] at brief
      exact Nat.not_le.mp brief
    rw [same]
    exact ⟨{ spacious with recording := fun _ => ⟨nowNs, e, frames, rfl, recording, within⟩ },
      fun _ absent => by cases absent⟩

/-- Step lemma: `on_frame` skips nothing, and its events count their bytes. -/
theorem Spacious.onFrame (spacious : Spacious opt opt.capFrames lastNs assembler)
    (positive : 0 < opt.maxChunkMs) (affordable : opt.Affordable) {frame : AudioFrame}
    (pcm : frame.IsPcm20Ms) {nowNs : UInt64}
    (cadence : ∀ last, lastNs = some last → nowNs.toNat = last.toNat + 20000000) :
    assembler.SkipsNothing frame nowNs ∧
      Spacious opt opt.capFrames (some nowNs) (assembler.onFrame frame nowNs).1 ∧
      ∀ event, (assembler.onFrame frame nowNs).2 = some event →
        event.byteCount.toNat = 960 * event.frameCount.toNat := by
  obtain ⟨skips, routed⟩ := spacious.route affordable pcm cadence
  exact ⟨skips, routed.closeFrame positive affordable⟩

end ChunkAssembler

end VoiceHotPath
