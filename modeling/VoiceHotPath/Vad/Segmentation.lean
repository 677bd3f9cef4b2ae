import VoiceHotPath.Lib.Segments
import VoiceHotPath.Vad.GateHistory

/-!
# The declarative segmentation

Speech and its chunks over the history of received frames: speech begins at the
first frame that ends a long enough loud run and is rested from the previous
onset, and ends at the first frame that completes a long enough silence.  The
counters, the mode bit and the clocks of the code compute exactly this.
-/

namespace VoiceHotPath

namespace Stream

/-- The time of a frame in nanoseconds. -/
def timeNs (stream : Stream) (i : Nat) : Nat :=
  (stream[i]?.map fun input => input.2.toNat).getD 0

/-- The time of a frame in milliseconds, exactly. -/
def timeMs (stream : Stream) (i : Nat) : ℚ :=
  stream.timeNs i / 1000000

/-- Frames are dequeued at nondecreasing times. -/
def Nondecreasing (stream : Stream) : Prop :=
  stream.Pairwise fun earlier later => earlier.2 ≤ later.2

instance (stream : Stream) : Decidable stream.Nondecreasing :=
  inferInstanceAs (Decidable (List.Pairwise _ _))

theorem exists_getElem? {stream : Stream} {i : Nat} (inside : i < stream.length) :
    ∃ frame nowNs, stream[i]? = some (frame, nowNs) :=
  ⟨stream[i].1, stream[i].2, List.getElem?_eq_getElem inside⟩

theorem timeNs_of_getElem? {stream : Stream} {i : Nat} {frame : AudioFrame} {nowNs : UInt64}
    (here : stream[i]? = some (frame, nowNs)) : stream.timeNs i = nowNs.toNat := by
  simp [timeNs, here]

theorem frames_getElem? {stream : Stream} {i : Nat} {frame : AudioFrame} {nowNs : UInt64}
    (here : stream[i]? = some (frame, nowNs)) : stream.frames[i]? = some frame := by
  simp [frames, here]

theorem frames_take (stream : Stream) (n : Nat) :
    Stream.frames (stream.take n) = stream.frames.take n :=
  List.map_take

theorem take_succ {stream : Stream} {i : Nat} {frame : AudioFrame} {nowNs : UInt64}
    (here : stream[i]? = some (frame, nowNs)) :
    stream.take (i + 1) = stream.take i ++ [(frame, nowNs)] := by
  rw [List.take_add_one, here]
  rfl

theorem frames_take_succ {stream : Stream} {i : Nat} {frame : AudioFrame} {nowNs : UInt64}
    (here : stream[i]? = some (frame, nowNs)) :
    stream.frames.take (i + 1) = stream.frames.take i ++ [frame] := by
  rw [List.take_add_one, frames_getElem? here]
  rfl

theorem Nondecreasing.timeNs_le {stream : Stream} (ordered : stream.Nondecreasing)
    {k n : Nat} (order : k ≤ n) (inside : n < stream.length) :
    stream.timeNs k ≤ stream.timeNs n := by
  obtain ⟨later, laterNs, there⟩ := exists_getElem? inside
  obtain ⟨earlier, earlierNs, here⟩ := exists_getElem? (Nat.lt_of_le_of_lt order inside)
  rw [timeNs_of_getElem? here, timeNs_of_getElem? there]
  rcases Nat.eq_or_lt_of_le order with rfl | before
  · rw [here] at there
    cases there
    exact Nat.le_refl _
  · obtain ⟨inside', laterEq⟩ := List.getElem?_eq_some_iff.mp there
    obtain ⟨inside'', earlierEq⟩ := List.getElem?_eq_some_iff.mp here
    have pair := List.pairwise_iff_getElem.mp ordered k n inside'' inside' before
    rw [laterEq, earlierEq] at pair
    exact UInt64.le_iff_toNat_le.mp pair

end Stream

namespace ChunkAssembler

section

variable {D : Type} [Double D] {config : ChunkerConfig D} {frames : List AudioFrame}
  {assembler : ChunkAssembler D}

/-- An onset is declared only while no chunk is open. -/
theorem CountsRuns.opens_eq (counts : CountsRuns config frames assembler) (frame : AudioFrame)
    (nowNs : UInt64) : assembler.opens frame nowNs = (assembler.gated frame nowNs).1 := by
  unfold opens
  cases onset : (assembler.gated frame nowNs).1 with
  | false => rfl
  | true =>
      have verdict := SpeechThresholdGate.onset_accept assembler.gate (frameEnergy frame)
        (nsToMs nowNs)
      have idle := (verdict.mp onset).2.1
      rw [counts.active, idle]
      rfl

/-- Why a frame closes a chunk, if it does. -/
theorem CountsRuns.reason_onFrame (counts : CountsRuns config frames assembler)
    (cfg : assembler.cfg = config) (frame : AudioFrame) (nowNs : UInt64) :
    (assembler.onFrame frame nowNs).2.map ChunkEvent.reason =
      if (assembler.gated frame nowNs).1 || assembler.gate.speaking then
        if (assembler.gated frame nowNs).2.speaking then
          if config.maxChunkMs ≤ nsToMs (nowNs - if (assembler.gated frame nowNs).1 then nowNs
              else assembler.tSpeechStartNs) then some .maxLength
          else none
        else some .hangover
      else none := by
  have opened := active_gatedState assembler frame nowNs
  rw [← active_routeFrame (assembler.gatedState frame nowNs) frame, counts.opens_eq,
    counts.active] at opened
  have gate := gate_routeFrame (assembler.gatedState frame nowNs) frame
  rw [gate_gatedState] at gate
  have elapsed := elapsedMs_prepared assembler frame nowNs
  rw [counts.opens_eq, prepared] at elapsed
  rw [← opened, ← gate, ← elapsed, onFrame_eq]
  have kept : ((assembler.gatedState frame nowNs).routeFrame frame).cfg = config := by
    simpa using cfg
  generalize (assembler.gatedState frame nowNs).routeFrame frame = routed at kept
  rcases closeFrame_cases routed nowNs with
    ⟨inactive, same⟩ | ⟨active, ended, same⟩ | ⟨active, going, capped, same⟩ |
      ⟨active, going, short, same⟩
  · simp [same, inactive]
  · simp [same, active, ended, closeChunk]
  · rw [kept] at capped
    simp [same, active, going, closeChunk, capped]
  · rw [kept] at short
    simp [same, active, going, short]

/-- The chunk clock restarts on an onset and on a capped chunk. -/
theorem CountsRuns.tSpeechStartNs_onFrame (counts : CountsRuns config frames assembler)
    (frame : AudioFrame) (nowNs : UInt64) :
    (assembler.onFrame frame nowNs).1.tSpeechStartNs =
      if (assembler.gated frame nowNs).1 = true ∨
          (assembler.onFrame frame nowNs).2.map ChunkEvent.reason = some .maxLength then nowNs
      else assembler.tSpeechStartNs := by
  have started := tSpeechStartNs_gatedState assembler frame nowNs
  rw [← tSpeechStartNs_routeFrame (assembler.gatedState frame nowNs) frame,
    counts.opens_eq] at started
  rw [onFrame_eq]
  generalize (assembler.gatedState frame nowNs).routeFrame frame = routed at started
  rcases closeFrame_cases routed nowNs with
    ⟨-, same⟩ | ⟨-, -, same⟩ | ⟨-, -, -, same⟩ | ⟨-, -, -, same⟩
  · simp [same, started]
  · simp [same, started, closeChunk]
  · simp [same, openChunk, closeChunk]
  · simp [same, started]

/-- The gate starts speaking exactly on an onset. -/
theorem CountsRuns.onset_iff_rises (counts : CountsRuns config frames assembler)
    (lasting : 0 < config.gate.silenceFrames) (frame : AudioFrame) (nowNs : UInt64) :
    (assembler.gated frame nowNs).1 = true ↔
      assembler.gate.speaking = false ∧ (assembler.gated frame nowNs).2.speaking = true := by
  have verdict := SpeechThresholdGate.onset_accept assembler.gate (frameEnergy frame)
    (nsToMs nowNs)
  have going := counts.speaking_gated lasting frame nowNs
  constructor
  · intro onset
    exact ⟨(verdict.mp onset).2.1, going.mpr (Or.inl onset)⟩
  · rintro ⟨idle, speaking⟩
    rcases going.mp speaking with onset | ⟨before, -⟩
    · exact onset
    · rw [idle] at before
      cases before

end

/-- The chunk current at `j` was opened at `k`: by the onset, or by the last cap. -/
structure OpenedAt (capped : Nat → Prop) (onset j k : Nat) : Prop where
  onset_le : onset ≤ k
  le : k ≤ j
  opens : k = onset ∨ (k < j ∧ capped k)
  latest : ∀ m, k < m → m < j → ¬ capped m

theorem OpenedAt.unique {capped : Nat → Prop} {onset j k k' : Nat}
    (one : OpenedAt capped onset j k) (other : OpenedAt capped onset j k') : k = k' := by
  have noLater : ∀ {k k'}, OpenedAt capped onset j k → OpenedAt capped onset j k' → ¬ k < k' := by
    intro k k' one other before
    rcases other.opens with rfl | ⟨inside, capped⟩
    · exact absurd one.onset_le (Nat.not_le.mpr before)
    · exact one.latest k' before inside capped
  exact Nat.le_antisymm (Nat.not_lt.mp (noLater other one)) (Nat.not_lt.mp (noLater one other))

section

variable [RationalSqrt]

theorem nsToMs_eq (ns : UInt64) : (nsToMs ns : ℚ) = (ns.toNat : ℚ) / 1000000 := by
  change ((ns.toNat : Int) : ℚ) / ((1000000 : Int) : ℚ) = _
  push_cast
  rfl

/-- A difference of a later and an earlier time does not wrap. -/
theorem nsToMs_sub {later earlier : UInt64} (order : earlier ≤ later) :
    (nsToMs (later - earlier) : ℚ) =
      (later.toNat : ℚ) / 1000000 - (earlier.toNat : ℚ) / 1000000 := by
  rw [nsToMs_eq, UInt64.toNat_sub_of_le _ _ order,
    Nat.cast_sub (UInt64.le_iff_toNat_le.mp order), sub_div]

/-! ## Speech over positions -/

/-- Speech may begin: a long enough loud run, rested from the previous onset. -/
structure MayBegin (config : ChunkerConfig ℚ) (stream : Stream) (previous : Option Nat)
    (i : Nat) : Prop where
  run : config.onsetRun ≤ Run.trailing config.loudFrame (stream.frames.take (i + 1))
  rested : 0 < config.gate.cooldownMs → ∀ onset, previous = some onset →
    config.gate.cooldownMs ≤ stream.timeMs i - stream.timeMs onset

/-- Speech may end: the last `silence_frames` frames are quiet and follow the onset. -/
structure MayEnd (config : ChunkerConfig ℚ) (stream : Stream) (onset j : Nat) : Prop where
  follows : onset + config.gate.silenceFrames.toNat ≤ j
  quiet : ∀ k frame, j < k + config.gate.silenceFrames.toNat → k ≤ j →
    stream.frames[k]? = some frame → config.quietFrame frame = true

/-- The gate's mode after a number of frames. -/
def speakingAfter (config : ChunkerConfig ℚ) (stream : Stream) (n : Nat) : Bool :=
  (afterStream config (stream.take n)).gate.speaking

/-- The speech intervals the gate draws on the first `n` frames. -/
def speech (config : ChunkerConfig ℚ) (stream : Stream) (n : Nat) : Segments.Intervals :=
  Segments.ofSignal (speakingAfter config stream) n

/-- Why the frame at a position closed a chunk, if it did. -/
def reasonAt (config : ChunkerConfig ℚ) (stream : Stream) (j : Nat) : Option CloseReason :=
  (events config stream.calls)[j]?.join.map ChunkEvent.reason

section

variable {config : ChunkerConfig ℚ} {stream : Stream} {i : Nat} {frame : AudioFrame}
  {nowNs : UInt64}

theorem afterStream_take_succ (here : stream[i]? = some (frame, nowNs)) :
    afterStream config (stream.take (i + 1)) =
      ((afterStream config (stream.take i)).onFrame frame nowNs).1 := by
  rw [Stream.take_succ here, afterStream_snoc]

theorem speakingAfter_succ (here : stream[i]? = some (frame, nowNs)) :
    speakingAfter config stream (i + 1) =
      ((afterStream config (stream.take i)).gated frame nowNs).2.speaking := by
  rw [speakingAfter, afterStream_take_succ here, gate_onFrame]

theorem reasonAt_eq (here : stream[i]? = some (frame, nowNs)) :
    reasonAt config stream i =
      ((afterStream config (stream.take i)).onFrame frame nowNs).2.map ChunkEvent.reason := by
  have input : (Stream.calls stream)[i]? = some (.frame frame nowNs) := by
    simp [Stream.calls, here]
  rw [reasonAt, events, Machine.outputs_getElem?, input, Stream.calls_take]
  rfl

theorem counts_take (lasting : 0 < config.gate.silenceFrames) (stream : Stream) (n : Nat) :
    CountsRuns config (stream.frames.take n) (afterStream config (stream.take n)) := by
  rw [← Stream.frames_take]
  exact countsRuns_afterStream lasting (stream.take n)

theorem low_speakingAfter (config : ChunkerConfig ℚ) (stream : Stream) :
    speakingAfter config stream 0 = false :=
  rfl

end

theorem current_speech (config : ChunkerConfig ℚ) (stream : Stream) (n : Nat) :
    (speech config stream n).current.isSome = speakingAfter config stream n :=
  Segments.current_ofSignal (low_speakingAfter config stream) n

/-- The cooldown stamp is the time of the latest onset. -/
theorem stamp_speech {config : ChunkerConfig ℚ} (lasting : 0 < config.gate.silenceFrames)
    (stream : Stream) (n : Nat) (inside : n ≤ stream.length) :
    (afterStream config (stream.take n)).gate.hasTriggered =
        (speech config stream n).latest.isSome ∧
      ∀ onset, (speech config stream n).latest = some onset →
        (afterStream config (stream.take n)).gate.lastTriggerMs = stream.timeMs onset := by
  induction n with
  | zero => exact ⟨rfl, fun _ absent => by cases absent⟩
  | succ n ih =>
      obtain ⟨triggered, stamp⟩ := ih (Nat.le_of_succ_le inside)
      obtain ⟨frame, nowNs, here⟩ := Stream.exists_getElem? inside
      have counts := counts_take lasting stream n
      have rises := counts.onset_iff_rises lasting frame nowNs
      rw [← speakingAfter_succ here] at rises
      obtain ⟨triggered', stamp'⟩ := SpeechThresholdGate.stamp_accept
        (afterStream config (stream.take n)).gate (frameEnergy frame) (nsToMs nowNs)
      have high : (speech config stream n).current.isSome =
          (afterStream config (stream.take n)).gate.speaking := current_speech config stream n
      have latest : (speech config stream (n + 1)).latest = _ :=
        Segments.Intervals.latest_advance (speech config stream n) n
          (speakingAfter config stream (n + 1))
      rw [high] at latest
      rw [afterStream_take_succ here, gate_onFrame, latest]
      unfold gated at rises ⊢
      rw [triggered', stamp']
      by_cases onset : ((afterStream config (stream.take n)).gate.accept (frameEnergy frame)
          (nsToMs nowNs)).1 = true
      · have time : (nsToMs nowNs : ℚ) = stream.timeMs n := by
          rw [Stream.timeMs, Stream.timeNs_of_getElem? here]
          exact nsToMs_eq nowNs
        rw [if_pos (rises.mp onset), if_pos onset, onset]
        refine ⟨rfl, fun position same => ?_⟩
        obtain rfl := Option.some.inj same
        exact time
      · rw [if_neg (fun holds => onset (rises.mpr holds)), if_neg onset]
        simp only [Bool.not_eq_true] at onset
        rw [onset]
        exact ⟨triggered, stamp⟩

/-- While silent, the cooldown test asks whether the frame is rested. -/
theorem cooling_iff_rested {config : ChunkerConfig ℚ} (lasting : 0 < config.gate.silenceFrames)
    {stream : Stream} {n : Nat} {frame : AudioFrame} {nowNs : UInt64}
    (here : stream[n]? = some (frame, nowNs))
    (silent : (speech config stream n).current = none) :
    (afterStream config (stream.take n)).gate.cooling (nsToMs nowNs) = false ↔
      (0 < config.gate.cooldownMs →
        ∀ onset, Segments.previous (speech config stream n).closed = some onset →
          config.gate.cooldownMs ≤ stream.timeMs n - stream.timeMs onset) := by
  obtain ⟨inside, -⟩ := List.getElem?_eq_some_iff.mp here
  obtain ⟨triggered, stamp⟩ := stamp_speech lasting stream n (Nat.le_of_lt inside)
  have cooldown : (afterStream config (stream.take n)).gate.cfg.cooldownMs =
      config.gate.cooldownMs := by
    rw [(counts_take lasting stream n).cfg]
    rfl
  have now : (nsToMs nowNs : ℚ) = stream.timeMs n := by
    rw [Stream.timeMs, Stream.timeNs_of_getElem? here]
    exact nsToMs_eq nowNs
  have zero : ((0 : Int) : ℚ) = 0 := rfl
  have latest : (speech config stream n).latest =
      Segments.previous (speech config stream n).closed := by
    simp [Segments.Intervals.latest, silent]
  rw [latest] at triggered stamp
  unfold SpeechThresholdGate.cooling
  rw [cooldown, triggered, now, zero]
  cases previous : Segments.previous (speech config stream n).closed with
  | none => simp
  | some onset =>
      rw [stamp onset previous]
      simp

/-- The gate starts speaking exactly where speech may begin. -/
theorem rises_iff_mayBegin {config : ChunkerConfig ℚ} (lasting : 0 < config.gate.silenceFrames)
    {stream : Stream} (short : stream.length < 2 ^ 32) {n : Nat} (inside : n < stream.length)
    (silent : speakingAfter config stream n = false) :
    speakingAfter config stream (n + 1) = true ↔
      MayBegin config stream (Segments.previous (speech config stream n).closed) n := by
  obtain ⟨frame, nowNs, here⟩ := Stream.exists_getElem? inside
  have counts := counts_take lasting stream n
  have bounded := Run.trailing_le_length config.loudFrame (stream.frames.take n)
  have none : (speech config stream n).current = none := by
    have high := current_speech config stream n
    rw [silent] at high
    exact Option.isNone_iff_eq_none.mp (by simpa using high)
  have exact : Run.trailing config.loudFrame (stream.frames.take n) + 1 < 2 ^ 32 := by
    rw [List.length_take] at bounded
    omega
  have onset := counts.onset_gated exact frame nowNs
  have rises := counts.onset_iff_rises lasting frame nowNs
  have idle : (afterStream config (stream.take n)).gate.speaking = false := silent
  rw [cooling_iff_rested lasting here none, ← Stream.frames_take_succ here] at onset
  rw [speakingAfter_succ here]
  constructor
  · intro speaking
    obtain ⟨-, run, rested⟩ := onset.mp (rises.mpr ⟨idle, speaking⟩)
    exact ⟨run, rested⟩
  · rintro ⟨run, rested⟩
    exact (rises.mp (onset.mpr ⟨idle, run, rested⟩)).2

/-- The onset frame is loud. -/
theorem MayBegin.loud {config : ChunkerConfig ℚ} {stream : Stream} {previous : Option Nat}
    {i : Nat} (begins : MayBegin config stream previous i) {frame : AudioFrame}
    (here : stream.frames[i]? = some frame) : config.loudFrame frame = true := by
  have some : 1 ≤ Run.trailing config.loudFrame (stream.frames.take (i + 1)) :=
    Nat.le_trans (Nat.le_max_left _ _) begins.run
  obtain ⟨inside, -⟩ := List.getElem?_eq_some_iff.mp here
  obtain ⟨-, every⟩ := (Run.le_trailing_iff _ _ _).mp some
  refine every i frame ?_ ?_
  · rw [List.length_take]
    omega
  · rw [List.getElem?_take_of_lt (Nat.lt_succ_self i), here]

/-- The gate stops speaking exactly where speech may end. -/
theorem falls_iff_mayEnd {config : ChunkerConfig ℚ} (lasting : 0 < config.gate.silenceFrames)
    {stream : Stream} {n : Nat} (inside : n < stream.length)
    (speaking : speakingAfter config stream n = true) {previous : Option Nat} {i : Nat}
    (earlier : i < n) (begins : MayBegin config stream previous i) :
    speakingAfter config stream (n + 1) = false ↔ MayEnd config stream i n := by
  obtain ⟨frame, nowNs, here⟩ := Stream.exists_getElem? inside
  have counts := counts_take lasting stream n
  have going := counts.speaking_gated lasting frame nowNs
  have rises := counts.onset_iff_rises lasting frame nowNs
  have before : (afterStream config (stream.take n)).gate.speaking = true := speaking
  have length : stream.frames.length = stream.length := List.length_map _
  have taken : (stream.frames.take (n + 1)).length = n + 1 := by
    rw [List.length_take, length]
    omega
  rw [← speakingAfter_succ here, ← Stream.frames_take_succ here] at going
  have ended : speakingAfter config stream (n + 1) = false ↔ config.gate.silenceFrames.toNat ≤
      Run.trailing config.quietFrame (stream.frames.take (n + 1)) := by
    rw [← Bool.not_eq_true, going, rises, before]
    simp
  rw [ended, Run.le_trailing_iff, taken]
  constructor
  · rintro ⟨-, every⟩
    have quiet : ∀ k heard, n < k + config.gate.silenceFrames.toNat → k ≤ n →
        stream.frames[k]? = some heard → config.quietFrame heard = true := by
      intro k heard late order there
      refine every k heard (by omega) ?_
      rw [List.getElem?_take_of_lt (Nat.lt_succ_of_le order), there]
    refine ⟨?_, quiet⟩
    -- The onset frame is loud, so the silence lies after it.
    by_contra overlap
    obtain ⟨first, firstNs, there⟩ := Stream.exists_getElem? (Nat.lt_trans earlier inside)
    have heard := Stream.frames_getElem? there
    have contrary := quiet i first (Nat.lt_of_not_le overlap) (Nat.le_of_lt earlier) heard
    rw [ChunkerConfig.quietFrame, begins.loud heard] at contrary
    cases contrary
  · rintro ⟨follows, quiet⟩
    refine ⟨by omega, fun k heard late there => ?_⟩
    obtain ⟨bound, -⟩ := List.getElem?_eq_some_iff.mp there
    rw [taken] at bound
    rw [List.getElem?_take_of_lt bound] at there
    exact quiet k heard (by omega) (Nat.lt_succ_iff.mp bound) there

/-- The speech the gate draws on a stream is the declarative one. -/
theorem segmentation_speech {config : ChunkerConfig ℚ} (lasting : 0 < config.gate.silenceFrames)
    {stream : Stream} (short : stream.length < 2 ^ 32) :
    Segments.Segmentation (MayBegin config stream) (MayEnd config stream) stream.length
      (speech config stream stream.length) := by
  refine Segments.segmentation_ofSignal (low_speakingAfter config stream) stream.length ?_ ?_
  · intro n inside silent
    exact rises_iff_mayBegin lasting short inside silent
  · intro n inside i current earlier begins
    have high := current_speech config stream n
    rw [speech, current] at high
    exact falls_iff_mayEnd lasting inside high.symm earlier begins

/-! ## The chunk clock over a stream -/

/-- The frame at a position closed a chunk at the cap. -/
def CappedAt (config : ChunkerConfig ℚ) (stream : Stream) (j : Nat) : Prop :=
  reasonAt config stream j = some .maxLength

/-- The interval open after a frame began there on an onset, and earlier otherwise. -/
theorem current_before {config : ChunkerConfig ℚ} (lasting : 0 < config.gate.silenceFrames)
    {stream : Stream} {n : Nat} {frame : AudioFrame} {nowNs : UInt64}
    (here : stream[n]? = some (frame, nowNs)) {i : Nat}
    (current : (speech config stream (n + 1)).current = some i) :
    (((afterStream config (stream.take n)).gated frame nowNs).1 = true ∧ i = n) ∨
      (((afterStream config (stream.take n)).gated frame nowNs).1 = false ∧
        (speech config stream n).current = some i) := by
  have rises := (counts_take lasting stream n).onset_iff_rises lasting frame nowNs
  have before := current_speech config stream n
  have after := current_speech config stream (n + 1)
  rw [current, Option.isSome_some] at after
  rw [← speakingAfter_succ here, ← after] at rises
  have advanced : (speech config stream (n + 1)).current =
      some ((speech config stream n).current.getD n) := by
    have step : speech config stream (n + 1) =
        (speech config stream n).advance n (speakingAfter config stream (n + 1)) := rfl
    rw [step, ← after]
    exact Segments.Intervals.current_advance _ n
  rw [current] at advanced
  cases silent : (speech config stream n).current with
  | none =>
      rw [silent] at before advanced
      exact Or.inl ⟨rises.mpr ⟨before.symm, rfl⟩, Option.some.inj advanced⟩
  | some first =>
      rw [silent] at before advanced
      refine Or.inr ⟨?_, advanced.symm⟩
      rw [Bool.eq_false_iff]
      intro onset
      have contrary : speakingAfter config stream n = false := (rises.mp onset).1
      rw [← before] at contrary
      cases contrary

/-- While a chunk is open, its clock started at the frame that opened it. -/
theorem clock_speech {config : ChunkerConfig ℚ} (lasting : 0 < config.gate.silenceFrames)
    (stream : Stream) (n : Nat) (inside : n ≤ stream.length) (i : Nat)
    (current : (speech config stream n).current = some i) :
    ∃ k, k < n ∧ OpenedAt (CappedAt config stream) i n k ∧
      (afterStream config (stream.take n)).tSpeechStartNs.toNat = stream.timeNs k := by
  induction n with
  | zero => cases current
  | succ n ih =>
      obtain ⟨frame, nowNs, here⟩ := Stream.exists_getElem? inside
      have within := (Segments.ofSignal_within _ (n + 1)).1 i current
      have started := (counts_take lasting stream n).tSpeechStartNs_onFrame frame nowNs
      rw [← reasonAt_eq here, ← afterStream_take_succ here] at started
      by_cases capped : CappedAt config stream n
      · have restart : ((afterStream config (stream.take n)).gated frame nowNs).1 = true ∨
            reasonAt config stream n = some .maxLength := Or.inr capped
        rw [if_pos restart] at started
        refine ⟨n, Nat.lt_succ_self n, ⟨Nat.lt_succ_iff.mp within, Nat.le_succ n,
          Or.inr ⟨Nat.lt_succ_self n, capped⟩, fun m after before => ?_⟩, ?_⟩
        · omega
        · rw [started, Stream.timeNs_of_getElem? here]
      · rcases current_before lasting here current with ⟨onset, rfl⟩ | ⟨going, opened⟩
        · rw [if_pos (Or.inl onset)] at started
          refine ⟨i, Nat.lt_succ_self i, ⟨Nat.le_refl i, Nat.le_succ i, Or.inl rfl,
            fun m after before => ?_⟩, ?_⟩
          · omega
          · rw [started, Stream.timeNs_of_getElem? here]
        · have plain : ¬ (((afterStream config (stream.take n)).gated frame nowNs).1 = true ∨
              reasonAt config stream n = some .maxLength) := by
            rw [going]
            rintro (absent | closed)
            · cases absent
            · exact capped closed
          rw [if_neg plain] at started
          obtain ⟨k, before, clock, same⟩ := ih (Nat.le_of_succ_le inside) opened
          refine ⟨k, Nat.lt_succ_of_lt before, ⟨clock.onset_le, Nat.le_succ_of_le clock.le, ?_, ?_⟩,
            by rw [started, same]⟩
          · rcases clock.opens with here | ⟨inside, capped⟩
            · exact Or.inl here
            · exact Or.inr ⟨Nat.lt_succ_of_lt inside, capped⟩
          · intro m after early
            rcases Nat.lt_succ_iff_lt_or_eq.mp early with earlier | rfl
            · exact clock.latest m after earlier
            · exact capped

/-- The elapsed time of the closing test runs from the opening of the current chunk. -/
theorem elapsed_speech {config : ChunkerConfig ℚ} (lasting : 0 < config.gate.silenceFrames)
    {stream : Stream} (ordered : stream.Nondecreasing) {n : Nat} {frame : AudioFrame}
    {nowNs : UInt64} (here : stream[n]? = some (frame, nowNs)) {i : Nat}
    (current : (speech config stream (n + 1)).current = some i) :
    ∃ k, OpenedAt (CappedAt config stream) i n k ∧
      (nsToMs (nowNs - if ((afterStream config (stream.take n)).gated frame nowNs).1 then nowNs
        else (afterStream config (stream.take n)).tSpeechStartNs) : ℚ) =
        stream.timeMs n - stream.timeMs k := by
  obtain ⟨inside, -⟩ := List.getElem?_eq_some_iff.mp here
  have now := Stream.timeNs_of_getElem? here
  rcases current_before lasting here current with ⟨onset, rfl⟩ | ⟨going, opened⟩
  · refine ⟨i, ⟨Nat.le_refl i, Nat.le_refl i, Or.inl rfl, fun m after before => ?_⟩, ?_⟩
    · omega
    · rw [onset, if_pos rfl, nsToMs_sub (UInt64.le_refl _), sub_self, sub_self]
  · obtain ⟨k, before, clock, same⟩ := clock_speech lasting stream n (Nat.le_of_lt inside) i opened
    refine ⟨k, clock, ?_⟩
    have order := ordered.timeNs_le (Nat.le_of_lt before) inside
    rw [← same, now] at order
    rw [going, nsToMs_sub (by simpa using UInt64.le_iff_toNat_le.mpr order)]
    simp [Stream.timeMs, now, same]

/-- A chunk ends by hangover exactly where speech ends. -/
theorem reasonAt_hangover {config : ChunkerConfig ℚ} (lasting : 0 < config.gate.silenceFrames)
    {stream : Stream} {j : Nat} (inside : j < stream.length) :
    reasonAt config stream j = some .hangover ↔
      speakingAfter config stream j = true ∧ speakingAfter config stream (j + 1) = false := by
  obtain ⟨frame, nowNs, here⟩ := Stream.exists_getElem? inside
  have counts := counts_take lasting stream j
  have rises := counts.onset_iff_rises lasting frame nowNs
  have reason := counts.reason_onFrame (tracks_after config _).cfg_eq frame nowNs
  rw [← reasonAt_eq here, ← speakingAfter_succ here] at reason
  rw [← speakingAfter_succ here] at rises
  have before : speakingAfter config stream j =
      (afterStream config (stream.take j)).gate.speaking := rfl
  rw [reason, before]
  cases next : speakingAfter config stream (j + 1) with
  | true =>
      simp only [if_true, Bool.true_eq_false, and_false, iff_false]
      split
      · split <;> simp
      · simp
  | false =>
      have quiet : ((afterStream config (stream.take j)).gated frame nowNs).1 = false := by
        rw [Bool.eq_false_iff]
        intro onset
        have contrary := (rises.mp onset).2
        rw [next] at contrary
        cases contrary
      cases speaking : (afterStream config (stream.take j)).gate.speaking <;> simp [quiet]

/-- A chunk ends by the cap exactly where speech goes on and the chunk is long enough. -/
theorem reasonAt_maxLength {config : ChunkerConfig ℚ} (lasting : 0 < config.gate.silenceFrames)
    {stream : Stream} (ordered : stream.Nondecreasing) {j : Nat} (inside : j < stream.length) :
    reasonAt config stream j = some .maxLength ↔
      ∃ onset opened, (speech config stream (j + 1)).current = some onset ∧
        OpenedAt (CappedAt config stream) onset j opened ∧
          config.maxChunkMs ≤ stream.timeMs j - stream.timeMs opened := by
  obtain ⟨frame, nowNs, here⟩ := Stream.exists_getElem? inside
  have counts := counts_take lasting stream j
  have going := counts.speaking_gated lasting frame nowNs
  have reason := counts.reason_onFrame (tracks_after config _).cfg_eq frame nowNs
  have high := current_speech config stream (j + 1)
  rw [← reasonAt_eq here, ← speakingAfter_succ here] at reason
  rw [← speakingAfter_succ here] at going
  rw [reason]
  cases current : (speech config stream (j + 1)).current with
  | none =>
      rw [current] at high
      rw [← high]
      simp
  | some onset =>
      rw [current, Option.isSome_some] at high
      have open' : (((afterStream config (stream.take j)).gated frame nowNs).1 ||
          (afterStream config (stream.take j)).gate.speaking) = true := by
        rw [Bool.or_eq_true]
        exact (going.mp high.symm).imp_right And.left
      obtain ⟨opened, clock, elapsed⟩ := elapsed_speech lasting ordered here current
      rw [if_pos open', ← high, if_pos rfl, elapsed]
      constructor
      · intro capped
        refine ⟨onset, opened, rfl, clock, ?_⟩
        by_contra early
        rw [if_neg early] at capped
        cases capped
      · rintro ⟨onset', opened', same, clock', late⟩
        obtain rfl := Option.some.inj same
        obtain rfl := clock.unique clock'
        rw [if_pos late]

theorem reasonAt_ne_streamEnd {config : ChunkerConfig ℚ}
    (lasting : 0 < config.gate.silenceFrames) {stream : Stream} {j : Nat}
    (inside : j < stream.length) : reasonAt config stream j ≠ some .streamEnd := by
  obtain ⟨frame, nowNs, here⟩ := Stream.exists_getElem? inside
  have reason := (counts_take lasting stream j).reason_onFrame (tracks_after config _).cfg_eq
    frame nowNs
  rw [← reasonAt_eq here] at reason
  rw [reason]
  repeat' split
  all_goals simp

/-- What one frame of a segmented stream does, over positions only. -/
structure SegmentsFrame (config : ChunkerConfig ℚ) (stream : Stream)
    (intervals : Segments.Intervals) (j : Nat) : Prop where
  begins : speakingAfter config stream j = false ∧ speakingAfter config stream (j + 1) = true ↔
    intervals.BeginsAt j
  ends : speakingAfter config stream j = true ∧ speakingAfter config stream (j + 1) = false ↔
    intervals.EndsAt j
  hangover : reasonAt config stream j = some .hangover ↔ intervals.EndsAt j
  maxLength : reasonAt config stream j = some .maxLength ↔
    ∃ onset opened, intervals.GoesOn onset j ∧
      OpenedAt (CappedAt config stream) onset j opened ∧
        config.maxChunkMs ≤ stream.timeMs j - stream.timeMs opened
  noOther : reasonAt config stream j ≠ some .streamEnd

/--
The chunker computes the declarative segmentation of its input: there is one,
speech begins and ends where it says, and events are returned exactly at the
ends of speech and where speech outlasts the cap.
-/
theorem speech_segmented (config : ChunkerConfig ℚ) (lasting : 1 ≤ config.gate.silenceFrames)
    (stream : Stream) (short : stream.length < 2 ^ 32) (ordered : stream.Nondecreasing) :
    ∃ intervals,
      Segments.Segmentation (MayBegin config stream) (MayEnd config stream) stream.length
        intervals ∧
      (∀ other, Segments.Segmentation (MayBegin config stream) (MayEnd config stream)
        stream.length other → other = intervals) ∧
      ∀ j, j < stream.length → SegmentsFrame config stream intervals j := by
  have present : 0 < config.gate.silenceFrames :=
    UInt32.lt_iff_toNat_lt.mpr (UInt32.le_iff_toNat_le.mp lasting)
  have segmentation := segmentation_speech present short
  refine ⟨_, segmentation, fun other found => found.unique segmentation, ?_⟩
  intro j inside
  have low := low_speakingAfter config stream
  have begins := Segments.beginsAt_ofSignal low inside
  have ends := Segments.endsAt_ofSignal low inside
  refine ⟨begins.symm, ends.symm, (reasonAt_hangover present inside).trans ends.symm, ?_,
    reasonAt_ne_streamEnd present inside⟩
  rw [reasonAt_maxLength present ordered inside]
  simp only [speech, Segments.goesOn_ofSignal inside]

end

section

open Scenario

theorem speech_segmented_twoUtterances :
    ∃ intervals,
      Segments.Segmentation (MayBegin shortConfig twoUtterances)
        (MayEnd shortConfig twoUtterances) twoUtterances.length intervals ∧
      (∀ other, Segments.Segmentation (MayBegin shortConfig twoUtterances)
        (MayEnd shortConfig twoUtterances) twoUtterances.length other → other = intervals) ∧
      ∀ j, j < twoUtterances.length →
        SegmentsFrame shortConfig twoUtterances intervals j :=
  speech_segmented shortConfig (by decide) twoUtterances (by decide) (by decide)

end

end ChunkAssembler

end VoiceHotPath
