import VoiceHotPath.Vad.GateHistory

/-!
# No speech is lost by the onset delay

The gate declares onset on the last frame of a loud run of `speech_frames`, and
the pre-roll must reach back over the run's earlier frames.  Without cooldown,
one frame less of pre-roll than `speech_frames` is enough: every long loud run
is chunked entirely, and each of its frames once.
-/

namespace VoiceHotPath

namespace Timeline

/-- A position lies in a closed chunk or in the one being recorded. -/
def Covers (closed : List (Option Closing)) (timeline : Timeline) (position : Nat) : Prop :=
  (∃ block, some block ∈ closed ∧ block.start ≤ position ∧ position < block.stop) ∨
  (position < timeline.received ∧
    ∃ start onset, timeline.phase = .recording start onset ∧ start ≤ position)

/-- Leaving a recording phase keeps its positions: they are closed or still recorded. -/
theorem covers_leave {closed : List (Option Closing)} {received position start : Nat}
    {onset : Option Nat} (after : start ≤ position) (before : position < received)
    (speaking capped : Bool) :
    Covers (closed ++ [(leave received speaking capped (.recording start onset)).2])
      (leave received speaking capped (.recording start onset)).1 position := by
  cases speaking with
  | false => exact Or.inl ⟨_, List.mem_append_right _ (List.mem_singleton_self _), after, before⟩
  | true =>
      cases capped with
      | true =>
          exact Or.inl ⟨_, List.mem_append_right _ (List.mem_singleton_self _), after, before⟩
      | false => exact Or.inr ⟨before, start, onset, rfl, after⟩

/-- A covered position stays covered. -/
theorem Covers.step {closed : List (Option Closing)} {timeline : Timeline} {position : Nat}
    (covers : Covers closed timeline position) (preRoll : Nat) (move : Move) :
    Covers (closed ++ [(step preRoll timeline move).2]) (step preRoll timeline move).1
      position := by
  rcases covers with ⟨block, member, inside⟩ | ⟨before, start, onset, phase, after⟩
  · exact Or.inl ⟨block, List.mem_append_left _ member, inside⟩
  · cases move with
    | frame fresh speaking capped =>
        simp only [Timeline.step, enter, phase]
        exact covers_leave after (Nat.lt_succ_of_lt before) speaking capped
    | flush =>
        simp only [Timeline.step, phase]
        exact Or.inl ⟨_, List.mem_append_right _ (List.mem_singleton_self _), after, before⟩

/-- The loud run of the given length is covered while recording, else too short to count. -/
def RunSafe (need run : Nat) (closed : List (Option Closing)) (timeline : Timeline) : Prop :=
  match timeline.phase with
  | .recording _ _ => ∀ position, timeline.received ≤ position + run →
      position < timeline.received → Covers closed timeline position
  | .idle since => run < need ∧ since + run ≤ timeline.received

/-- A run is safe after a frame if the chunk left contains all of it. -/
theorem runSafe_leave {need run received start : Nat} {onset : Option Nat}
    {closed : List (Option Closing)} {speaking capped : Bool} (positive : 0 < need)
    (ended : speaking = false → run = 0)
    (covers : ∀ position, received ≤ position + run → position < received →
      Covers (closed ++ [(leave received speaking capped (.recording start onset)).2])
        (leave received speaking capped (.recording start onset)).1 position) :
    RunSafe need run (closed ++ [(leave received speaking capped (.recording start onset)).2])
      (leave received speaking capped (.recording start onset)).1 := by
  cases speaking with
  | false =>
      rw [ended rfl]
      exact ⟨positive, Nat.le_refl _⟩
  | true =>
      cases capped with
      | true => exact covers
      | false => exact covers

/-- What the gate owes the timeline about one frame: `run` grows to `run'`. -/
structure RunMove (need run run' : Nat) (timeline : Timeline) (onset speaking : Bool) : Prop where
  grows : run' ≤ run + 1
  ends : ∀ start opened, timeline.phase = .recording start opened → speaking = false → run' = 0
  short : ∀ since, timeline.phase = .idle since → onset = false → run' < need
  begins : ∀ since, timeline.phase = .idle since → onset = true → speaking = true

/-- Step lemma: with enough pre-roll, an onset covers the run it was declared on. -/
theorem RunSafe.step {need run run' preRoll : Nat} {closed : List (Option Closing)}
    {timeline : Timeline} {onset speaking : Bool} (safe : RunSafe need run closed timeline)
    (positive : 0 < need) (reach : need ≤ preRoll + 1)
    (inside : ∀ start opened, timeline.phase = .recording start opened →
      start ≤ timeline.received)
    (run_move : RunMove need run run' timeline onset speaking) (capped : Bool) :
    RunSafe need run'
      (closed ++ [(Timeline.step preRoll timeline (.frame onset speaking capped)).2])
      (Timeline.step preRoll timeline (.frame onset speaking capped)).1 := by
  have grows := run_move.grows
  obtain ⟨received, phase⟩ := timeline
  cases phase with
  | recording start opened =>
      have order := inside start opened rfl
      apply runSafe_leave positive (run_move.ends start opened rfl)
      intro position late before
      dsimp only at late order
      rcases Nat.lt_or_ge position received with earlier | latest
      · exact (safe position (by dsimp only; omega) earlier).step preRoll
          (.frame onset speaking capped)
      · exact covers_leave (Nat.le_trans order latest) before speaking capped
  | idle since =>
      obtain ⟨short, order⟩ := safe
      cases onset with
      | false =>
          exact ⟨run_move.short since rfl rfl,
            Nat.le_trans (Nat.add_le_add_left grows since) (Nat.succ_le_succ order)⟩
      | true =>
          obtain rfl := run_move.begins since rfl rfl
          apply runSafe_leave positive (fun absent => by cases absent)
          intro position late before
          dsimp only at late before order
          refine covers_leave ?_ before true capped
          dsimp only
          omega

end Timeline

namespace ChunkAssembler

section

variable {D : Type} [Double D]

theorem covers_append {config : ChunkerConfig D} {past : List Call} {position : Nat}
    (covers : Timeline.Covers (ledger config past) (timeline config past) position)
    (more : List Call) :
    Timeline.Covers (ledger config (past ++ more)) (timeline config (past ++ more)) position := by
  induction more using List.reverseRecOn with
  | nil => simpa using covers
  | append_singleton more next ih =>
      rw [← List.append_assoc, ledger_snoc, timeline_snoc]
      exact ih.step _ _

/-- A flush leaves no chunk open. -/
theorem idle_flushed (config : ChunkerConfig D) (past : List Call) (nowNs : UInt64) :
    ∃ since, (timeline config (past ++ [.flush nowNs])).phase = .idle since := by
  rw [timeline_snoc]
  simp only [timelineStep, move, Timeline.step]
  split
  · exact ⟨_, by assumption⟩
  · exact ⟨_, rfl⟩

/-- While a chunk is recording the gate is speaking, and otherwise it is not. -/
theorem speaking_iff_recording {config : ChunkerConfig D}
    (lasting : 0 < config.gate.silenceFrames) (stream : Stream) :
    match (timeline config stream.calls).phase with
    | .recording start _ => (afterStream config stream).gate.speaking = true ∧
        start ≤ (timeline config stream.calls).received
    | .idle _ => (afterStream config stream).gate.speaking = false := by
  have counts := countsRuns_afterStream lasting stream
  have tracks := tracks_after config stream.calls
  have inPhase := tracks.inPhase
  rw [tracks.received]
  cases phase : (timeline config stream.calls).phase with
  | idle since =>
      rw [phase] at inPhase
      exact counts.active.symm.trans inPhase.1
  | recording start onset =>
      rw [phase] at inPhase
      exact ⟨counts.active.symm.trans inPhase.1, inPhase.2.2.2.2.1⟩

/-- Without cooldown, a frame that brings the loud run to `speech_frames` is an onset. -/
theorem onset_of_run {config : ChunkerConfig D} (lasting : 0 < config.gate.silenceFrames)
    (prompt : ¬ ((0 : Int) : D) < config.gate.cooldownMs) {stream : Stream}
    (idle : (afterStream config stream).gate.speaking = false)
    (short : Run.trailing config.loudFrame stream.frames < config.onsetRun)
    (frame : AudioFrame) (nowNs : UInt64) :
    ((afterStream config stream).gated frame nowNs).1 = true ↔
      config.onsetRun ≤ Run.trailing config.loudFrame (stream.frames ++ [frame]) := by
  have counts := countsRuns_afterStream lasting stream
  have width := config.onsetRun_lt
  have warm : (afterStream config stream).gate.cooling (nsToMs nowNs) = false := by
    have cooldown : ¬ ((0 : Int) : D) < (afterStream config stream).gate.cfg.cooldownMs := by
      rw [counts.cfg]
      exact prompt
    simp [SpeechThresholdGate.cooling, cooldown]
  rw [counts.onset_gated (by omega)]
  simp [idle, warm]

/-- The gate keeps its side of the run invariant on every frame. -/
theorem runMove_gated {config : ChunkerConfig D} (lasting : 0 < config.gate.silenceFrames)
    (prompt : ¬ ((0 : Int) : D) < config.gate.cooldownMs) {stream : Stream}
    (safe : Timeline.RunSafe config.onsetRun (Run.trailing config.loudFrame stream.frames)
      (ledger config stream.calls) (timeline config stream.calls))
    (frame : AudioFrame) (nowNs : UInt64) :
    Timeline.RunMove config.onsetRun (Run.trailing config.loudFrame stream.frames)
      (Run.trailing config.loudFrame (stream.frames ++ [frame])) (timeline config stream.calls)
      ((afterStream config stream).gated frame nowNs).1
      ((afterStream config stream).gated frame nowNs).2.speaking := by
  have counts := countsRuns_afterStream lasting stream
  have phases := speaking_iff_recording lasting stream
  have going := counts.speaking_gated lasting frame nowNs
  refine ⟨?_, ?_, ?_, ?_⟩
  · cases loud : config.loudFrame frame with
    | false => simp [Run.trailing_snoc_of_neg loud]
    | true => simp [Run.trailing_snoc_of_pos loud]
  · intro start opened phase ended
    rw [phase] at phases
    rw [ended] at going
    cases loud : config.loudFrame frame with
    | false => exact Run.trailing_snoc_of_neg loud _
    | true =>
        have quiet : config.quietFrame frame = false := by simp [ChunkerConfig.quietFrame, loud]
        rw [Run.trailing_snoc_of_neg quiet] at going
        have contrary := going.mpr (Or.inr ⟨phases.1, UInt32.lt_iff_toNat_lt.mp lasting⟩)
        cases contrary
  · intro since phase silent
    unfold Timeline.RunSafe at safe
    rw [phase] at phases safe
    have onset := onset_of_run lasting prompt phases safe.1 frame nowNs
    rw [silent] at onset
    by_contra long
    have contrary := onset.mpr (Nat.not_lt.mp long)
    cases contrary
  · intro since phase opened
    exact going.mpr (Or.inl opened)

/-- What the gate decides on the frame after a stream, as the timeline sees it. -/
def nextMove (config : ChunkerConfig D) (stream : Stream) (frame : AudioFrame)
    (nowNs : UInt64) : Move :=
  (afterStream config stream).move (.frame frame nowNs)

theorem timeline_calls_snoc (config : ChunkerConfig D) (stream : Stream) (frame : AudioFrame)
    (nowNs : UInt64) :
    timeline config (Stream.calls (stream ++ [(frame, nowNs)])) =
      (Timeline.step config.preRollFrames.toNat (timeline config stream.calls)
        (nextMove config stream frame nowNs)).1 := by
  rw [Stream.calls_snoc, timeline_snoc]
  rfl

theorem ledger_calls_snoc (config : ChunkerConfig D) (stream : Stream) (frame : AudioFrame)
    (nowNs : UInt64) :
    ledger config (Stream.calls (stream ++ [(frame, nowNs)])) =
      ledger config stream.calls ++
        [(Timeline.step config.preRollFrames.toNat (timeline config stream.calls)
          (nextMove config stream frame nowNs)).2] := by
  rw [Stream.calls_snoc, ledger_snoc]
  rfl

/-- Run lemma: every loud run is covered, or still too short to declare an onset. -/
theorem runSafe_afterStream {config : ChunkerConfig D} (lasting : 0 < config.gate.silenceFrames)
    (prompt : ¬ ((0 : Int) : D) < config.gate.cooldownMs)
    (reach : config.onsetRun ≤ config.preRollFrames.toNat + 1) (stream : Stream) :
    Timeline.RunSafe config.onsetRun (Run.trailing config.loudFrame stream.frames)
      (ledger config stream.calls) (timeline config stream.calls) := by
  have positive : 0 < config.onsetRun := by
    unfold ChunkerConfig.onsetRun
    omega
  induction stream using List.reverseRecOn with
  | nil => exact ⟨positive, Nat.le_refl 0⟩
  | append_singleton stream input ih =>
      obtain ⟨frame, nowNs⟩ := input
      have phases := speaking_iff_recording lasting stream
      have inside : ∀ start opened, (timeline config (Stream.calls stream)).phase =
          .recording start opened → start ≤ (timeline config (Stream.calls stream)).received := by
        intro start opened phase
        rw [phase] at phases
        exact phases.2
      rw [timeline_calls_snoc, ledger_calls_snoc, Stream.frames_snoc]
      exact ih.step positive reach inside (runMove_gated lasting prompt ih frame nowNs) _

/-- The call that closes a block publishes an event that records it. -/
theorem Partitions.event_of_block {config : ChunkerConfig D} {stream : Stream} {endNs : UInt64}
    {blocks : List (Option Closing)} (partitions : Partitions config stream endNs blocks)
    {i : Nat} {block : Closing} (closed : blocks[i]? = some (some block)) :
    ∃ event, (events config (stream.flushed endNs))[i]? = some (some event) ∧
      RecordsBlock stream.frames event block := by
  obtain ⟨here, found⟩ := List.getElem?_eq_some_iff.mp closed
  obtain ⟨same, related⟩ := List.forall₂_iff_get.mp partitions.records
  have there : i < (events config (stream.flushed endNs)).length := same ▸ here
  have relation := related i there here
  rw [List.get_eq_getElem, List.get_eq_getElem, found] at relation
  cases published : (events config (stream.flushed endNs))[i] with
  | none =>
      rw [published] at relation
      cases relation
  | some event =>
      rw [published] at relation
      cases relation with
      | some records =>
          exact ⟨event, List.getElem?_eq_some_iff.mpr ⟨there, published⟩, records⟩

/-- Each block holds the position only once: no two calls close chunks sharing one. -/
theorem Partitions.unique {config : ChunkerConfig D} {stream : Stream} {endNs : UInt64}
    {blocks : List (Option Closing)} (partitions : Partitions config stream endNs blocks)
    {i j position : Nat} {first second : Closing} (here : blocks[i]? = some (some first))
    (there : blocks[j]? = some (some second))
    (inFirst : first.start ≤ position ∧ position < first.stop)
    (inSecond : second.start ≤ position ∧ position < second.stop) : i = j := by
  have ordered := partitions.ordered
  rw [List.pairwise_filterMap, List.pairwise_iff_getElem] at ordered
  obtain ⟨iInside, firstEq⟩ := List.getElem?_eq_some_iff.mp here
  obtain ⟨jInside, secondEq⟩ := List.getElem?_eq_some_iff.mp there
  rcases Nat.lt_trichotomy i j with before | same | after
  · have apart := ordered i j iInside jInside before first firstEq second secondEq
    omega
  · exact same
  · have apart := ordered j i jInside iInside after second secondEq first firstEq
    omega

/-- The call at an index publishes a chunk whose block holds a position. -/
def PublishesAt (config : ChunkerConfig D) (stream : Stream) (endNs : UInt64)
    (blocks : List (Option Closing)) (position i : Nat) : Prop :=
  ∃ event block, (events config (stream.flushed endNs))[i]? = some (some event) ∧
    blocks[i]? = some (some block) ∧ RecordsBlock stream.frames event block ∧
      block.start ≤ position ∧ position < block.stop

/-- A position inside a long loud run is covered once the run is complete. -/
theorem covers_run {config : ChunkerConfig D} (lasting : 0 < config.gate.silenceFrames)
    (prompt : ¬ ((0 : Int) : D) < config.gate.cooldownMs)
    (reach : config.onsetRun ≤ config.preRollFrames.toNat + 1) {stream : Stream}
    (long : config.onsetRun ≤ Run.trailing config.loudFrame stream.frames) {position : Nat}
    (late : stream.length ≤ position + Run.trailing config.loudFrame stream.frames)
    (before : position < stream.length) :
    Timeline.Covers (ledger config stream.calls) (timeline config stream.calls) position := by
  have safe := runSafe_afterStream lasting prompt reach stream
  have received := (tracks_after config stream.calls).received
  rw [Stream.receivedFrames_calls, Stream.frames, List.length_map] at received
  unfold Timeline.RunSafe at safe
  cases phase : (timeline config stream.calls).phase with
  | recording start onset =>
      rw [phase, received] at safe
      exact safe position late before
  | idle since =>
      rw [phase] at safe
      exact absurd long (Nat.not_le.mpr safe.1)

/--
Without cooldown and with a pre-roll of at least `speech_frames - 1`, every
frame of a loud run of `speech_frames` lies in exactly one published block.
-/
theorem speech_covered (config : ChunkerConfig D) (lasting : 1 ≤ config.gate.silenceFrames)
    (prompt : ¬ ((0 : Int) : D) < config.gate.cooldownMs)
    (reach : config.gate.speechFrames.toNat - 1 ≤ config.preRollFrames.toNat)
    (stream : Stream) (endNs : UInt64) :
    ∃ blocks, Partitions config stream endNs blocks ∧
      ∀ first stop, stop ≤ stream.length → config.gate.speechFrames.toNat ≤ stop - first →
        (∀ i frame, first ≤ i → i < stop → stream.frames[i]? = some frame →
          config.loudFrame frame = true) →
        ∀ position, first ≤ position → position < stop →
          ∃! i, PublishesAt config stream endNs blocks position i := by
  have partitions := partitions_ledger config stream endNs
  refine ⟨_, partitions, ?_⟩
  intro first stop inside long loud position after before
  have present : 0 < config.gate.silenceFrames :=
    UInt32.lt_iff_toNat_lt.mpr (UInt32.le_iff_toNat_le.mp lasting)
  have needed : config.onsetRun ≤ stop - first := by
    unfold ChunkerConfig.onsetRun
    omega
  have enough : config.onsetRun ≤ config.preRollFrames.toNat + 1 := by
    unfold ChunkerConfig.onsetRun
    omega
  have taken : (stream.take stop).length = stop := List.length_take_of_le inside
  have run : stop - first ≤ Run.trailing config.loudFrame (Stream.frames (stream.take stop)) := by
    rw [Run.le_trailing_iff, Stream.frames, List.length_map, taken]
    refine ⟨Nat.sub_le _ _, fun i frame late here => ?_⟩
    obtain ⟨bound, -⟩ := List.getElem?_eq_some_iff.mp here
    rw [List.length_map, taken] at bound
    rw [List.map_take, List.getElem?_take_of_lt bound] at here
    exact loud i frame (by omega) bound here
  have late : (stream.take stop).length ≤ position +
      Run.trailing config.loudFrame (Stream.frames (stream.take stop)) := by
    rw [taken]
    omega
  have covers := covers_run present prompt enough (Nat.le_trans needed run) late
    (Nat.lt_of_lt_of_eq before taken.symm)
  have whole : Stream.calls (stream.take stop) ++
      (Stream.calls (stream.drop stop) ++ [.flush endNs]) = stream.flushed endNs := by
    rw [← List.append_assoc, Stream.calls, Stream.calls, ← List.map_append,
      List.take_append_drop]
    rfl
  have covered := covers_append covers (Stream.calls (stream.drop stop) ++ [.flush endNs])
  rw [whole] at covered
  rcases covered with ⟨block, member, here⟩ | ⟨-, start, onset, recording, -⟩
  · obtain ⟨i, bound, found⟩ := List.mem_iff_getElem.mp member
    have closed := List.getElem?_eq_some_iff.mpr ⟨bound, found⟩
    obtain ⟨event, published, records⟩ := partitions.event_of_block closed
    refine ⟨i, ⟨event, block, published, closed, records, here⟩, ?_⟩
    rintro j ⟨-, other, -, closedThere, -, there⟩
    exact partitions.unique closedThere closed there here
  · obtain ⟨since, idle⟩ := idle_flushed config stream.calls endNs
    rw [Stream.flushed, idle] at recording
    cases recording

end

section

open Scenario

/-- On two utterances, the second cut short by the flush. -/
theorem speech_covered_twoUtterances :
    ∃ blocks, Partitions shortConfig twoUtterances 220000000 blocks ∧
      ∀ first stop, stop ≤ twoUtterances.length →
        shortConfig.gate.speechFrames.toNat ≤ stop - first →
        (∀ i frame, first ≤ i → i < stop → twoUtterances.frames[i]? = some frame →
          shortConfig.loudFrame frame = true) →
        ∀ position, first ≤ position → position < stop →
          ∃! i, PublishesAt shortConfig twoUtterances 220000000 blocks position i :=
  speech_covered shortConfig (by decide) (by decide +kernel) (by decide) twoUtterances 220000000

end

end ChunkAssembler

end VoiceHotPath
