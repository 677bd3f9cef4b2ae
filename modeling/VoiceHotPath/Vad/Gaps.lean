import Mathlib.Algebra.GroupWithZero.Nat
import VoiceHotPath.Vad.Partition

/-!
# Upstream gaps inside a chunk

The gap counter runs before the gate, is cleared whenever a chunk opens and
wraps at 32 bits.  Against the sequence numbers themselves, this decides for
which chunks `dropped_frames` is the number of upstream frames missing between
the chunk's first and last frame.
-/

namespace VoiceHotPath

/-- Sequence numbers strictly increase, each time by less than `2 ^ 32`. -/
def Increasing (frames : List AudioFrame) : Prop :=
  ∀ (i : Nat) (before after : AudioFrame), frames[i]? = some before →
    frames[i + 1]? = some after →
      before.hdr.seq < after.hdr.seq ∧
        after.hdr.seq.toNat - before.hdr.seq.toNat < 2 ^ 32

instance (frames : List AudioFrame) : Decidable (Increasing frames) :=
  decidable_of_iff
    (frames.IsChain fun before after => before.hdr.seq < after.hdr.seq ∧
      after.hdr.seq.toNat - before.hdr.seq.toNat < 2 ^ 32)
    (by
      rw [List.isChain_iff_getElem]
      constructor
      · intro chain i before after here there
        obtain ⟨inside, rfl⟩ := List.getElem?_eq_some_iff.mp there
        obtain ⟨_, rfl⟩ := List.getElem?_eq_some_iff.mp here
        exact chain i inside
      · intro increasing i inside
        exact increasing i _ _ (List.getElem?_eq_getElem (by omega))
          (List.getElem?_eq_getElem inside))

/-- Upstream frames missing just before the frame at a position, uncounted by any code. -/
def missingBefore (frames : List AudioFrame) : Nat → Nat
  | 0 => 0
  | i + 1 =>
      match frames[i]?, frames[i + 1]? with
      | some before, some after => after.hdr.seq.toNat - before.hdr.seq.toNat - 1
      | _, _ => 0

/-- Upstream frames missing just before the positions `[start, stop)`. -/
def missing (frames : List AudioFrame) (start stop : Nat) : Nat :=
  ((List.range' start (stop - start)).map (missingBefore frames)).sum

@[simp] theorem missing_self (frames : List AudioFrame) (start : Nat) :
    missing frames start start = 0 := by
  simp [missing]

theorem missing_succ (frames : List AudioFrame) {start stop : Nat} (order : start ≤ stop) :
    missing frames start (stop + 1) = missing frames start stop + missingBefore frames stop := by
  have width : stop + 1 - start = stop - start + 1 := by omega
  have last : start + (stop - start) = stop := by omega
  simp [missing, width, List.range'_concat, last]

theorem missing_split (frames : List AudioFrame) {start middle stop : Nat}
    (before : start ≤ middle) (after : middle ≤ stop) :
    missing frames start stop = missing frames start middle + missing frames middle stop := by
  induction stop, after using Nat.le_induction with
  | base => simp
  | succ stop order ih =>
      rw [missing_succ frames (Nat.le_trans before order), missing_succ frames order, ih,
        Nat.add_assoc]

theorem missing_singleton (frames : List AudioFrame) (start : Nat) :
    missing frames start (start + 1) = missingBefore frames start := by
  rw [missing_succ frames (Nat.le_refl start), missing_self, Nat.zero_add]

theorem missingBefore_succ {frames : List AudioFrame} {i : Nat} {before after : AudioFrame}
    (here : frames[i]? = some before) (there : frames[i + 1]? = some after) :
    missingBefore frames (i + 1) = after.hdr.seq.toNat - before.hdr.seq.toNat - 1 := by
  simp only [missingBefore, here, there]

theorem gapBefore_succ {frames : List AudioFrame} {i : Nat} {before after : AudioFrame}
    (here : frames[i]? = some before) (there : frames[i + 1]? = some after) :
    gapBefore frames (i + 1) =
      if before.hdr.seq + 1 < after.hdr.seq then
        (after.hdr.seq - before.hdr.seq - 1).toUInt32
      else 0 := by
  simp only [gapBefore, here, there]

/-- Without a frame at a position there is no gap before it. -/
theorem no_gap_outside {frames : List AudioFrame} {i : Nat} (outside : frames[i]? = none) :
    missingBefore frames i = 0 ∧ gapBefore frames i = 0 := by
  cases i with
  | zero => exact ⟨rfl, rfl⟩
  | succ i => cases here : frames[i]? <;> simp [missingBefore, gapBefore, here, outside]

theorem missingBefore_lt {frames : List AudioFrame} (increasing : Increasing frames) (i : Nat) :
    missingBefore frames i < 2 ^ 32 := by
  cases there : frames[i]? with
  | none =>
      rw [(no_gap_outside there).1]
      exact Nat.two_pow_pos 32
  | some after =>
      cases i with
      | zero => exact Nat.two_pow_pos 32
      | succ i =>
          obtain ⟨inside, -⟩ := List.getElem?_eq_some_iff.mp there
          have here : frames[i]? = some frames[i] := List.getElem?_eq_getElem (by omega)
          have jump := (increasing i _ _ here there).2
          rw [missingBefore_succ here there]
          omega

/-- The difference the counter adds, for sequence numbers in increasing order. -/
theorem toNat_seq_gap {before after : UInt64} (order : before < after)
    (jump : after.toNat - before.toNat < 2 ^ 32) :
    (if before + 1 < after then (after - before - 1).toUInt32 else 0).toNat =
      after.toNat - before.toNat - 1 := by
  have lower := UInt64.lt_iff_toNat_lt.mp order
  have next := WrappingCounter.toNat_succ_of_lt order
  have apart : (after - before).toNat = after.toNat - before.toNat :=
    UInt64.toNat_sub_of_le _ _ (UInt64.le_of_lt order)
  by_cases gap : before + 1 < after
  · have count : (after - before - 1).toNat = after.toNat - before.toNat - 1 := by
      rw [UInt64.toNat_sub_of_le, apart]
      · rfl
      · rw [UInt64.le_iff_toNat_le, apart]
        simp
        omega
    rw [if_pos gap, UInt64.toNat_toUInt32, count]
    exact Nat.mod_eq_of_lt (by omega)
  · have narrow := UInt64.le_iff_toNat_le.mp (UInt64.not_lt.mp gap)
    rw [if_neg gap]
    simp
    omega

/-- The counted gap is the true one as long as sequence numbers increase. -/
theorem toNat_gapBefore {frames : List AudioFrame} (increasing : Increasing frames) (i : Nat) :
    (gapBefore frames i).toNat = missingBefore frames i := by
  cases there : frames[i]? with
  | none =>
      obtain ⟨truly, counted⟩ := no_gap_outside there
      rw [truly, counted]
      rfl
  | some after =>
      cases i with
      | zero => rfl
      | succ i =>
          obtain ⟨inside, -⟩ := List.getElem?_eq_some_iff.mp there
          have here : frames[i]? = some frames[i] := List.getElem?_eq_getElem (by omega)
          obtain ⟨order, jump⟩ := increasing i _ _ here there
          rw [gapBefore_succ here there, missingBefore_succ here there]
          exact toNat_seq_gap order jump

theorem toNat_gapsBetween {frames : List AudioFrame} (increasing : Increasing frames)
    {start stop : Nat} (order : start ≤ stop) :
    (gapsBetween frames start stop).toNat = missing frames start stop % 2 ^ 32 := by
  induction stop, order using Nat.le_induction with
  | base => simp
  | succ stop order ih =>
      rw [gapsBetween_succ frames order, missing_succ frames order, UInt32.toNat_add, ih,
        toNat_gapBefore increasing, Nat.mod_add_mod]

/-- Sequence numbers advance by one for each frame and for each missing one. -/
theorem seq_span {frames : List AudioFrame} (increasing : Increasing frames)
    {start last : Nat} (order : start ≤ last) {first final : AudioFrame}
    (here : frames[start]? = some first) (there : frames[last]? = some final) :
    final.hdr.seq.toNat =
      first.hdr.seq.toNat + (last - start) + missing frames (start + 1) (last + 1) := by
  induction last, order using Nat.le_induction generalizing final with
  | base =>
      obtain rfl := Option.some.inj (here.symm.trans there)
      simp
  | succ last order ih =>
      obtain ⟨inside, -⟩ := List.getElem?_eq_some_iff.mp there
      have previous : frames[last]? = some frames[last] := List.getElem?_eq_getElem (by omega)
      have step := (increasing last _ _ previous there).1
      rw [missing_succ frames (by omega), missingBefore_succ previous there]
      have reached := ih previous
      have lower := UInt64.lt_iff_toNat_lt.mp step
      omega

namespace ChunkAssembler

/-- `dropped_frames` is what the sequence numbers say is missing inside the chunk. -/
def GapsReported (event : ChunkEvent) : Prop :=
  (event.droppedFrames.toNat : Int) =
    ((event.lastSeq.toNat : Int) - event.firstSeq.toNat + 1) - event.frameCount.toNat

instance (event : ChunkEvent) : Decidable (GapsReported event) :=
  inferInstanceAs (Decidable (_ = _))

/-- Nothing is missing where the counter was cleared, and no 32-bit count wraps. -/
structure GapsCountable (frames : List AudioFrame) (block : Closing) : Prop where
  length_lt : block.stop - block.start < 2 ^ 32
  missing_lt : missing frames (block.start + 1) block.stop < 2 ^ 32
  /-- An onset forgets the gaps up to its frame; a capped chunk leaves one to the next. -/
  opening :
    match block.onset with
    | some onset => missing frames (block.start + 1) (onset + 1) = 0
    | none => missingBefore frames block.start = 0

/-- Both sides of the report, over the positions of the block. -/
theorem gapsReported_iff_missing {maxBytes : Nat} {frames : List AudioFrame}
    (increasing : Increasing frames) {event : ChunkEvent} {block : Closing}
    (describes : Describes maxBytes frames event block) (nonempty : block.start < block.stop)
    (from_le : gapsFrom block.start block.onset ≤ block.stop) :
    GapsReported event ↔
      missing frames (gapsFrom block.start block.onset) block.stop % 2 ^ 32 +
          (block.stop - block.start) % 2 ^ 32 =
        missing frames (block.start + 1) block.stop + (block.stop - block.start) := by
  have records := recordsBlock_of_describes (Nat.le_of_lt nonempty) describes
  obtain ⟨first, last, here, there, firstSeq, lastSeq⟩ := records.ends nonempty
  have span := seq_span increasing (by omega) here there
  have final : block.stop - 1 + 1 = block.stop := by omega
  have dropped := toNat_gapsBetween increasing from_le
  have count : event.frameCount.toNat = (block.stop - block.start) % 2 ^ 32 := by
    rw [records.frameCount]
    exact UInt32.toNat_ofNat'
  rw [final] at span
  rw [← describes.droppedFrames] at dropped
  rw [GapsReported, dropped, count, firstSeq, lastSeq]
  omega

/-- For one described block, the report is right exactly when the gaps are countable. -/
theorem gapsReported_iff {maxBytes : Nat} {frames : List AudioFrame}
    (increasing : Increasing frames) {event : ChunkEvent} {block : Closing}
    (describes : Describes maxBytes frames event block) (nonempty : block.start < block.stop)
    (onsetInside : ∀ onset, block.onset = some onset →
      block.start ≤ onset ∧ onset < block.stop) :
    GapsReported event ↔ GapsCountable frames block := by
  cases opened : block.onset with
  | some onset =>
      obtain ⟨after, before⟩ := onsetInside onset opened
      rw [gapsReported_iff_missing increasing describes nonempty
        (by simp only [gapsFrom, opened]; omega)]
      have split := missing_split frames (Nat.succ_le_succ after) (Nat.succ_le_of_lt before)
      simp only [gapsFrom, opened]
      simp only [Nat.succ_eq_add_one] at split
      constructor
      · intro balanced
        refine ⟨by omega, by omega, ?_⟩
        rw [opened]
        dsimp only
        omega
      · rintro ⟨short, few, opening⟩
        rw [opened] at opening
        dsimp only at opening
        rw [Nat.mod_eq_of_lt short, Nat.mod_eq_of_lt (by omega)]
        omega
  | none =>
      rw [gapsReported_iff_missing increasing describes nonempty
        (by simp only [gapsFrom, opened]; omega)]
      have split := missing_split frames (Nat.le_succ block.start) nonempty
      have small := missingBefore_lt increasing block.start
      simp only [Nat.succ_eq_add_one, missing_singleton] at split
      simp only [gapsFrom, opened]
      constructor
      · intro balanced
        refine ⟨by omega, by omega, ?_⟩
        rw [opened]
        dsimp only
        omega
      · rintro ⟨short, few, opening⟩
        rw [opened] at opening
        dsimp only at opening
        rw [Nat.mod_eq_of_lt short, Nat.mod_eq_of_lt (by omega)]
        omega

section

variable {D : Type} [Double D]

/--
Over every run on increasing sequence numbers, the events that report their
gaps are those of the blocks whose gaps are countable.
-/
theorem gapsReported_iff_countable (config : ChunkerConfig D) (calls : List Call)
    (increasing : Increasing (receivedFrames calls)) :
    List.Forall₂ (Option.Rel fun event block => RecordsBlock (receivedFrames calls) event block ∧
        (1 ≤ event.frameCount →
          (GapsReported event ↔ GapsCountable (receivedFrames calls) block)))
      (events config calls) (ledger config calls) := by
  have chained := ledger_chained config calls
  have described := events_described config calls
  rw [List.forall₂_iff_get] at described ⊢
  refine ⟨described.1, fun i here there => ?_⟩
  have related := described.2 i here there
  revert related
  generalize same : (ledger config calls).get ⟨i, there⟩ = closing
  generalize (events config calls).get ⟨i, here⟩ = event
  intro related
  cases related with
  | none => exact .none
  | @some event block describes =>
      have member : block ∈ (ledger config calls).filterMap id :=
        List.mem_filterMap.mpr ⟨_, List.get_mem _ ⟨i, there⟩, same⟩
      obtain ⟨before, follows⟩ := chained.follows block member
      refine .some ⟨recordsBlock_of_describes follows.start_le_stop describes, fun counted => ?_⟩
      have nonempty : block.start < block.stop := by
        by_contra empty
        have none : block.stop - block.start = 0 := by omega
        rw [describes.frameCount, none] at counted
        exact absurd counted (by decide)
      exact gapsReported_iff increasing describes nonempty fun onset => follows.onset_inside

end

section

open Scenario

/-- Two upstream frames are lost between the pre-roll and the onset. -/
def gapBeforeOnset : List Call :=
  [.frame (silentFrame 0) 0, .frame (silentFrame 1) 20000000, .frame (toneFrame 4) 40000000,
    .frame (toneFrame 5) 60000000, .frame (silentFrame 6) 80000000,
    .frame (silentFrame 7) 100000000]

/-- The chunk of that run: five of the seven frames from 1 to 7. -/
def gapBeforeOnsetEvent : ChunkEvent :=
  { firstSeq := 1
    lastSeq := 7
    tFirstFrameNs := 2000
    tSpeechStartNs := 60000000
    tEndpointNs := 100000000
    frameCount := 5
    byteCount := 10
    reason := .hangover }

theorem gapsReported_fails_before_onset :
    Increasing (receivedFrames gapBeforeOnset) ∧
      some gapBeforeOnsetEvent ∈ events shortConfig gapBeforeOnset ∧
      1 ≤ gapBeforeOnsetEvent.frameCount ∧ ¬ GapsReported gapBeforeOnsetEvent := by
  decide +kernel

/-- The same run with its losses after the onset. -/
def gapAfterOnset : List Call :=
  [.frame (silentFrame 0) 0, .frame (toneFrame 1) 20000000, .frame (toneFrame 2) 40000000,
    .frame (toneFrame 5) 60000000, .frame (silentFrame 6) 80000000,
    .frame (silentFrame 7) 100000000]

theorem gapsReported_iff_countable_gapAfterOnset :
    List.Forall₂ (Option.Rel fun event block =>
        RecordsBlock (receivedFrames gapAfterOnset) event block ∧ (1 ≤ event.frameCount →
          (GapsReported event ↔ GapsCountable (receivedFrames gapAfterOnset) block)))
      (events shortConfig gapAfterOnset) (ledger shortConfig gapAfterOnset) :=
  gapsReported_iff_countable shortConfig gapAfterOnset (by decide +kernel)

end

end ChunkAssembler

end VoiceHotPath
