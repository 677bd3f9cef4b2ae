import VoiceHotPath.Vad.Refinement

/-!
# Reusing an assembler

An assembler that has served one call is handed to the next as it is.  Two
assemblers are alike when no later call can tell them apart; a used assembler
is alike a new one exactly when it is neutral.
-/

namespace VoiceHotPath

namespace SpeechThresholdGate

section

variable {D : Type} [Double D]

/-- No later frame tells the two gates apart. -/
structure Alike (reused fresh : SpeechThresholdGate D) : Prop where
  cfg : reused.cfg = fresh.cfg
  speaking : reused.speaking = fresh.speaking
  loudFrames : reused.loudFrames = fresh.loudFrames
  quietFrames : reused.speaking = true → reused.quietFrames = fresh.quietFrames
  cooling : ∀ nowNs, reused.cooling (ChunkAssembler.nsToMs nowNs) =
    fresh.cooling (ChunkAssembler.nsToMs nowNs)

variable {reused fresh : SpeechThresholdGate D}

theorem Alike.acceptQuiet (alike : reused.Alike fresh) :
    reused.acceptQuiet.Alike fresh.acceptQuiet := by
  unfold SpeechThresholdGate.acceptQuiet
  rw [← alike.speaking]
  split
  · rename_i going
    refine ⟨alike.cfg, ?_, rfl, fun _ => ?_, alike.cooling⟩
    · rw [alike.cfg, alike.quietFrames going]
    · rw [alike.quietFrames going]
  · exact ⟨alike.cfg, rfl, rfl, alike.quietFrames, alike.cooling⟩

theorem Alike.countLoud (alike : reused.Alike fresh) :
    reused.countLoud.Alike fresh.countLoud := by
  refine ⟨alike.cfg, alike.speaking, ?_, fun _ => rfl, alike.cooling⟩
  rw [loudFrames_countLoud, loudFrames_countLoud, alike.loudFrames]

theorem Alike.trigger (alike : reused.Alike fresh) (nowMs : D)
    (quiet : reused.quietFrames = fresh.quietFrames) :
    (reused.trigger nowMs).Alike (fresh.trigger nowMs) := by
  refine ⟨alike.cfg, ?_, ?_, fun _ => quiet, fun _ => ?_⟩
  · rw [SpeechThresholdGate.trigger, SpeechThresholdGate.trigger, alike.cfg]
  · rw [SpeechThresholdGate.trigger, SpeechThresholdGate.trigger, alike.cfg, alike.loudFrames]
  · unfold SpeechThresholdGate.cooling SpeechThresholdGate.trigger
    rw [alike.cfg]

theorem Alike.acceptLoud (alike : reused.Alike fresh) (nowNs : UInt64) :
    (reused.acceptLoud (ChunkAssembler.nsToMs nowNs)).1 =
        (fresh.acceptLoud (ChunkAssembler.nsToMs nowNs)).1 ∧
      (reused.acceptLoud (ChunkAssembler.nsToMs nowNs)).2.Alike
        (fresh.acceptLoud (ChunkAssembler.nsToMs nowNs)).2 := by
  have counted := alike.countLoud
  rcases acceptLoud_cases reused (ChunkAssembler.nsToMs nowNs) with
    ⟨going, same⟩ | ⟨-, early, same⟩ | ⟨-, -, held, same⟩ | ⟨idle, late, ready, same⟩
  · have same' : fresh.acceptLoud (ChunkAssembler.nsToMs nowNs) = (false, fresh.countLoud) := by
      simp [SpeechThresholdGate.acceptLoud, ← alike.speaking, going]
    rw [same, same']
    exact ⟨rfl, counted⟩
  · have same' : fresh.acceptLoud (ChunkAssembler.nsToMs nowNs) = (false, fresh.countLoud) := by
      simp [SpeechThresholdGate.acceptLoud, ← alike.loudFrames, ← alike.cfg, early]
    rw [same, same']
    exact ⟨rfl, counted⟩
  · have same' : fresh.acceptLoud (ChunkAssembler.nsToMs nowNs) = (false, fresh.countLoud) := by
      simp [SpeechThresholdGate.acceptLoud, ← alike.cooling nowNs, held]
    rw [same, same']
    exact ⟨rfl, counted⟩
  · have same' : fresh.acceptLoud (ChunkAssembler.nsToMs nowNs) =
        (true, fresh.countLoud.trigger (ChunkAssembler.nsToMs nowNs)) := by
      simp [SpeechThresholdGate.acceptLoud, ← alike.speaking, ← alike.loudFrames, ← alike.cfg,
        ← alike.cooling nowNs, idle, UInt32.not_lt.mpr late, ready]
    rw [same, same']
    exact ⟨rfl, counted.trigger _ rfl⟩

/-- Alike gates give one verdict and stay alike. -/
theorem Alike.accept (alike : reused.Alike fresh) (energy : AudioEnergy D) (nowNs : UInt64) :
    (reused.accept energy (ChunkAssembler.nsToMs nowNs)).1 =
        (fresh.accept energy (ChunkAssembler.nsToMs nowNs)).1 ∧
      (reused.accept energy (ChunkAssembler.nsToMs nowNs)).2.Alike
        (fresh.accept energy (ChunkAssembler.nsToMs nowNs)).2 := by
  cases loud : reused.cfg.loud energy with
  | true =>
      rw [accept_of_loud loud, accept_of_loud (alike.cfg ▸ loud)]
      exact alike.acceptLoud nowNs
  | false =>
      rw [accept_of_quiet loud, accept_of_quiet (alike.cfg ▸ loud)]
      exact ⟨rfl, alike.acceptQuiet⟩

/-- One frame adds at most one to the count of loud frames. -/
theorem loudFrames_accept_le (gate : SpeechThresholdGate D) (energy : AudioEnergy D)
    (nowMs : D) :
    (gate.accept energy nowMs).2.loudFrames.toNat ≤ gate.loudFrames.toNat + 1 := by
  have next : (gate.loudFrames + 1).toNat ≤ gate.loudFrames.toNat + 1 := by
    rw [UInt32.toNat_add]
    exact Nat.mod_le _ _
  cases loud : gate.cfg.loud energy with
  | false =>
      rw [accept_of_quiet loud, SpeechThresholdGate.acceptQuiet]
      split <;> exact Nat.zero_le _
  | true =>
      rw [accept_of_loud loud]
      rcases acceptLoud_cases gate nowMs with
        ⟨-, same⟩ | ⟨-, -, same⟩ | ⟨-, -, -, same⟩ | ⟨-, -, -, same⟩
      · rw [same]
        exact next
      · rw [same]
        exact next
      · rw [same]
        exact next
      · rw [same, SpeechThresholdGate.trigger]
        dsimp only
        split
        · exact next
        · exact Nat.zero_le _

/-- Without an onset a silent gate stays silent. -/
theorem speaking_of_no_onset {gate : SpeechThresholdGate D} {energy : AudioEnergy D} {nowMs : D}
    (idle : gate.speaking = false) (none : (gate.accept energy nowMs).1 = false) :
    (gate.accept energy nowMs).2.speaking = false := by
  cases loud : gate.cfg.loud energy with
  | false =>
      simp [accept_of_quiet loud, SpeechThresholdGate.acceptQuiet, idle]
  | true =>
      rw [accept_of_loud loud] at none ⊢
      rcases acceptLoud_cases gate nowMs with
        ⟨-, same⟩ | ⟨-, -, same⟩ | ⟨-, -, -, same⟩ | ⟨-, -, -, same⟩
      · rw [same]
        exact idle
      · rw [same]
        exact idle
      · rw [same]
        exact idle
      · rw [same] at none
        cases none

end

end SpeechThresholdGate

/-- An event but for its chunk id. -/
def ChunkEvent.unnumbered (event : ChunkEvent) : ChunkEvent :=
  { event with chunkId := 0 }

namespace ChunkAssembler

section

variable {D : Type}

/-- The two assemblers differ in gate, pre-roll and chunk counter at most. -/
def SameRecord (reused fresh : ChunkAssembler D) : Prop :=
  fresh = { reused with
    gate := fresh.gate
    preRoll := fresh.preRoll
    nextChunkId := fresh.nextChunkId }

variable {reused fresh : ChunkAssembler D}

theorem SameRecord.countGap (same : reused.SameRecord fresh) (seq : UInt64) :
    (reused.countGap seq).SameRecord (fresh.countGap seq) := by
  have counted := congrArg (fun assembler => assembler.countGap seq) same
  rw [SameRecord, counted]
  simp only [countGap_eq]

theorem SameRecord.append (same : reused.SameRecord fresh) (frame : AudioFrame) :
    (reused.append frame).SameRecord (fresh.append frame) := by
  have appended := congrArg (fun assembler => assembler.append frame) same
  rw [SameRecord, appended]
  simp only [append_eq]

/-- The chunk continued across the cap keeps its format, so it stays the same. -/
theorem SameRecord.reopen (same : reused.SameRecord fresh) (reason : CloseReason)
    (nowNs : UInt64) :
    ((reused.closeChunk reason nowNs).1.openChunk nowNs).SameRecord
      ((fresh.closeChunk reason nowNs).1.openChunk nowNs) := by
  have reopened :=
    congrArg (fun assembler => (assembler.closeChunk reason nowNs).1.openChunk nowNs) same
  rw [SameRecord, reopened]
  rfl

/-- Chunks of the same frames, at least one, have the same record. -/
theorem Carries.sameRecord {first : AudioFrame} {rest : List AudioFrame}
    (carries : reused.Carries (first :: rest)) (carries' : fresh.Carries (first :: rest))
    (cfg : reused.cfg = fresh.cfg) (active : reused.active = fresh.active)
    (lastSeqSeen : reused.lastSeqSeen = fresh.lastSeqSeen)
    (gapFrames : reused.gapFrames = fresh.gapFrames)
    (tSpeechStartNs : reused.tSpeechStartNs = fresh.tSpeechStartNs) :
    reused.SameRecord fresh := by
  have frameCount := carries.frameCount.trans carries'.frameCount.symm
  have haveFirst := carries.haveFirst.trans carries'.haveFirst.symm
  have firstSeq := carries.firstSeq.trans carries'.firstSeq.symm
  have lastSeq := carries.lastSeq.trans carries'.lastSeq.symm
  have tFirstFrameNs : reused.tFirstFrameNs = fresh.tFirstFrameNs :=
    carries.tFirstFrameNs.trans carries'.tFirstFrameNs.symm
  have format := (carries.format first rfl).trans (carries'.format first rfl).symm
  have buffer : reused.buffer = fresh.buffer := by
    rw [carries.buffer, carries'.buffer, cfg]
  unfold SameRecord
  rw [cfg, active, lastSeqSeen, gapFrames, tSpeechStartNs, frameCount, haveFirst, firstSeq,
    lastSeq, tFirstFrameNs, format, buffer]

end

section

variable {D : Type} [Double D]

/-- Fewer frames than the ring holds can never have opened a chunk since. -/
structure Unripe (assembler : ChunkAssembler D) (frames : List AudioFrame) : Prop where
  active : assembler.active = false
  speaking : assembler.gate.speaking = false
  cap : assembler.preRoll.cap < assembler.gate.cfg.speechFrames.toNat
  counted : assembler.gate.loudFrames.toNat ≤ frames.length

/-- No later call tells the two assemblers apart. -/
structure Alike (reused fresh : ChunkAssembler D) : Prop where
  cfg : reused.cfg = fresh.cfg
  gate : reused.gate.Alike fresh.gate
  active : reused.active = fresh.active
  record : reused.active = true → reused.SameRecord fresh
  cap : reused.preRoll.cap = fresh.preRoll.cap
  preRoll : ∃ old frames, reused.preRoll.Holds (old ++ frames) ∧ fresh.preRoll.Holds frames ∧
    (old = [] ∨ reused.Unripe frames)

variable {reused fresh : ChunkAssembler D}

theorem Alike.opens (alike : reused.Alike fresh) (frame : AudioFrame) (nowNs : UInt64) :
    reused.opens frame nowNs = fresh.opens frame nowNs := by
  obtain ⟨verdict, -⟩ := alike.gate.accept (frameEnergy frame) nowNs
  rw [ChunkAssembler.opens, ChunkAssembler.opens, gated, gated, verdict, alike.active]

/-- At an onset the old frames have left the ring. -/
theorem Alike.contents (alike : reused.Alike fresh) {frame : AudioFrame} {nowNs : UInt64}
    (opened : reused.opens frame nowNs = true) :
    reused.preRoll.contents = fresh.preRoll.contents := by
  obtain ⟨old, frames, holds, holds', aged⟩ := alike.preRoll
  rw [holds.contents_eq, holds'.contents_eq, ← alike.cap]
  rcases aged with rfl | unripe
  · rfl
  · rw [ChunkAssembler.opens, Bool.and_eq_true] at opened
    obtain ⟨-, -, ripe, -⟩ := (SpeechThresholdGate.onset_accept _ _ _).mp opened.1
    have reached : reused.gate.cfg.speechFrames.toNat ≤ reused.gate.loudFrames.toNat + 1 := by
      refine Nat.le_trans (UInt32.le_iff_toNat_le.mp ripe) ?_
      rw [UInt32.toNat_add]
      exact Nat.mod_le _ _
    have full : reused.preRoll.cap ≤ frames.length := by
      have small := unripe.cap
      have counted := unripe.counted
      omega
    rw [List.rtake, List.rtake, List.length_append, Nat.add_sub_assoc full,
      List.drop_append, List.drop_eq_nil_of_le (Nat.le_add_right _ _), List.nil_append]
    congr 1
    omega

/-- A fresh onset records the pre-roll and then its own frame. -/
theorem carries_of_opens {assembler : ChunkAssembler D} {frame : AudioFrame} {nowNs : UInt64}
    (opened : assembler.opens frame nowNs = true) :
    (assembler.gatedState frame nowNs).active = true ∧
      ((assembler.gatedState frame nowNs).append frame).Carries
        (assembler.preRoll.contents ++ [frame]) := by
  constructor
  · rw [active_gatedState, opened]
    rfl
  · rw [gatedState_of_opens opened]
    have filled := carries_openOnPreRoll { assembler.countGap frame.hdr.seq with
      gate := (assembler.gated frame nowNs).2 } nowNs
    rw [countGap_eq] at filled ⊢
    exact filled.append frame

theorem Alike.routed_of_opens (alike : reused.Alike fresh) {frame : AudioFrame} {nowNs : UInt64}
    (opened : reused.opens frame nowNs = true) :
    ((reused.gatedState frame nowNs).routeFrame frame).Alike
      ((fresh.gatedState frame nowNs).routeFrame frame) := by
  have opened' : fresh.opens frame nowNs = true := (alike.opens frame nowNs).symm.trans opened
  have gates := (alike.gate.accept (frameEnergy frame) nowNs).2
  obtain ⟨active, carries⟩ := carries_of_opens opened
  obtain ⟨active', carries'⟩ := carries_of_opens opened'
  rw [alike.contents opened] at carries
  rw [routeFrame, routeFrame, if_pos active, if_pos active']
  refine ⟨?_, ?_, ?_, fun _ => ?_, ?_, [], [], ?_, ?_, .inl rfl⟩
  · simpa using alike.cfg
  · simpa [gated] using gates
  · rw [active_append, active_append, active, active']
  · obtain ⟨first, rest, contents⟩ : ∃ first rest,
        fresh.preRoll.contents ++ [frame] = first :: rest := by
      cases fresh.preRoll.contents with
      | nil => exact ⟨frame, [], rfl⟩
      | cons first rest => exact ⟨first, rest ++ [frame], rfl⟩
    rw [contents] at carries carries'
    apply carries.sameRecord carries'
    · simpa using alike.cfg
    · rw [active_append, active_append, active, active']
    · simp
    · simp [gatedState_of_opens opened, gatedState_of_opens opened']
    · simp [tSpeechStartNs_gatedState, opened, opened']
  · simpa using alike.cap
  · rw [preRoll_append, gatedState_of_opens opened, preRoll_openOnPreRoll]
    exact OverwriteRing.holds_clear _
  · rw [preRoll_append, gatedState_of_opens opened', preRoll_openOnPreRoll]
    exact OverwriteRing.holds_clear _

theorem Alike.routed_of_not_opens (alike : reused.Alike fresh) {frame : AudioFrame}
    {nowNs : UInt64} (closed : reused.opens frame nowNs = false) :
    ((reused.gatedState frame nowNs).routeFrame frame).Alike
      ((fresh.gatedState frame nowNs).routeFrame frame) := by
  have closed' : fresh.opens frame nowNs = false := (alike.opens frame nowNs).symm.trans closed
  have gates := (alike.gate.accept (frameEnergy frame) nowNs).2
  obtain ⟨old, frames, holds, holds', aged⟩ := alike.preRoll
  cases active : reused.active with
  | true =>
      have same := (alike.record active).countGap frame.hdr.seq
      have active' := alike.active.symm.trans active
      have gated : ({ reused.countGap frame.hdr.seq with
          gate := (reused.gated frame nowNs).2 }).SameRecord
          { fresh.countGap frame.hdr.seq with gate := (fresh.gated frame nowNs).2 } := by
        rw [SameRecord] at same
        rw [SameRecord, same]
      have young : old = [] := by
        rcases aged with rfl | unripe
        · rfl
        · rw [unripe.active] at active
          cases active
      rw [gatedState_of_not_opens closed, gatedState_of_not_opens closed']
      rw [countGap_eq, countGap_eq] at gated ⊢
      rw [routeFrame, routeFrame, if_pos active, if_pos active']
      refine ⟨?_, ?_, ?_, fun _ => gated.append frame, ?_, old, frames, ?_, ?_, .inl young⟩
      · simpa using alike.cfg
      · simpa [ChunkAssembler.gated] using gates
      · simpa using alike.active
      · simpa using alike.cap
      · simpa using holds
      · simpa using holds'
  | false =>
      have active' := alike.active.symm.trans active
      rw [gatedState_of_not_opens closed, gatedState_of_not_opens closed', countGap_eq,
        countGap_eq]
      have idle : ¬ reused.active = true := by simp [active]
      have idle' : ¬ fresh.active = true := by simp [active']
      rw [routeFrame, routeFrame, if_neg idle, if_neg idle']
      refine ⟨alike.cfg, gates, alike.active, fun going => absurd going idle, ?_, old,
        frames ++ [frame], ?_, holds'.push frame, ?_⟩
      · simpa using alike.cap
      · rw [← List.append_assoc]
        exact holds.push frame
      · refine aged.imp_right fun unripe => ⟨active, ?_, ?_, ?_⟩
        · rw [ChunkAssembler.opens, active, Bool.not_false, Bool.and_true] at closed
          exact SpeechThresholdGate.speaking_of_no_onset unripe.speaking closed
        · have small := unripe.cap
          simpa [ChunkAssembler.gated] using small
        · have counted := unripe.counted
          have grown := reused.gate.loudFrames_accept_le (frameEnergy frame) (nsToMs nowNs)
          rw [List.length_append, List.length_singleton]
          exact Nat.le_trans grown (Nat.succ_le_succ counted)

/-- The state in which a call runs its closing tests stays alike. -/
theorem Alike.prepared (alike : reused.Alike fresh) (next : Call) :
    (reused.prepared next).Alike (fresh.prepared next) := by
  cases next with
  | frame frame nowNs =>
      cases opened : reused.opens frame nowNs with
      | true => exact alike.routed_of_opens opened
      | false => exact alike.routed_of_not_opens opened
  | flush nowNs => exact alike

/-- What a call publishes: the event but for the chunk id, and the audio of its chunk. -/
def published (assembler : ChunkAssembler D) (next : Call) : Option (ChunkEvent × List UInt8) :=
  (assembler.call next).2.map fun event => (event.unnumbered, (assembler.prepared next).buffer)

/-- A call and what it publishes. -/
def publish (assembler : ChunkAssembler D) (next : Call) :
    ChunkAssembler D × Option (ChunkEvent × List UInt8) :=
  ((assembler.call next).1, assembler.published next)

theorem Alike.young (alike : reused.Alike fresh) (active : reused.active = true) :
    ∃ frames, reused.preRoll.Holds frames ∧ fresh.preRoll.Holds frames := by
  obtain ⟨old, frames, holds, holds', rfl | unripe⟩ := alike.preRoll
  · exact ⟨frames, holds, holds'⟩
  · rw [unripe.active] at active
    cases active

theorem Alike.closeChunk (alike : reused.Alike fresh) (active : reused.active = true)
    (reason : CloseReason) (nowNs : UInt64) :
    (reused.closeChunk reason nowNs).1.Alike (fresh.closeChunk reason nowNs).1 ∧
      (reused.closeChunk reason nowNs).2.map ChunkEvent.unnumbered =
        (fresh.closeChunk reason nowNs).2.map ChunkEvent.unnumbered := by
  obtain ⟨frames, holds, holds'⟩ := alike.young active
  constructor
  · exact ⟨alike.cfg, alike.gate, rfl, (fun going => by cases going), alike.cap, [], frames,
      holds, holds', .inl rfl⟩
  · have same := alike.record active
    rw [SameRecord] at same
    rw [same]
    rfl

theorem Alike.reopen (alike : reused.Alike fresh) (active : reused.active = true)
    (reason : CloseReason) (nowNs : UInt64) :
    ((reused.closeChunk reason nowNs).1.openChunk nowNs).Alike
      ((fresh.closeChunk reason nowNs).1.openChunk nowNs) := by
  obtain ⟨frames, holds, holds'⟩ := alike.young active
  exact ⟨alike.cfg, alike.gate, rfl, fun _ => (alike.record active).reopen reason nowNs,
    alike.cap, [], frames, holds, holds', .inl rfl⟩

/-- Alike assemblers run their closing tests to the same end. -/
theorem Alike.closeFrame (alike : reused.Alike fresh) (nowNs : UInt64) :
    (reused.closeFrame nowNs).1.Alike (fresh.closeFrame nowNs).1 ∧
      (reused.closeFrame nowNs).2.map ChunkEvent.unnumbered =
        (fresh.closeFrame nowNs).2.map ChunkEvent.unnumbered := by
  have elapsed : reused.active = true → reused.elapsedMs nowNs = fresh.elapsedMs nowNs := by
    intro active
    have same := alike.record active
    rw [SameRecord] at same
    rw [same]
    rfl
  rcases closeFrame_cases reused nowNs with ⟨active, same⟩ | ⟨active, speaking, same⟩ |
    ⟨active, speaking, capped, same⟩ | ⟨active, speaking, below, same⟩
  · have same' : fresh.closeFrame nowNs = (fresh, none) := by
      simp [ChunkAssembler.closeFrame, ← alike.active, active]
    rw [same, same']
    exact ⟨alike, rfl⟩
  · have same' : fresh.closeFrame nowNs = fresh.closeChunk .hangover nowNs := by
      simp [ChunkAssembler.closeFrame, ← alike.active, active, ← alike.gate.speaking, speaking]
    rw [same, same']
    exact alike.closeChunk active .hangover nowNs
  · have same' : fresh.closeFrame nowNs =
        ((fresh.closeChunk .maxLength nowNs).1.openChunk nowNs,
          (fresh.closeChunk .maxLength nowNs).2) := by
      rw [alike.cfg, elapsed active] at capped
      simp [ChunkAssembler.closeFrame, ← alike.active, active, ← alike.gate.speaking, speaking,
        capped]
    rw [same, same']
    exact ⟨alike.reopen active .maxLength nowNs, (alike.closeChunk active .maxLength nowNs).2⟩
  · have same' : fresh.closeFrame nowNs = (fresh, none) := by
      rw [alike.cfg, elapsed active] at below
      simp [ChunkAssembler.closeFrame, ← alike.active, active, ← alike.gate.speaking, speaking,
        below]
    rw [same, same']
    exact ⟨alike, rfl⟩

theorem Alike.flush (alike : reused.Alike fresh) (nowNs : UInt64) :
    (reused.flush nowNs).1.Alike (fresh.flush nowNs).1 ∧
      (reused.flush nowNs).2.map ChunkEvent.unnumbered =
        (fresh.flush nowNs).2.map ChunkEvent.unnumbered := by
  rw [ChunkAssembler.flush, ChunkAssembler.flush, ← alike.active]
  cases active : reused.active with
  | false => exact ⟨alike, rfl⟩
  | true => exact alike.closeChunk active .streamEnd nowNs

theorem Alike.call (alike : reused.Alike fresh) (next : Call) :
    (reused.call next).1.Alike (fresh.call next).1 ∧
      (reused.call next).2.map ChunkEvent.unnumbered =
        (fresh.call next).2.map ChunkEvent.unnumbered := by
  cases next with
  | frame frame nowNs => exact (alike.prepared (.frame frame nowNs)).closeFrame nowNs
  | flush nowNs => exact alike.flush nowNs

/-- A call publishes only while a chunk is open. -/
theorem active_of_call {assembler : ChunkAssembler D} {next : Call} {event : ChunkEvent}
    (closed : (assembler.call next).2 = some event) : (assembler.prepared next).active = true := by
  cases active : (assembler.prepared next).active with
  | true => rfl
  | false =>
      cases next with
      | frame frame nowNs =>
          have quiet : ((assembler.prepared (.frame frame nowNs)).closeFrame nowNs).2 = none := by
            rw [ChunkAssembler.closeFrame, active]
            rfl
          exact absurd (quiet.symm.trans closed) (by simp)
      | flush nowNs =>
          have quiet : (assembler.flush nowNs).2 = none := by
            rw [ChunkAssembler.flush, show assembler.active = false from active]
            rfl
          exact absurd (quiet.symm.trans closed) (by simp)

theorem Alike.publish (alike : reused.Alike fresh) (next : Call) :
    (reused.publish next).1.Alike (fresh.publish next).1 ∧
      (reused.publish next).2 = (fresh.publish next).2 := by
  obtain ⟨stepped, events⟩ := alike.call next
  refine ⟨stepped, ?_⟩
  change reused.published next = fresh.published next
  rw [published, published]
  cases closed : (reused.call next).2 with
  | none =>
      rw [closed] at events
      rw [Option.map_eq_none_iff.mp events.symm]
      rfl
  | some event =>
      have same := (alike.prepared next).record (active_of_call closed)
      have buffers : (fresh.prepared next).buffer = (reused.prepared next).buffer := by
        rw [SameRecord] at same
        rw [same]
      rw [closed, Option.map_some] at events
      obtain ⟨event', closed', unnumbered⟩ := Option.map_eq_some_iff.mp events.symm
      rw [closed', Option.map_some, Option.map_some, buffers, unnumbered]

end

end ChunkAssembler

end VoiceHotPath
