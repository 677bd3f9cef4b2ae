import VoiceHotPath.Vad.ChunkAudio

/-!
# Chunks with frames in them

An event is genuine when it counts at least one frame and names frames that
were received.  A chunk closed by `on_frame` holds at least that frame; only a
flush can close the chunk that a force-flush has just opened.
-/

namespace VoiceHotPath

namespace ChunkAssembler

/-- The event counts a frame, and its first and its last are frames received. -/
structure Genuine (frames : List AudioFrame) (event : ChunkEvent) : Prop where
  counted : 1 ≤ event.frameCount
  first : ∃ frame ∈ frames, event.firstSeq = frame.hdr.seq ∧
    event.tFirstFrameNs = frame.hdr.tProduceNs
  last : ∃ frame ∈ frames, event.lastSeq = frame.hdr.seq

/-- A genuine event stays so under another session id. -/
theorem genuine_congr {frames : List AudioFrame} {event closed : ChunkEvent}
    (same : event = { closed with sessionId := event.sessionId }) :
    Genuine frames event ↔ Genuine frames closed := by
  rw [same]
  constructor
  · rintro ⟨counted, first, last⟩
    exact ⟨counted, first, last⟩
  · rintro ⟨counted, first, last⟩
    exact ⟨counted, first, last⟩

section

variable {D : Type}

/-- The call is a flush, and no frame has reached the open chunk yet. -/
def cutsEmpty (assembler : ChunkAssembler D) (next : Call) : Bool :=
  next.frame?.isNone && assembler.active && !assembler.haveFirst

theorem active_of_flush {assembler : ChunkAssembler D} {nowNs : UInt64} {event : ChunkEvent}
    (published : (assembler.flush nowNs).2 = some event) : assembler.active = true := by
  cases opened : assembler.active with
  | true => rfl
  | false =>
      rw [flush, opened] at published
      cases published

end

section

variable {maxBytes : Nat} {frames : List AudioFrame} {event : ChunkEvent} {closing : Closing}

/-- The count wraps at 32 bits. -/
theorem counted_iff_of_describes (describes : Describes maxBytes frames event closing) :
    1 ≤ event.frameCount ↔ ¬ 2 ^ 32 ∣ (slice frames closing.start closing.stop).length := by
  have length : (slice frames closing.start closing.stop).length =
      closing.stop - closing.start := length_slice describes.stop_le
  have count : event.frameCount.toNat =
      (slice frames closing.start closing.stop).length % 2 ^ 32 := by
    rw [describes.frameCount, length]
    exact UInt32.toNat_ofNat'
  rw [UInt32.le_iff_toNat_le, count, Nat.dvd_iff_mod_eq_zero]
  exact Nat.one_le_iff_ne_zero

/-- A described event that counts a frame is genuine. -/
theorem genuine_of_counted (describes : Describes maxBytes frames event closing)
    (counted : 1 ≤ event.frameCount) : Genuine frames event := by
  have within : ∀ frame ∈ slice frames closing.start closing.stop, frame ∈ frames :=
    fun frame member => List.mem_of_mem_drop (List.mem_of_mem_take member)
  have some : slice frames closing.start closing.stop ≠ [] := by
    intro empty
    have whole := (counted_iff_of_describes describes).mp counted
    rw [empty] at whole
    exact whole (Nat.dvd_zero _)
  have head := List.head?_eq_some_head some
  have last := List.getLast?_eq_some_getLast some
  obtain ⟨produced, -⟩ := describes.firstFrame _ head
  refine ⟨counted, ⟨_, within _ (List.head_mem some), ?_, produced⟩,
    _, within _ (List.getLast_mem some), ?_⟩
  · rw [describes.firstSeq, head]
    rfl
  · rw [describes.lastSeq, last]
    rfl

end

section

variable {D : Type} [Double D] {config : ChunkerConfig D} {past : List Call} {next : Call}
  {event : ChunkEvent}

theorem describes_chunk (published : ((after config past).call next).2 = some event) :
    ∃ closing, closingOf config past next = some closing ∧
      Describes config.maxChunkBytes (receivedFrames (past ++ [next])) event closing ∧
      chunkFrames config past next =
        slice (receivedFrames (past ++ [next])) closing.start closing.stop := by
  have related := (tracks_call (tracks_after config past) next).2
  have frames : receivedFrames past ++ next.frame?.toList =
      receivedFrames (past ++ [next]) := by
    rw [receivedFrames_append]
    cases next <;> rfl
  obtain ⟨closing, closed⟩ := closingOf_isSome published
  change Option.Rel _ _ (closingOf config past next) at related
  rw [published, closed, frames] at related
  cases related with
  | some describes =>
      refine ⟨closing, closed, describes, ?_⟩
      rw [chunkFrames, closed]

/-- The frame has reached the open chunk before the closing tests. -/
theorem haveFirst_of_active {assembler : ChunkAssembler D} {frame : AudioFrame} {nowNs : UInt64}
    (routed : (assembler.prepared (.frame frame nowNs)).active = true) :
    (assembler.prepared (.frame frame nowNs)).haveFirst = true := by
  have active : (assembler.gatedState frame nowNs).active = true :=
    (active_routeFrame _ frame).symm.trans routed
  rw [prepared, routeFrame, if_pos active, append_eq]

/-- A chunk that `on_frame` closes holds the frame. -/
theorem haveFirst_prepared {assembler : ChunkAssembler D} {frame : AudioFrame} {nowNs : UInt64}
    (published : (assembler.call (.frame frame nowNs)).2 = some event) :
    (assembler.prepared (.frame frame nowNs)).haveFirst = true := by
  change ((assembler.prepared (.frame frame nowNs)).closeFrame nowNs).2 = some event at published
  apply haveFirst_of_active
  rcases closeFrame_cases (assembler.prepared (.frame frame nowNs)) nowNs with
    ⟨-, same⟩ | ⟨active, -, -⟩ | ⟨active, -, -, -⟩ | ⟨active, -, -, -⟩
  · rw [same] at published
    cases published
  · exact active
  · exact active
  · exact active

/-- Only a force-flush leaves an open chunk that no frame has reached. -/
theorem unfilled_call_iff (assembler : ChunkAssembler D) (next : Call) :
    (assembler.call next).1.active = true ∧ (assembler.call next).1.haveFirst = false ↔
      ∃ event, (assembler.call next).2 = some event ∧ event.reason = .maxLength := by
  cases next with
  | frame frame nowNs =>
      change ((assembler.prepared (.frame frame nowNs)).closeFrame nowNs).1.active = true ∧
        ((assembler.prepared (.frame frame nowNs)).closeFrame nowNs).1.haveFirst = false ↔
        ∃ event, ((assembler.prepared (.frame frame nowNs)).closeFrame nowNs).2 = some event ∧ _
      rcases closeFrame_cases (assembler.prepared (.frame frame nowNs)) nowNs with
        ⟨inactive, same⟩ | ⟨-, -, same⟩ | ⟨-, -, -, same⟩ | ⟨active, -, -, same⟩
      · simp [same, inactive]
      · simp [same, closeChunk]
      · simp [same, closeChunk, openChunk]
      · simp [same, haveFirst_of_active active]
  | flush nowNs =>
      change (assembler.flush nowNs).1.active = true ∧ (assembler.flush nowNs).1.haveFirst = false ↔
        ∃ event, (assembler.flush nowNs).2 = some event ∧ _
      cases opened : assembler.active with
      | false => simp [flush, opened]
      | true => simp [flush, opened, closeChunk]

/-- In a history an empty chunk is cut off exactly by a flush directly after a force-flush. -/
theorem cutsEmpty_after_iff (config : ChunkerConfig D) (past : List Call) (next : Call) :
    cutsEmpty (after config past) next = true ↔
      next.frame? = none ∧ ∃ earlier last event, past = earlier ++ [last] ∧
        ((after config earlier).call last).2 = some event ∧ event.reason = .maxLength := by
  have cut : cutsEmpty (after config past) next = true ↔ next.frame? = none ∧
      (after config past).active = true ∧ (after config past).haveFirst = false := by
    simp [cutsEmpty, and_assoc]
  rw [cut]
  apply and_congr_right'
  cases past using List.reverseRecOn with
  | nil =>
      constructor
      · rintro ⟨opened, -⟩
        cases opened
      · rintro ⟨earlier, last, event, absent, -⟩
        simp at absent
  | append_singleton earlier last =>
      rw [after_snoc, unfilled_call_iff]
      constructor
      · rintro ⟨event, published, reason⟩
        exact ⟨earlier, last, event, rfl, published, reason⟩
      · rintro ⟨earlier', last', event, same, published, reason⟩
        obtain ⟨rfl, rfl⟩ := List.append_singleton_inj.mp same
        exact ⟨event, published, reason⟩

/-- A closed chunk is empty exactly if a flush cuts it off before its first frame. -/
theorem chunkFrames_eq_nil (published : ((after config past).call next).2 = some event) :
    chunkFrames config past next = [] ↔ cutsEmpty (after config past) next = true := by
  obtain ⟨closing, closed, -, -⟩ := describes_chunk published
  obtain ⟨carries, -⟩ := carries_prepared closed
  have first := carries.haveFirst
  rw [← List.isEmpty_iff]
  cases next with
  | frame frame nowNs =>
      rw [haveFirst_prepared published] at first
      have some : (chunkFrames config past (.frame frame nowNs)).isEmpty = false :=
        (Bool.not_eq_true' _).mp first.symm
      rw [some]
      exact ⟨(fun absent => by cases absent), (fun absent => by cases absent)⟩
  | flush nowNs =>
      have opened : (after config past).active = true := active_of_flush published
      change (after config past).haveFirst = _ at first
      simp [cutsEmpty, Call.frame?, first, opened]

/-- The call does not cut off an empty chunk, and the frames of the chunk it closes are
not a positive multiple of `2 ^ 32`. -/
def MeetsFrames (config : ChunkerConfig D) (past : List Call) (next : Call) : Prop :=
  cutsEmpty (after config past) next = false ∧
    (0 < (chunkFrames config past next).length →
      ¬ 2 ^ 32 ∣ (chunkFrames config past next).length)

/-- A published event is genuine exactly if the call that closed its chunk met frames. -/
theorem genuine_iff (published : ((after config past).call next).2 = some event) :
    Genuine (receivedFrames (past ++ [next])) event ↔ MeetsFrames config past next := by
  obtain ⟨closing, -, describes, frames⟩ := describes_chunk published
  have empty := chunkFrames_eq_nil published
  have whole : Genuine (receivedFrames (past ++ [next])) event ↔
      ¬ 2 ^ 32 ∣ (chunkFrames config past next).length := by
    rw [frames, ← counted_iff_of_describes describes]
    exact ⟨Genuine.counted, genuine_of_counted describes⟩
  rw [whole, MeetsFrames]
  cases cut : cutsEmpty (after config past) next with
  | true =>
      rw [empty.mpr cut]
      simp
  | false =>
      have some : chunkFrames config past next ≠ [] := fun absent => by
        rw [empty.mp absent] at cut
        cases cut
      simp [List.length_pos_of_ne_nil some]

/-- Any event that counts a frame is genuine. -/
theorem genuine_of_published (published : ((after config past).call next).2 = some event)
    (counted : 1 ≤ event.frameCount) : Genuine (receivedFrames (past ++ [next])) event := by
  obtain ⟨closing, -, describes, -⟩ := describes_chunk published
  exact genuine_of_counted describes counted

/-- A call that closes nothing meets frames. -/
theorem meetsFrames_of_unpublished (quiet : ((after config past).call next).2 = none) :
    MeetsFrames config past next := by
  have related := (tracks_call (tracks_after config past) next).2
  change Option.Rel _ _ (closingOf config past next) at related
  rw [quiet] at related
  have open? : closingOf config past next = none := by
    cases closed : closingOf config past next with
    | none => rfl
    | some closing =>
        rw [closed] at related
        cases related
  constructor
  · cases next with
    | frame frame nowNs => rfl
    | flush nowNs =>
        change ((after config past).flush nowNs).2 = none at quiet
        cases opened : (after config past).active with
        | false => simp [cutsEmpty, opened]
        | true =>
            rw [flush, opened] at quiet
            cases quiet
  · rw [chunkFrames, open?]
    intro absent
    cases absent

end

end ChunkAssembler

end VoiceHotPath
