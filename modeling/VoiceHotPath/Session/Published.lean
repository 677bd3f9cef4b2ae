import VoiceHotPath.Session.Storage
import VoiceHotPath.Vad.Genuine

/-!
# Published events are genuine

Every event an assembler or a session table publishes counts a frame and names
frames fed to the assembler it comes from, exactly if no flush cuts off a chunk
that a force-flush has just opened.
-/

namespace VoiceHotPath

open ChunkAssembler

namespace ChunkAssembler

section

variable {D : Type} [Double D]

/-- Every event an assembler publishes over a history of calls is genuine. -/
def PublishesGenuine (config : ChunkerConfig D) (calls : List Call) : Prop :=
  ∀ past next rest event, calls = past ++ next :: rest →
    ((after config past).call next).2 = some event →
    Genuine (receivedFrames (past ++ [next])) event

/-- Every call of a history meets frames. -/
def AlwaysMeetsFrames (config : ChunkerConfig D) (calls : List Call) : Prop :=
  ∀ past next rest, calls = past ++ next :: rest → MeetsFrames config past next

theorem publishesGenuine_iff (config : ChunkerConfig D) (calls : List Call) :
    PublishesGenuine config calls ↔ AlwaysMeetsFrames config calls := by
  constructor
  · intro genuine past next rest split
    cases published : ((after config past).call next).2 with
    | none => exact meetsFrames_of_unpublished published
    | some event => exact (genuine_iff published).mp (genuine past next rest event split published)
  · intro meets past next rest event split published
    exact (genuine_iff published).mpr (meets past next rest split)

end

end ChunkAssembler

namespace SessionTable

section

variable {D : Type} [Double D]

/-- Every event a table publishes is a genuine one of an assembler that closed its chunk. -/
def PublishesGenuine (maxSessions : Nat) (config : ChunkerConfig D) (ops : List TableOp) : Prop :=
  ∀ past op rest table responses next response event, ops = past ++ op :: rest →
    (make maxSessions config).run past = some (table, responses) →
    table.step op = some (next, response) → event ∈ response.events →
    ∃ i, table.Answers op i event ∧
      Genuine (receivedFrames ((make maxSessions config).storageCalls (past ++ [op]) i)) event

variable {maxSessions : Nat} {config : ChunkerConfig D}

/-- Once the calls on every assembler meet frames, what the table publishes is genuine. -/
theorem publishesGenuine_of_meets {ops : List TableOp}
    (meets : ∀ i, AlwaysMeetsFrames config ((make maxSessions config).storageCalls ops i)) :
    PublishesGenuine maxSessions config ops := by
  intro past op rest table responses next response event split ran stepped member
  obtain ⟨i, answers⟩ := answers_step stepped member
  refine ⟨i, answers, ?_⟩
  obtain ⟨assembler, made, closed, here, called, answered, same⟩ := answers
  obtain rfl := assemblerAt_history ran here
  rw [storageCalls_snoc ran, called, genuine_congr same]
  refine (genuine_iff answered).mpr (meets i _ made ?_ ?_)
  · exact (table.step op).elim [] fun outcome => outcome.1.storageCalls rest i
  · rw [split, storageCalls_append ran, storageCalls, called]
    rfl

/-- An event counted as empty betrays the call that closed its chunk. -/
theorem meets_of_publishesGenuine {ops : List TableOp} {final : SessionTable D}
    {responses : List Response} (ran : (make maxSessions config).run ops = some (final, responses))
    (genuine : PublishesGenuine maxSessions config ops) (i : Nat) :
    AlwaysMeetsFrames config ((make maxSessions config).storageCalls ops i) := by
  intro past made rest split
  cases published : ((after config past).call made).2 with
  | none => exact meetsFrames_of_unpublished published
  | some closed =>
      obtain ⟨before, op, later, between, answers, next, response, whole, ran', stepped, rfl,
        called⟩ := storageCalls_split ran split
      obtain ⟨assembler, here⟩ := assemblerAt_of_callOn called
      obtain rfl := assemblerAt_history ran' here
      obtain ⟨event, member, same⟩ := published_step stepped here called published
      obtain ⟨j, -, real⟩ := genuine before op later between answers next response event whole
        ran' stepped member
      have counted : 1 ≤ closed.frameCount := by
        have positive := real.counted
        rw [same] at positive
        exact positive
      exact (genuine_iff published).mp (genuine_of_published published counted)

/-- Assemblers and tables publish genuine events only, in exactly the histories in
which no flush cuts off an empty chunk and no count of frames wraps to zero. -/
theorem events_genuine_iff {D : Type} [Double D] (config : ChunkerConfig D) :
    (∀ calls, ChunkAssembler.PublishesGenuine config calls ↔ AlwaysMeetsFrames config calls) ∧
      ∀ maxSessions ops final responses,
        (make maxSessions config).run ops = some (final, responses) →
        (PublishesGenuine maxSessions config ops ↔
          ∀ i, AlwaysMeetsFrames config ((make maxSessions config).storageCalls ops i)) :=
  ⟨ChunkAssembler.publishesGenuine_iff config, fun _ _ _ _ ran =>
    ⟨meets_of_publishesGenuine ran, publishesGenuine_of_meets⟩⟩

end

section

open Scenario

/-- Speech up to the cap, flushed by the end of the stream before its next frame. -/
def cappedThenFlushed : List Call :=
  cappedSpeech ++ [.frame (toneFrame 4) 80000000, .flush 90000000]

/-- The flush publishes a chunk without frames. -/
theorem events_genuine_fails_after_cap :
    ¬ ChunkAssembler.PublishesGenuine shortConfig cappedThenFlushed := by
  intro genuine
  have empty := (genuine (cappedSpeech ++ [.frame (toneFrame 4) 80000000]) (.flush 90000000) []
    { chunkId := 1, tFirstFrameNs := 80000000, tSpeechStartNs := 80000000
      tEndpointNs := 90000000, frameCount := 0, reason := .streamEnd }
    rfl (by decide +kernel)).counted
  exact absurd empty (by decide)

/-- One call whose chunk ends with the stream. -/
def flushedCall : List TableOp :=
  [.acquire 7 0, .onFrame 0 (toneFrame 0) 0, .onFrame 0 (toneFrame 1) 20000000,
    .flushAll 40000000]

theorem events_genuine_iff_flushedCall :
    SessionTable.PublishesGenuine 1 shortConfig flushedCall ↔
      ∀ i, AlwaysMeetsFrames shortConfig
        ((SessionTable.make 1 shortConfig).storageCalls flushedCall i) :=
  (events_genuine_iff shortConfig).2 1 flushedCall _ _
    (Option.some_get (by decide +kernel)).symm

end

end SessionTable

end VoiceHotPath
