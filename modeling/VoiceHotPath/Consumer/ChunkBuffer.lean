import VoiceHotPath.Consumer.SteadyCall
import VoiceHotPath.Vad.LongestChunk

/-!
# The chunk buffer of a session

Every session of `hot_loop` gets a buffer sized from the cap on the length of a
chunk.  It is large enough for a call exactly when it has room for the longest
pre-roll as well.
-/

namespace VoiceHotPath

open ChunkAssembler

/-- The event counts 960 bytes for each frame. -/
def ChunkEvent.CountsAll (event : ChunkEvent) : Prop :=
  event.byteCount.toNat = 960 * event.frameCount.toNat

/--
The buffers of `hot_loop` are large enough for one call: whatever else a run
reads, no append is skipped, and every event counts the bytes of its frames.
-/
def ChunkerOptions.Sufficient [RationalSqrt] (opt : ChunkerOptions) : Prop :=
  ∀ full options maxSessions startNs ticks endNs final id,
    maxSessions ≤ kTombstone → OneCall id (poppedAt ticks) →
    HotLoop.hotLoop full options maxSessions opt.chunker startNs ticks endNs = some final →
    (∀ feed ∈ (HotLoop.start maxSessions opt.chunker startNs).feeds full options ticks,
      feed.session.assembler.SkipsNothing feed.frame feed.nowNs) ∧
    ∀ event ∈ final.emitted, event.CountsAll

/-! ## Enough room is enough -/

/-- What holds of the sessions and the events while one call is served. -/
structure Roomy [RationalSqrt] (opt : ChunkerOptions) (id : UInt32) (stream : Stream)
    (table : SessionTable ℚ) (emitted : List ChunkEvent) : Prop where
  ok : table.Ok
  spacious : ∀ (i : Nat) session, table.sessions[i]? = some session →
    Spacious opt opt.capFrames (stream.getLast?.map Prod.snd) session.assembler
  idle : ∀ (i : Nat) session, table.sessions[i]? = some session → session.active = false →
    session.assembler.active = false
  call : ∀ (i : Nat) session, table.sessions[i]? = some session → session.active = true →
    session.id = id
  counted : ∀ event ∈ emitted, event.CountsAll

section

variable [RationalSqrt] {opt : ChunkerOptions} {id : UInt32} {stream : Stream}
  {table : SessionTable ℚ} {emitted : List ChunkEvent}

/-- A sweep keeps the room, and its events count their bytes. -/
theorem Roomy.sweepAll (roomy : Roomy opt id stream table emitted) (affordable : opt.Affordable)
    {due : Session ℚ → Bool} {nowNs : UInt64} {next : SessionTable ℚ} {tails : List ChunkEvent}
    (returned : SessionTable.sweepAll due table nowNs = some (next, tails)) :
    Roomy opt id stream next (emitted ++ tails) := by
  obtain ⟨next', tails', same, done⟩ := roomy.ok.sweepAll due nowNs
  rw [returned] at same
  cases same
  refine ⟨done.ok, ?_, ?_, ?_, ?_⟩
  · intro i session' found
    obtain ⟨session, here, rfl | ⟨-, rfl⟩⟩ := SessionTable.swept_cases returned found
    · exact roomy.spacious i _ here
    · exact ((roomy.spacious i session here).flush affordable nowNs).2.1 _
  · intro i session' found inactive
    obtain ⟨session, here, rfl | ⟨-, rfl⟩⟩ := SessionTable.swept_cases returned found
    · exact roomy.idle i _ here inactive
    · exact ((roomy.spacious i session here).flush affordable nowNs).2.2
  · intro i session' found active
    obtain ⟨session, here, rfl | ⟨-, rfl⟩⟩ := SessionTable.swept_cases returned found
    · exact roomy.call i _ here active
    · cases active
  · intro event member
    rcases List.mem_append.mp member with before | tail
    · exact roomy.counted event before
    · rw [done.events_eq] at tail
      obtain ⟨i, -, found⟩ := List.mem_filterMap.mp tail
      obtain ⟨session, here, swept⟩ := Option.bind_eq_some_iff.mp found
      obtain ⟨-, flushed⟩ := Option.ite_none_right_eq_some.mp swept
      obtain ⟨closed, answered, rfl⟩ := Option.map_eq_some_iff.mp flushed
      exact ((roomy.spacious i session here).flush affordable nowNs).1 closed answered

/-- The open sessions are those that serve the call. -/
theorem Roomy.serves (roomy : Roomy opt id stream table emitted) {j : Nat} {session : Session ℚ}
    (there : table.sessions[j]? = some session) (active : session.active = true) :
    j ∈ table.openStorage ∧ table.idAt j = id := by
  refine ⟨SessionTable.mem_openStorage.mpr ⟨session, there, active⟩, ?_⟩
  rw [SessionTable.idAt_of_getElem? there, roomy.call j session there active]

/-- If none serves the call, none is open. -/
theorem Roomy.closed (roomy : Roomy opt id stream table emitted)
    (unserved : ∀ i ∈ table.openStorage, table.idAt i ≠ id) {j : Nat} {session : Session ℚ}
    (there : table.sessions[j]? = some session) : session.active = false := by
  cases active : session.active with
  | false => rfl
  | true =>
      obtain ⟨opened, idj⟩ := roomy.serves there active
      exact absurd idj (unserved j opened)

/-- The session a frame of the call is fed to, and that no other is open. -/
theorem Roomy.fed (roomy : Roomy opt id stream table emitted) {frame : AudioFrame}
    {nowNs : UInt64} {feed : Feed ℚ} (fed : table.feedOf frame nowNs = some feed)
    (called : frame.hdr.sessionId = id) :
    feed.frame = frame ∧ feed.nowNs = nowNs ∧ feed.session.id = id ∧
      feed.session.active = true ∧
      Spacious opt opt.capFrames (stream.getLast?.map Prod.snd) feed.session.assembler ∧
      ∀ (j : Nat) session, feed.storage ≠ j → table.sessions[j]? = some session →
        session.active = false := by
  rcases roomy.ok.feedOf_cases frame nowNs with ⟨i, session, here, active, found, same⟩ |
    ⟨-, -, refused⟩ | ⟨unserved, i, session, here, inactive, same⟩
  · rw [same] at fed
    cases fed
    refine ⟨rfl, rfl, found.trans called, active, roomy.spacious i session here, ?_⟩
    intro j session' elsewhere there
    cases active' : session'.active with
    | false => rfl
    | true =>
        obtain ⟨opened, idj⟩ := roomy.serves there active'
        obtain ⟨opened', idi⟩ := roomy.serves here active
        exact absurd (roomy.ok.ids i opened' j opened (idi.trans idj.symm)) elsewhere
  · rw [refused] at fed
    cases fed
  · rw [same] at fed
    cases fed
    exact ⟨rfl, rfl, called, rfl, roomy.spacious i session here,
      fun j session' _ there => roomy.closed (called ▸ unserved) there⟩

/-- A frame of the call is fed without a skip, and keeps the room. -/
theorem Roomy.serve (roomy : Roomy opt id stream table emitted) (positive : 0 < opt.maxChunkMs)
    (affordable : opt.Affordable) {frame : AudioFrame} {nowNs : UInt64}
    (call : OneCall id (stream ++ [(frame, nowNs)])) {feed : Feed ℚ}
    (fed : table.feedOf frame nowNs = some feed) :
    feed.session.assembler.SkipsNothing feed.frame feed.nowNs ∧
      Roomy opt id (stream ++ [(frame, nowNs)])
        ((table.acquire frame.hdr.sessionId nowNs).1.modifySession feed.storage
          (Session.served frame nowNs)) (emitted ++ feed.closes.toList) := by
  obtain ⟨pcm, called, cadence⟩ := call.follows
  obtain ⟨sameFrame, sameNs, servedId, active, spacious, alone⟩ := roomy.fed fed called
  obtain ⟨skips, kept, counted⟩ := spacious.onFrame positive affordable pcm cadence
  obtain ⟨keptId, keptActive, keptAssembler⟩ := feed.session.served_keeps feed.frame feed.nowNs
  rw [sameFrame, sameNs] at keptAssembler
  have served := SessionTable.sessions_served fed
  have last : (stream ++ [(frame, nowNs)]).getLast?.map Prod.snd = some nowNs := by
    rw [List.getLast?_concat]
    rfl
  refine ⟨by rw [sameFrame, sameNs]; exact skips, ?_, ?_, ?_, ?_, ?_⟩
  · exact ((roomy.ok.acquire frame.hdr.sessionId nowNs).modifySession feed.storage
      (Session.served frame nowNs) (fun session => (session.served_keeps _ _).1)
      (fun session => (session.served_keeps _ _).2.1)).1
  · rw [last]
    intro i session found
    rw [served] at found
    split at found
    · cases found
      rw [Feed.served, sameFrame, sameNs, keptAssembler]
      exact kept
    · rename_i elsewhere
      have inactive := roomy.idle i session found (alone i session elsewhere found)
      exact (roomy.spacious i session found).idle inactive _ _
  · intro i session found inactive
    rw [served] at found
    split at found
    · cases found
      rw [Feed.served, keptActive, active] at inactive
      cases inactive
    · exact roomy.idle i session found inactive
  · intro i session found opened
    rw [served] at found
    split at found
    · cases found
      exact keptId.trans servedId
    · exact roomy.call i session found opened
  · intro event member
    rcases List.mem_append.mp member with before | closed
    · exact roomy.counted event before
    · obtain ⟨answer, answered, rfl⟩ := Option.map_eq_some_iff.mp (Option.mem_toList.mp closed)
      rw [sameFrame, sameNs] at answered
      exact counted answer answered

/-- A refused frame finds every session closed. -/
theorem Roomy.refused (roomy : Roomy opt id stream table emitted) {frame : AudioFrame}
    {nowNs : UInt64} (refused : table.feedOf frame nowNs = none)
    (called : frame.hdr.sessionId = id) :
    Roomy opt id (stream ++ [(frame, nowNs)]) (table.acquire frame.hdr.sessionId nowNs).1
      emitted := by
  have same := SessionTable.sessions_of_refused refused
  have unserved : ∀ i ∈ table.openStorage, table.idAt i ≠ id := by
    rcases roomy.ok.feedOf_cases frame nowNs with ⟨i, other, -, -, -, fed⟩ |
      ⟨unserved, -, -⟩ | ⟨-, i, other, -, -, fed⟩
    · rw [refused] at fed
      cases fed
    · exact called ▸ unserved
    · rw [refused] at fed
      cases fed
  refine ⟨roomy.ok.acquire _ _, ?_, ?_, ?_, roomy.counted⟩
  · rw [same]
    intro i session here
    exact (roomy.spacious i session here).idle
      (roomy.idle i session here (roomy.closed unserved here)) _ _
  · rw [same]
    exact roomy.idle
  · rw [same]
    exact roomy.call

variable {full : Nat → Bool} {options : LoopOptions} {loop : HotLoop ℚ}

theorem Roomy.sweep (roomy : Roomy opt id stream loop.sessions loop.emitted)
    (affordable : opt.Affordable) {loopNs : UInt64} {swept : HotLoop ℚ}
    (returned : loop.sweep full options loopNs = some swept) :
    Roomy opt id stream swept.sessions swept.emitted := by
  rcases HotLoop.sweep_cases returned with ⟨-, sessions, tails, expired, rfl⟩ | ⟨-, rfl⟩
  · obtain ⟨kept, emitted⟩ := HotLoop.emitAll_keeps full
      { loop with sessions := sessions, nextSweepNs := loopNs + sweepIntervalNs } tails
    rw [kept, emitted]
    exact roomy.sweepAll affordable expired
  · exact roomy

/-- Step lemma: an iteration skips nothing, and keeps the room. -/
theorem Roomy.iterate (roomy : Roomy opt id stream loop.sessions loop.emitted)
    (positive : 0 < opt.maxChunkMs) (affordable : opt.Affordable) {tick : Tick}
    {next : HotLoop ℚ} (stepped : loop.iterate full options tick = some next)
    (call : OneCall id (stream ++
      (tick.popped.map fun frame => (frame, tick.dequeueNs)).toList)) :
    (∀ feed, loop.feed full options tick = some feed →
        feed.session.assembler.SkipsNothing feed.frame feed.nowNs) ∧
      Roomy opt id (stream ++ (tick.popped.map fun frame => (frame, tick.dequeueNs)).toList)
        next.sessions next.emitted := by
  obtain ⟨swept, returned, ⟨popped, rfl⟩ | ⟨frame, popped, rfl⟩⟩ :=
    HotLoop.iterate_cases stepped
  · rw [HotLoop.feed, returned, popped]
    refine ⟨(fun _ absent => by cases absent), ?_⟩
    rw [Option.map_none, Option.toList_none, List.append_nil]
    exact roomy.sweep affordable returned
  · have kept := roomy.sweep affordable returned
    have same : loop.feed full options tick = swept.sessions.feedOf frame tick.dequeueNs := by
      rw [HotLoop.feed, returned, popped]
      rfl
    rw [popped, Option.map_some, Option.toList_some] at call ⊢
    rw [same]
    cases fed : swept.sessions.feedOf frame tick.dequeueNs with
    | none =>
        rw [HotLoop.serve_of_refused fed]
        exact ⟨(fun _ absent => by cases absent), kept.refused fed call.follows.2.1⟩
    | some feed =>
        obtain ⟨skips, served⟩ := kept.serve positive affordable call fed
        obtain ⟨sessions, emitted⟩ := HotLoop.emitAll_keeps full
          { swept with
            sessions := (swept.sessions.acquire frame.hdr.sessionId tick.dequeueNs).1.modifySession
              feed.storage (Session.served frame tick.dequeueNs)
            metrics := feed.observed options swept.metrics } feed.closes.toList
        rw [HotLoop.serve_of_fed fed, sessions, emitted]
        refine ⟨fun feed' found => ?_, served⟩
        cases found
        exact skips

/-- Run lemma: a run skips nothing, and keeps the room. -/
theorem Roomy.iterateAll (roomy : Roomy opt id stream loop.sessions loop.emitted)
    (positive : 0 < opt.maxChunkMs) (affordable : opt.Affordable) {ticks : List Tick}
    {final : HotLoop ℚ} (ran : HotLoop.iterateAll full options loop ticks = some final)
    (call : OneCall id (stream ++ poppedAt ticks)) :
    (∀ feed ∈ loop.feeds full options ticks,
        feed.session.assembler.SkipsNothing feed.frame feed.nowNs) ∧
      Roomy opt id (stream ++ poppedAt ticks) final.sessions final.emitted := by
  induction ticks generalizing loop stream with
  | nil =>
      cases ran
      rw [poppedAt, List.filterMap_nil, List.append_nil]
      exact ⟨(fun _ absent => by cases absent), roomy⟩
  | cons tick ticks ih =>
      obtain ⟨next, stepped, rest⟩ := Option.bind_eq_some_iff.mp ran
      have split : poppedAt (tick :: ticks) =
          (tick.popped.map fun frame => (frame, tick.dequeueNs)).toList ++ poppedAt ticks := by
        rw [poppedAt, List.filterMap_cons]
        cases tick.popped <;> rfl
      rw [split, ← List.append_assoc] at call ⊢
      obtain ⟨now, kept⟩ := roomy.iterate positive affordable stepped call.of_append
      obtain ⟨later, last⟩ := ih kept rest call
      refine ⟨fun feed member => ?_, last⟩
      rw [HotLoop.feeds, stepped, Option.elim_some] at member
      rcases List.mem_append.mp member with first | found
      · exact now feed (Option.mem_toList.mp first)
      · exact later feed found

theorem roomy_start {maxSessions : Nat} (small : maxSessions ≤ kTombstone)
    (opt : ChunkerOptions) (id : UInt32) (startNs : UInt64) :
    Roomy opt id [] (HotLoop.start maxSessions opt.chunker startNs).sessions [] := by
  refine ⟨.make_clamped small _, ?_, ?_, ?_, fun _ absent => by cases absent⟩
  · intro i session here
    rw [SessionTable.eq_make_of_getElem? here]
    exact spacious_make opt _
  · intro i session here _
    rw [SessionTable.eq_make_of_getElem? here]
    rfl
  · intro i session here active
    rw [SessionTable.inactive_of_make here] at active
    cases active

/-- With room for the longest pre-roll the buffers are large enough. -/
theorem sufficient_of_affordable (positive : 0 < opt.maxChunkMs) (affordable : opt.Affordable) :
    opt.Sufficient := by
  intro full options maxSessions startNs ticks endNs final id small call ran
  obtain ⟨before, iterated, finished⟩ := Option.bind_eq_some_iff.mp ran
  obtain ⟨⟨sessions, tails⟩, flushed, rfl⟩ := Option.map_eq_some_iff.mp finished
  obtain ⟨skips, roomy⟩ :=
    (roomy_start small opt id startNs).iterateAll positive affordable iterated call
  have last := roomy.sweepAll affordable flushed
  refine ⟨skips, ?_⟩
  rw [← (HotLoop.emitAll_keeps full { before with sessions := sessions } tails).2] at last
  exact last.counted

/-! ## Too little room is too little -/

/-- The last event of a stream that is flushed is published with the others. -/
theorem mem_eventsAlone_flushed {config : ChunkerConfig ℚ} {past : Stream} {frame : AudioFrame}
    {nowNs endNs : UInt64} {event : ChunkEvent}
    (published : ((afterStream config past).onFrame frame nowNs).2 = some event ∨
      (((afterStream config past).onFrame frame nowNs).1.flush endNs).2 = some event) :
    { event with sessionId := id } ∈
      eventsAlone config id (Stream.flushed (past ++ [(frame, nowNs)]) endNs) := by
  change _ ∈ eventsAlone config id (Stream.calls (past ++ [(frame, nowNs)]) ++ [.flush endNs])
  rw [eventsAlone_snoc, Stream.calls_snoc, eventsAlone_snoc, List.append_assoc]
  apply List.mem_append_right
  rw [List.mem_append, Option.mem_toList, Option.mem_toList]
  rcases published with now | later
  · left
    exact congrArg (Option.map _) now
  · right
    rw [after_snoc]
    exact congrArg (Option.map _) later

omit [RationalSqrt] in
theorem oneCall_speech {quiet loud : AudioFrame} {a k : Nat} (loudPcm : loud.IsPcm20Ms)
    (quietPcm : quiet.IsPcm20Ms) (same : quiet.hdr.sessionId = loud.hdr.sessionId)
    (clock : 20000000 * k < 2 ^ 64) :
    OneCall loud.hdr.sessionId (speechStream quiet loud a (k + 1)) := by
  have each : ∀ input ∈ speechStream quiet loud a (k + 1),
      input.1.IsPcm20Ms ∧ input.1.hdr.sessionId = loud.hdr.sessionId := by
    intro input member
    obtain ⟨i, -, rfl⟩ := List.mem_map.mp member
    unfold speechInput
    split
    · exact ⟨quietPcm, same⟩
    · exact ⟨loudPcm, rfl⟩
  refine ⟨fun input member => (each input member).1, fun input member => (each input member).2, ?_⟩
  rw [List.isChain_iff_getElem]
  intro i inside
  rw [speechStream, List.length_map, List.length_range] at inside
  simp only [speechStream, List.getElem_map, List.getElem_range, speechInput]
  rw [UInt64.toNat_ofNat_of_lt' (by change _ < 2 ^ 64; omega),
    UInt64.toNat_ofNat_of_lt' (by change _ < 2 ^ 64; omega), Nat.mul_succ]

/-- The assembler skips nothing of the speech if no session skips anything. -/
theorem skipsNothing_afterSpeech {quiet loud : AudioFrame} {a i k : Nat} {feeds : List (Feed ℚ)}
    (heard : ∀ before input after, speechStream quiet loud a k = before ++ input :: after →
      ∃ feed ∈ feeds, feed.session.assembler = afterStream opt.chunker before ∧
        feed.frame = input.1 ∧ feed.nowNs = input.2)
    (skips : ∀ feed ∈ feeds, feed.session.assembler.SkipsNothing feed.frame feed.nowNs)
    (inside : i < k) :
    (afterSpeech opt quiet loud a i).SkipsNothing (speechInput quiet loud a i).1
      (speechInput quiet loud a i).2 := by
  obtain ⟨after, split⟩ := speechStream_split quiet loud a inside
  obtain ⟨feed, member, assembler, frame, nowNs⟩ := heard _ _ _ split
  have here := skips feed member
  rw [assembler, frame, nowNs] at here
  exact here

/-- Buffers that are large enough hold the chunk that speech up to the cap makes. -/
theorem ChunkerOptions.Sufficient.speech (sufficient : opt.Sufficient) {quiet loud : AudioFrame}
    {a onset e : Nat} (loudPcm : loud.IsPcm20Ms) (isLoud : opt.chunker.loudFrame loud = true)
    (quietPcm : quiet.IsPcm20Ms) (same : quiet.hdr.sessionId = loud.hdr.sessionId)
    (isQuiet : 0 < a → opt.chunker.loudFrame quiet = false)
    (at_onset : onset + 1 = a + opt.chunker.onsetRun) (clock : 20000000 * (onset + e) < 2 ^ 64)
    (within : e ≤ opt.capFrames) :
    960 * (min opt.preRollFrames.toNat onset + 1 + e) ≤ opt.chunker.maxChunkBytes ∧
      (UInt32.ofNat (960 * (min opt.preRollFrames.toNat onset + 1 + e))).toNat =
        960 * (UInt32.ofNat (min opt.preRollFrames.toNat onset + 1 + e)).toNat := by
  have call := oneCall_speech (a := a) loudPcm quietPcm same clock
  have idle : 20000000 < (LoopOptions.mk 20000000 2000000000).idleNs := by decide
  obtain ⟨final, ran, feeds, emitted⟩ :=
    call.served Nat.one_pos (by decide) idle opt.chunker (fun _ => false) 0 0
  have popped := call
  rw [← poppedAt_ticksOf (speechStream quiet loud a (onset + e + 1))] at popped
  obtain ⟨skips, counted⟩ := sufficient _ _ _ _ _ _ _ _ (by decide) popped ran
  have sounding := sounding_speech loudPcm isLoud (fun some => ⟨quietPcm, isQuiet some⟩) at_onset
    clock within fun i inside => skipsNothing_afterSpeech feeds skips (Nat.lt_succ_of_le inside)
  refine ⟨sounding.fits, ?_⟩
  obtain ⟨event, published, bytes, count⟩ :=
    sounding.published (speechInput quiet loud a (onset + e)).2 0
  have member : { event with sessionId := loud.hdr.sessionId } ∈ final.emitted := by
    apply List.mem_of_mem_filter (p := fun event => event.sessionId == loud.hdr.sessionId)
    rw [emitted, speechStream_succ]
    apply mem_eventsAlone_flushed
    rw [onFrame_eq]
    exact published
  have whole := counted _ member
  change event.byteCount.toNat = 960 * event.frameCount.toNat at whole
  rw [bytes, count] at whole
  exact whole

/-- The same of every pre-roll a chunk can open on that is no shorter than loud frames make it. -/
theorem ChunkerOptions.Sufficient.reaches (sufficient : opt.Sufficient) (loud : opt.HearsLoud)
    {n e : Nat} (opens : opt.OpensOn n)
    (long : min opt.preRollFrames.toNat (opt.chunker.onsetRun - 1) ≤ n)
    (within : e ≤ opt.capFrames) (clock : 20000000 * (n + opt.chunker.onsetRun + e) < 2 ^ 64) :
    960 * (n + 1 + e) ≤ opt.chunker.maxChunkBytes ∧
      (n + 1 + e < 2 ^ 32 → 960 * (n + 1 + e) < 2 ^ 32) := by
  have run : 0 < opt.chunker.onsetRun := by
    unfold ChunkerConfig.onsetRun
    omega
  obtain ⟨frame, framePcm, isLoud⟩ := loud
  obtain ⟨most, few⟩ := opens
  have held : 960 * (n + 1 + e) ≤ opt.chunker.maxChunkBytes ∧
      (UInt32.ofNat (960 * (n + 1 + e))).toNat = 960 * (UInt32.ofNat (n + 1 + e)).toNat := by
    by_cases brief : n < opt.chunker.onsetRun
    · have exact_n : min opt.preRollFrames.toNat (opt.chunker.onsetRun - 1) = n := by omega
      have at_onset : opt.chunker.onsetRun - 1 + 1 = 0 + opt.chunker.onsetRun := by omega
      have speech := sufficient.speech framePcm isLoud framePcm rfl
        (fun absent => by cases absent) at_onset (by omega) within
      rw [exact_n] at speech
      exact speech
    · obtain ⟨soft, softPcm, isQuiet⟩ := few.resolve_left brief
      have exact_n : min opt.preRollFrames.toNat n = n := Nat.min_eq_right most
      have at_onset : n + 1 = n + 1 - opt.chunker.onsetRun + opt.chunker.onsetRun := by omega
      -- The quiet frames are of the call of the loud one.
      have called : AudioFrame.IsPcm20Ms
          { soft with hdr := { soft.hdr with sessionId := frame.hdr.sessionId } } := softPcm
      have speech := sufficient.speech framePcm isLoud called rfl (fun _ => isQuiet) at_onset
        (by omega) within
      rw [exact_n] at speech
      exact speech
  refine ⟨held.1, fun narrow => ?_⟩
  rw [UInt32.toNat_ofNat_of_lt' narrow] at held
  rw [← held.2]
  exact UInt32.toNat_lt _

/-- Without room for the longest pre-roll the buffers are not large enough. -/
theorem affordable_of_sufficient (sufficient : opt.Sufficient) : opt.Affordable := by
  intro loud n opens
  rw [← ChunkerOptions.maxChunkBytes_eq]
  -- The pre-roll when every frame is loud; a chunk can open on any between it and the longest.
  let brief := min opt.preRollFrames.toNat (opt.chunker.onsetRun - 1)
  have run : 0 < opt.chunker.onsetRun := by
    unfold ChunkerConfig.onsetRun
    omega
  have short := opt.chunker.onsetRun_lt
  have least : opt.OpensOn brief := ⟨Nat.min_le_left _ _, .inl (by omega)⟩
  have longest : opt.OpensOn (max n brief) := by
    rcases Nat.le_total n brief with le | le
    · rw [Nat.max_eq_right le]
      exact least
    · rw [Nat.max_eq_left le]
      exact opens
  have narrow := longest.1
  have width := UInt32.toNat_lt opt.preRollFrames
  have paid := opt.le_maxChunkBytes
  have room : 960 * (max n brief + 1 + opt.capFrames) ≤ opt.chunker.maxChunkBytes := by
    -- A chunk that does not fit is short enough for the clock.
    by_contra crowded
    have fits := (sufficient.reaches loud longest (Nat.le_max_right _ _) (Nat.le_refl _)
      (by omega)).1
    exact crowded fits
  refine ⟨by omega, ?_⟩
  by_contra wide
  -- The fewest frames whose bytes a count in 32 bits does not hold.
  let count := max 4473925 (brief + 1)
  let prior := max brief (count - 1 - opt.capFrames)
  have within : prior ≤ max n brief := by omega
  have overflows := (sufficient.reaches loud (n := prior) (e := count - 1 - prior)
    (longest.of_le within) (Nat.le_max_left _ _) (by omega) (by omega)).2
  have exact_count : prior + 1 + (count - 1 - prior) = count := by omega
  rw [exact_count] at overflows
  have held := overflows (by omega)
  omega

/-- The buffers are large enough exactly when they have room for the longest pre-roll. -/
theorem sufficient_iff_affordable (positive : 0 < opt.maxChunkMs) :
    opt.Sufficient ↔ opt.Affordable :=
  ⟨affordable_of_sufficient, sufficient_of_affordable positive⟩

end

open Scenario in
/-- With the default options the buffers are large enough. -/
theorem sufficient_iff_affordable_defaults :
    ({} : ChunkerOptions).Sufficient ∧ ({} : ChunkerOptions).Affordable := by
  have cap : ({} : ChunkerOptions).capFrames = 750 := by decide +kernel
  have size : ⌊({} : ChunkerOptions).maxChunkMs * (264 / 5)⌋₊ = 792000 := by decide +kernel
  have affordable : ({} : ChunkerOptions).Affordable := by
    intro _ n opens
    have short : n ≤ 5 := opens.1
    rw [cap, size]
    omega
  exact ⟨(sufficient_iff_affordable (by decide +kernel)).mpr affordable, affordable⟩

namespace Scenario

/-- The default options with a cap of one second. -/
def oneSecond : ChunkerOptions := { maxChunkMs := 1000 }

/-- 20 ms of silence, but for one sample of amplitude one half. -/
def clickFrame : AudioFrame :=
  { hdr := { byteLen := 960, sampleRate := 24000 }
    payload := (toneFrame 0).payload }

def hushFrame : AudioFrame := { hdr := { byteLen := 960, sampleRate := 24000 } }

theorem payloadAt_hushFrame : hushFrame.payloadAt = fun _ => 0 := by
  funext i
  change (Vector.replicate kFramePayloadBytes (0 : UInt8))[i]?.getD 0 = 0
  rw [Vector.getElem?_replicate]
  split <;> rfl

theorem payloadAt_clickFrame : clickFrame.payloadAt = fun i => if i = 1 then 0x40 else 0 := by
  funext i
  change ((Vector.replicate kFramePayloadBytes (0 : UInt8)).set 1 0x40)[i]?.getD 0 = _
  rw [Vector.getElem?_set, Vector.getElem?_replicate]
  by_cases second : i = 1
  · rw [if_pos second.symm, if_pos second]
    rfl
  · rw [if_neg (Ne.symm second), if_neg second]
    split <;> rfl

theorem loud_clickFrame : oneSecond.chunker.loudFrame clickFrame = true := by
  rw [ChunkerConfig.loudFrame, frameEnergy, payloadAt_clickFrame]
  decide +kernel

theorem quiet_hushFrame : oneSecond.chunker.loudFrame hushFrame = false := by
  rw [ChunkerConfig.loudFrame, frameEnergy, payloadAt_hushFrame]
  decide +kernel

end Scenario

open Scenario in
/-- Of a pre-roll of five frames, the onset and fifty more the last does not fit. -/
theorem skipped_oneSecond :
    0 < oneSecond.maxChunkMs ∧ OneCall 0 (speechStream hushFrame clickFrame 4 56) ∧
      ∃ final, HotLoop.hotLoop (fun _ => false) ⟨20000000, 2000000000⟩ 1 oneSecond.chunker 0
          (ticksOf (speechStream hushFrame clickFrame 4 56)) 1200000000 = some final ∧
        ¬ ((∀ feed ∈ (HotLoop.start 1 oneSecond.chunker 0).feeds (fun _ => false)
              ⟨20000000, 2000000000⟩ (ticksOf (speechStream hushFrame clickFrame 4 56)),
            feed.session.assembler.SkipsNothing feed.frame feed.nowNs) ∧
          ∀ event ∈ final.emitted, event.CountsAll) := by
  have pcm : clickFrame.IsPcm20Ms := by decide
  have quietPcm : hushFrame.IsPcm20Ms := by decide
  have call : OneCall 0 (speechStream hushFrame clickFrame 4 56) :=
    oneCall_speech pcm quietPcm rfl (by decide)
  have idle : 20000000 < (LoopOptions.mk 20000000 2000000000).idleNs := by decide
  obtain ⟨final, ran, feeds, -⟩ := call.served Nat.one_pos (by decide) idle oneSecond.chunker
    (fun _ => false) 0 1200000000
  refine ⟨by decide +kernel, call, final, ran, fun ⟨skips, _⟩ => ?_⟩
  have at_onset : 5 + 1 = 4 + oneSecond.chunker.onsetRun := by decide
  have cap : oneSecond.capFrames = 50 := by decide +kernel
  have sounding := sounding_speech pcm loud_clickFrame (fun _ => ⟨quietPcm, quiet_hushFrame⟩)
    at_onset (by decide) cap.ge fun i inside =>
      skipsNothing_afterSpeech feeds skips (Nat.lt_succ_of_le inside)
  have size : oneSecond.chunker.maxChunkBytes = 52800 := by decide +kernel
  have fits := sounding.fits
  rw [size] at fits
  have pre : oneSecond.preRollFrames.toNat = 5 := rfl
  omega

end VoiceHotPath
