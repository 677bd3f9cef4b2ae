import VoiceHotPath.Consumer.OpenChunks
import VoiceHotPath.Consumer.SendLoop
import VoiceHotPath.Vad.Scenario

/-!
# Loss is accounted end to end

`hot_loop` counts the numbers missing between one frame of a session and the
next.  For a call whose one session serves it from its first to its last
delivered frame, these are the frames the producer has shed in between.
-/

namespace VoiceHotPath

section

variable {D : Type}

/-- The feeds of one call. -/
def feedsOf (id : UInt32) (feeds : List (Feed D)) : List (Feed D) :=
  feeds.filter fun feed => feed.frame.hdr.sessionId = id

/-- What a frame adds to `seq_gaps`. -/
def Feed.missed (feed : Feed D) : UInt64 :=
  feed.session.missing feed.frame

/-- What the frames of a call have added to `seq_gaps`. -/
def contribution (id : UInt32) (feeds : List (Feed D)) : Nat :=
  ((feedsOf id feeds).map fun feed => feed.missed.toNat).sum

/--
The session of a call is opened by the first frame delivered for the call, and
serves it up to the last: no frame is refused, and none finds the session gone.
-/
def ServesThroughout (id : UInt32) (delivered : List AudioFrame) (feeds : List (Feed D)) :
    Prop :=
  ∃ first rest, feedsOf id feeds = first :: rest ∧ first.opens = true ∧
    (∀ feed ∈ rest, feed.opens = false) ∧
    (feedsOf id feeds).map Feed.frame =
      delivered.filter fun frame => frame.hdr.sessionId = id

/-- No frame of the call but the first finds no session. -/
def OpensOnce (id : UInt32) (feeds : List (Feed D)) : Prop :=
  ∀ feed ∈ (feedsOf id feeds).tail, feed.opens = false

/-- The frames of the call come in the order of their numbers. -/
def Ascends (id : UInt32) (feeds : List (Feed D)) : Prop :=
  (feedsOf id feeds).Pairwise fun earlier later =>
    earlier.frame.hdr.seq < later.frame.hdr.seq

theorem feedsOf_snoc_same {id : UInt32} {feed : Feed D} (feeds : List (Feed D))
    (same : feed.frame.hdr.sessionId = id) :
    feedsOf id (feeds ++ [feed]) = feedsOf id feeds ++ [feed] := by
  simp [feedsOf, same]

theorem feedsOf_snoc_other {id : UInt32} {feed : Feed D} (feeds : List (Feed D))
    (other : feed.frame.hdr.sessionId ≠ id) : feedsOf id (feeds ++ [feed]) = feedsOf id feeds := by
  simp [feedsOf, other]

section

variable {id : UInt32} {past feeds : List (Feed D)} {delivered : List AudioFrame}

theorem OpensOnce.of_append {later : List (Feed D)} (once : OpensOnce id (past ++ later)) :
    OpensOnce id past := by
  intro feed member
  apply once feed
  rw [feedsOf, List.filter_append]
  cases front : feedsOf id past with
  | nil =>
      rw [front] at member
      cases member
  | cons first rest =>
      rw [front] at member
      change feed ∈ (feedsOf id past ++ feedsOf id later).tail
      rw [front]
      exact List.mem_append_left _ member

theorem Ascends.of_append {later : List (Feed D)} (ascends : Ascends id (past ++ later)) :
    Ascends id past := by
  rw [Ascends, feedsOf, List.filter_append] at ascends
  exact (List.pairwise_append.mp ascends).1

/-- A call served throughout has its delivered frames as its feeds. -/
theorem ServesThroughout.seqsOf_eq (serves : ServesThroughout id delivered feeds) :
    seqsOf id delivered = (feedsOf id feeds).map fun feed => feed.frame.hdr.seq.toNat := by
  obtain ⟨first, rest, -, -, -, same⟩ := serves
  rw [seqsOf, ← same, List.map_map]
  rfl

/-- When every frame delivered is fed, what the feeds open decides. -/
theorem servesThroughout_of_opens {n : Nat} (all : feeds.map Feed.frame = delivered)
    (opens : (feedsOf id feeds).map Feed.opens = true :: List.replicate n false) :
    ServesThroughout id delivered feeds := by
  obtain ⟨first, rest, here, opened, found⟩ := List.map_eq_cons_iff.mp opens
  refine ⟨first, rest, here, opened, ?_, ?_⟩
  · intro feed member
    have listed := List.mem_map_of_mem (f := Feed.opens) member
    rw [found] at listed
    exact List.eq_of_mem_replicate listed
  · rw [← all, feedsOf, List.filter_map]
    rfl

theorem ServesThroughout.opensOnce (serves : ServesThroughout id delivered feeds) :
    OpensOnce id feeds := by
  obtain ⟨first, rest, here, -, found, -⟩ := serves
  intro feed member
  rw [here] at member
  exact found feed member

theorem ServesThroughout.ascends (serves : ServesThroughout id delivered feeds)
    (ascending : (seqsOf id delivered).Pairwise (· < ·)) : Ascends id feeds := by
  rw [serves.seqsOf_eq, List.pairwise_map] at ascending
  exact ascending.imp fun later => UInt64.lt_iff_toNat_lt.mpr later

end

/-- The number missing before a frame whose predecessor the session remembers. -/
theorem Session.toNat_missing {session : Session D} {frame : AudioFrame}
    (known : session.haveLastSeq = true) (later : session.lastSeq < frame.hdr.seq) :
    (session.missing frame).toNat = frame.hdr.seq.toNat - session.lastSeq.toNat - 1 := by
  have below := UInt64.lt_iff_toNat_lt.mp later
  have next := WrappingCounter.toNat_succ_of_lt later
  have difference : (frame.hdr.seq - session.lastSeq).toNat =
      frame.hdr.seq.toNat - session.lastSeq.toNat :=
    UInt64.toNat_sub_of_le _ _ (UInt64.le_of_lt later)
  unfold missing
  rw [known, Bool.true_and]
  split
  · rename_i gap
    have wide := UInt64.lt_iff_toNat_lt.mp (of_decide_eq_true gap)
    have one : (1 : UInt64) ≤ frame.hdr.seq - session.lastSeq := by
      rw [UInt64.le_iff_toNat_le, difference]
      change 1 ≤ _
      omega
    rw [UInt64.toNat_sub_of_le _ _ one, difference]
    rfl
  · rename_i tight
    have narrow := UInt64.lt_iff_toNat_lt.not.mp fun gap => tight (decide_eq_true gap)
    change 0 = _
    omega

end

namespace HotLoop

variable {D : Type} [Double D]

section

variable {full : Nat → Bool} {options : LoopOptions} {loop next : HotLoop D} {tick : Tick}

/-- An iteration counts what the frame it feeds has missed. -/
theorem seqGaps_iterate (stepped : loop.iterate full options tick = some next) :
    next.metrics.seqGaps = loop.metrics.seqGaps +
      (loop.feed full options tick).elim 0 Feed.missed := by
  obtain ⟨swept, returned, outcome⟩ := iterate_cases stepped
  obtain ⟨chunks, drops, unswept⟩ := metrics_sweep returned
  have kept : swept.metrics.seqGaps = loop.metrics.seqGaps := by rw [unswept]
  rcases outcome with ⟨popped, rfl⟩ | ⟨frame, popped, rfl⟩
  · rw [feed, returned, popped]
    exact kept.trans (UInt64.add_zero _).symm
  · rw [feed, returned, popped, Option.bind_some, Option.bind_some]
    cases fed : swept.sessions.feedOf frame tick.dequeueNs with
    | none =>
        rw [serve_of_refused fed, Option.elim_none, UInt64.add_zero, ← kept]
        change (swept.metrics.observeTransport frame tick.dequeueNs).seqGaps = _
        unfold HotPathMetrics.observeTransport
        split <;> rfl
    | some feed =>
        rw [serve_of_fed fed, Option.elim_some, ← kept]
        obtain ⟨chunks, drops, same⟩ := metrics_emitAll full
          { swept with
            sessions := (swept.sessions.acquire frame.hdr.sessionId tick.dequeueNs).1.modifySession
              feed.storage (Session.served frame tick.dequeueNs)
            metrics := feed.observed options swept.metrics } feed.closes.toList
        rw [same]
        change (feed.observed options swept.metrics).seqGaps = _
        have transported : (swept.metrics.observeTransport feed.frame feed.nowNs).seqGaps =
            swept.metrics.seqGaps := by
          unfold HotPathMetrics.observeTransport
          split <;> rfl
        unfold Feed.observed
        dsimp only
        cases feed.closes with
        | none => exact congrArg (· + feed.missed) transported
        | some event =>
            dsimp only
            unfold HotPathMetrics.observeEndpoint
            split <;> exact congrArg (· + feed.missed) transported

/-- A run counts what the frames it feeds have missed. -/
theorem seqGaps_iterateAll {ticks : List Tick} {final : HotLoop D}
    (ran : iterateAll full options loop ticks = some final) :
    final.metrics.seqGaps = loop.metrics.seqGaps +
      UInt64.ofNat ((loop.feeds full options ticks).map fun feed => feed.missed.toNat).sum := by
  induction ticks generalizing loop with
  | nil =>
      cases ran
      exact (UInt64.add_zero _).symm
  | cons tick ticks ih =>
      obtain ⟨next, stepped, rest⟩ := Option.bind_eq_some_iff.mp ran
      have first : UInt64.ofNat ((loop.feed full options tick).toList.map fun feed =>
          feed.missed.toNat).sum = (loop.feed full options tick).elim 0 Feed.missed := by
        cases loop.feed full options tick with
        | none => rfl
        | some feed => simp
      rw [ih rest, seqGaps_iterate stepped, feeds, stepped, Option.elim_some, List.map_append,
        List.sum_append, UInt64.ofNat_add, first, UInt64.add_assoc]

end

/-! ## The gaps of one call -/

/-- The session of the call remembers the last frame fed; the gaps add up so far. -/
structure Attributed (config : ChunkerConfig D) (id : UInt32) (past : List (Feed D))
    (table : SessionTable D) : Prop where
  pooled : SessionTable.Pooled config table
  remembers : ∀ (i : Nat) session, table.sessions[i]? = some session → session.active = true →
    session.id = id → ∃ last, (feedsOf id past).getLast? = some last ∧ last.storage = i ∧
      session.haveLastSeq = true ∧ session.lastSeq = last.frame.hdr.seq
  adds : ∀ first last, (feedsOf id past).head? = some first →
    (feedsOf id past).getLast? = some last →
    contribution id past + (feedsOf id past).length + first.frame.hdr.seq.toNat =
      last.frame.hdr.seq.toNat + 1

section

variable {config : ChunkerConfig D} {id : UInt32} {past : List (Feed D)}
  {table : SessionTable D}

theorem Attributed.sweepAll (attributed : Attributed config id past table)
    {due : Session D → Bool} {nowNs : UInt64} {next : SessionTable D} {tails : List ChunkEvent}
    (returned : SessionTable.sweepAll due table nowNs = some (next, tails)) :
    Attributed config id past next := by
  refine ⟨attributed.pooled.sweepAll returned, ?_, attributed.adds⟩
  intro i session' found active
  obtain ⟨session, here, rfl | ⟨-, rfl⟩⟩ := SessionTable.swept_cases returned found
  · exact attributed.remembers i _ here active
  · cases active

/-- A frame of the call that does not open a session follows the last one. -/
theorem Attributed.follows (attributed : Attributed config id past table) {frame : AudioFrame}
    {nowNs : UInt64} {feed : Feed D} (fed : table.feedOf frame nowNs = some feed)
    (same : frame.hdr.sessionId = id) (found : feed.opens = false) :
    ∃ last, (feedsOf id past).getLast? = some last ∧ last.storage = feed.storage ∧
      feed.session.haveLastSeq = true ∧ feed.session.lastSeq = last.frame.hdr.seq := by
  obtain ⟨session, here, ⟨-, active, called, stamped⟩ | ⟨opens, -⟩⟩ :=
    attributed.pooled.fed_cases fed
  · rw [stamped]
    exact attributed.remembers _ session here active (called.trans same)
  · rw [found] at opens
    cases opens

/-- A frame of the call that opens a session has missed nothing. -/
theorem Attributed.opening (attributed : Attributed config id past table) {frame : AudioFrame}
    {nowNs : UInt64} {feed : Feed D} (fed : table.feedOf frame nowNs = some feed)
    (opens : feed.opens = true) : feed.missed = 0 := by
  obtain ⟨session, here, ⟨found, -⟩ | ⟨-, -, opened⟩⟩ := attributed.pooled.fed_cases fed
  · rw [opens] at found
    cases found
  · rw [Feed.missed, opened]
    rfl

theorem sessionId_served {frame : AudioFrame} {nowNs : UInt64} {feed : Feed D}
    (pooled : SessionTable.Pooled config table)
    (fed : table.feedOf frame nowNs = some feed) :
    feed.served.id = frame.hdr.sessionId ∧ feed.served.haveLastSeq = true ∧
      feed.served.lastSeq = frame.hdr.seq := by
  obtain ⟨sameFrame, -, -⟩ := SessionTable.feedOf_eq_some fed
  have id : feed.session.id = frame.hdr.sessionId := by
    obtain ⟨session, here, ⟨-, -, called, same⟩ | ⟨-, -, same⟩⟩ := pooled.fed_cases fed
    · rw [same]
      exact called
    · rw [same]
      rfl
  obtain ⟨called, -, -⟩ := Session.served_keeps feed.frame feed.nowNs feed.session
  refine ⟨called.trans id, ?_⟩
  rw [← sameFrame, Feed.served, Session.served, Session.hear]
  split <;> exact ⟨rfl, rfl⟩

/-- A frame of the call adds the numbers missing before it. -/
theorem Attributed.adds_snoc (attributed : Attributed config id past table) {frame : AudioFrame}
    {nowNs : UInt64} {feed : Feed D} (fed : table.feedOf frame nowNs = some feed)
    (same : frame.hdr.sessionId = id) (found : feedsOf id past ≠ [] → feed.opens = false)
    (grown : feedsOf id (past ++ [feed]) = feedsOf id past ++ [feed])
    (ascends : Ascends id (past ++ [feed])) {first : Feed D}
    (front : (feedsOf id past ++ [feed]).head? = some first) :
    contribution id (past ++ [feed]) + (feedsOf id (past ++ [feed])).length +
      first.frame.hdr.seq.toNat = feed.frame.hdr.seq.toNat + 1 := by
  have total : contribution id (past ++ [feed]) = contribution id past + feed.missed.toNat := by
    rw [contribution, grown, List.map_append, List.sum_append]
    exact congrArg (_ + ·) (Nat.add_zero _)
  rw [total, grown, List.length_append, List.length_singleton]
  cases before : (feedsOf id past).getLast? with
  | none =>
      have none := List.getLast?_eq_none_iff.mp before
      have opens : feed.opens = true := by
        cases opens : feed.opens with
        | true => rfl
        | false =>
            obtain ⟨last, some, -⟩ := attributed.follows fed same opens
            rw [before] at some
            cases some
      rw [none] at front
      cases front
      rw [attributed.opening fed opens, contribution, none]
      exact Nat.add_comm _ _
  | some previous =>
      have some : feedsOf id past ≠ [] := List.ne_nil_of_mem (List.mem_of_getLast? before)
      obtain ⟨last, same', -, remembered, seq⟩ := attributed.follows fed same (found some)
      rw [before] at same'
      cases same'
      have order : previous.frame.hdr.seq < feed.frame.hdr.seq := by
        rw [Ascends, grown] at ascends
        exact (List.pairwise_append.mp ascends).2.2 previous (List.mem_of_getLast? before) feed
          (List.mem_singleton_self _)
      have missed : feed.missed.toNat =
          feed.frame.hdr.seq.toNat - previous.frame.hdr.seq.toNat - 1 := by
        rw [Feed.missed, Session.toNat_missing remembered (by rw [seq]; exact order), seq]
      rw [List.head?_append_of_ne_nil _ some] at front
      have adds := attributed.adds first previous front before
      have below := UInt64.lt_iff_toNat_lt.mp order
      omega

/-- Step lemma: a frame fed to a session keeps the gaps adding up. -/
theorem Attributed.serve (attributed : Attributed config id past table) {frame : AudioFrame}
    {nowNs : UInt64} {feed : Feed D} (fed : table.feedOf frame nowNs = some feed)
    {after : SessionTable D} (pooled : SessionTable.Pooled config after)
    (sessions : ∀ j, after.sessions[j]? =
      if feed.storage = j then some feed.served else table.sessions[j]?)
    (once : OpensOnce id (past ++ [feed])) (ascends : Ascends id (past ++ [feed])) :
    Attributed config id (past ++ [feed]) after := by
  obtain ⟨sameFrame, -, -⟩ := SessionTable.feedOf_eq_some fed
  obtain ⟨servedId, known, lastSeq⟩ := sessionId_served attributed.pooled fed
  by_cases same : frame.hdr.sessionId = id
  · have here : feed.frame.hdr.sessionId = id := by
      rw [sameFrame]
      exact same
    have grown := feedsOf_snoc_same past here
    have latest : (feedsOf id past ++ [feed]).getLast? = some feed := List.getLast?_concat
    -- A call with earlier frames has a session, and the frame finds it.
    have found : feedsOf id past ≠ [] → feed.opens = false := by
      intro some
      apply once feed
      rw [grown, List.tail_append_of_ne_nil some]
      exact List.mem_append_right _ (List.mem_singleton_self _)
    refine ⟨pooled, ?_, ?_⟩
    · intro i session here active called
      rw [sessions] at here
      rw [grown]
      split at here
      · rename_i there
        cases here
        exact ⟨feed, latest, there, known, by rw [sameFrame]; exact lastSeq⟩
      · rename_i elsewhere
        obtain ⟨last, before, stored, -⟩ := attributed.remembers i session here active called
        have some : feedsOf id past ≠ [] := by
          intro none
          rw [none] at before
          cases before
        obtain ⟨last', before', stored', -⟩ := attributed.follows fed same (found some)
        rw [before] at before'
        cases before'
        exact absurd (stored'.symm.trans stored) elsewhere
    · intro first last front back
      rw [grown] at front back
      rw [latest] at back
      cases back
      exact attributed.adds_snoc fed same found grown ascends front
  · have other : feed.frame.hdr.sessionId ≠ id :=
      fun same' => same (by rw [← sameFrame]; exact same')
    have kept := feedsOf_snoc_other past other
    refine ⟨pooled, ?_, ?_⟩
    · intro i session here active called
      rw [sessions] at here
      rw [kept]
      split at here
      · cases here
        exact absurd (servedId.symm.trans called) same
      · exact attributed.remembers i session here active called
    · rw [contribution, kept]
      exact attributed.adds

theorem Attributed.sweep {full : Nat → Bool} {options : LoopOptions} {loop swept : HotLoop D}
    (attributed : Attributed config id past loop.sessions) {loopNs : UInt64}
    (returned : loop.sweep full options loopNs = some swept) :
    Attributed config id past swept.sessions := by
  rcases sweep_cases returned with ⟨-, sessions, tails, expired, rfl⟩ | ⟨-, rfl⟩
  · rw [(emitAll_keeps _ _ _).1]
    exact attributed.sweepAll expired
  · exact attributed

theorem Attributed.refused (attributed : Attributed config id past table) {frame : AudioFrame}
    {nowNs : UInt64} (refused : table.feedOf frame nowNs = none) :
    Attributed config id past (table.acquire frame.hdr.sessionId nowNs).1 := by
  have stepped : table.step (.acquire frame.hdr.sessionId nowNs) =
      some ((table.acquire frame.hdr.sessionId nowNs).1,
        .session (table.acquire frame.hdr.sessionId nowNs).2) := rfl
  refine ⟨attributed.pooled.step stepped, ?_, attributed.adds⟩
  rw [SessionTable.sessions_of_refused refused]
  exact attributed.remembers

variable {full : Nat → Bool} {options : LoopOptions} {loop : HotLoop D}

/-- Step lemma: an iteration keeps the gaps adding up. -/
theorem Attributed.iterate (attributed : Attributed config id past loop.sessions) {tick : Tick}
    {next : HotLoop D} (stepped : loop.iterate full options tick = some next)
    (once : OpensOnce id (past ++ (loop.feed full options tick).toList))
    (ascends : Ascends id (past ++ (loop.feed full options tick).toList)) :
    Attributed config id (past ++ (loop.feed full options tick).toList) next.sessions := by
  obtain ⟨swept, returned, ⟨popped, rfl⟩ | ⟨frame, popped, rfl⟩⟩ := iterate_cases stepped
  · have unfed : loop.feed full options tick = none := by
      rw [feed, returned, popped]
      rfl
    rw [unfed, Option.toList_none, List.append_nil]
    exact attributed.sweep returned
  · have kept := attributed.sweep returned
    have same : loop.feed full options tick = swept.sessions.feedOf frame tick.dequeueNs := by
      rw [feed, returned, popped]
      rfl
    rw [same] at once ascends ⊢
    cases fed : swept.sessions.feedOf frame tick.dequeueNs with
    | none =>
        rw [serve_of_refused fed, Option.toList_none, List.append_nil]
        exact kept.refused fed
    | some feed =>
        rw [fed] at once ascends
        rw [serve_of_fed fed, (emitAll_keeps _ _ _).1]
        exact kept.serve fed (kept.pooled.serve fed) (SessionTable.sessions_served fed) once ascends

/-- Run lemma: a run keeps the gaps adding up. -/
theorem Attributed.iterateAll (attributed : Attributed config id past loop.sessions)
    {ticks : List Tick} {final : HotLoop D}
    (ran : iterateAll full options loop ticks = some final)
    (once : OpensOnce id (past ++ loop.feeds full options ticks))
    (ascends : Ascends id (past ++ loop.feeds full options ticks)) :
    Attributed config id (past ++ loop.feeds full options ticks) final.sessions := by
  induction ticks generalizing loop past with
  | nil =>
      cases ran
      rw [feeds, List.append_nil]
      exact attributed
  | cons tick ticks ih =>
      obtain ⟨next, stepped, rest⟩ := Option.bind_eq_some_iff.mp ran
      rw [feeds, stepped, Option.elim_some, ← List.append_assoc] at once ascends ⊢
      exact ih (attributed.iterate stepped once.of_append ascends.of_append) rest once ascends

theorem attributed_start (id : UInt32) (maxSessions : Nat) (config : ChunkerConfig D)
    (startNs : UInt64) : Attributed config id [] (start maxSessions config startNs).sessions := by
  refine ⟨.make maxSessions config, ?_, ?_⟩
  · intro i session here active
    rw [SessionTable.inactive_of_make here] at active
    cases active
  · intro first last absent
    cases absent

end

end HotLoop

namespace HotPath

open HotLoop

variable {D : Type} [Double D] {full : Nat → Bool} {options : LoopOptions} {begin : HotLoop D}

omit [Double D] in
/-- The final flush counts no gap. -/
theorem seqGaps_finish {before final : HotLoop D} {endNs : UInt64}
    (finished : before.finish full endNs = some final) :
    before.metrics.seqGaps = final.metrics.seqGaps := by
  obtain ⟨⟨sessions, tails⟩, -, rfl⟩ := Option.map_eq_some_iff.mp finished
  obtain ⟨chunks, drops, same⟩ := metrics_emitAll full { before with sessions := sessions } tails
  exact (congrArg HotPathMetrics.seqGaps same).symm

theorem seqGaps_of_reaches {ticks : List Tick} {next : Afterwards} {loop : HotLoop D}
    (reaches : Reaches full options begin ticks next loop) :
    ∃ before, iterateAll full options begin ticks = some before ∧
      before.metrics.seqGaps = loop.metrics.seqGaps := by
  cases next with
  | test => exact ⟨loop, reaches, rfl⟩
  | pop loopNs =>
      obtain ⟨before, ran, swept⟩ := reaches
      obtain ⟨chunks, drops, same⟩ := metrics_sweep swept
      exact ⟨before, ran, by rw [same]⟩
  | finish endNs =>
      obtain ⟨before, ran, finished⟩ := reaches
      have same := seqGaps_finish finished
      exact ⟨before, ran, same⟩

/-- Whatever the thread is doing, it has counted the gaps of the frames it has popped. -/
theorem seqGaps_of_simulates {hot : HotThread D} (simulates : Simulates full options begin hot) :
    ∃ before, iterateAll full options begin hot.ticks = some before ∧
      before.metrics.seqGaps = hot.loop.metrics.seqGaps := by
  have published : ∀ (loop : HotLoop D) events,
      (emitAll full loop events).metrics.seqGaps = loop.metrics.seqGaps := by
    intro loop events
    obtain ⟨chunks, drops, same⟩ := metrics_emitAll full loop events
    rw [same]
  unfold Simulates at simulates
  split at simulates
  · exact seqGaps_of_reaches simulates
  · obtain ⟨before, ran, same⟩ := seqGaps_of_reaches simulates
    exact ⟨before, ran, same.trans (published _ _)⟩
  · obtain ⟨before, ran, same⟩ := seqGaps_of_reaches simulates
    exact ⟨before, ran, same.trans (published _ _)⟩
  · exact seqGaps_of_reaches simulates
  · obtain ⟨before, ran, finished⟩ := Option.bind_eq_some_iff.mp simulates
    exact ⟨before, ran, seqGaps_finish finished⟩

end HotPath

namespace ShmPipeline

open HotLoop

variable {D : Type} [Double D] {frameCapacity eventCapacity : Capacity}
  {sendOptions : SendOptions} {options : LoopOptions} {begin : HotLoop D}
  {frameStart eventStart : UInt64} {state : ShmPipeline D frameCapacity eventCapacity}

/-- The frames `hot_loop` has popped. -/
def delivered (state : ShmPipeline D frameCapacity eventCapacity) : List AudioFrame :=
  state.path.frames.popped

/-- The frames `hot_loop` has fed to sessions, started from `begin`. -/
def feeds (options : LoopOptions) (begin : HotLoop D)
    (state : ShmPipeline D frameCapacity eventCapacity) : List (Feed D) :=
  begin.feeds (fun n => state.path.hot.refused.getD n false) options state.path.hot.ticks

/-- A frame of the call is delivered that was sent before, and one that was sent after. -/
def between (delivered : List AudioFrame) (frame : AudioFrame) : Bool :=
  (delivered.any fun earlier =>
    earlier.hdr.sessionId = frame.hdr.sessionId ∧ earlier.hdr.seq < frame.hdr.seq) &&
  delivered.any fun later =>
    later.hdr.sessionId = frame.hdr.sessionId ∧ frame.hdr.seq < later.hdr.seq

theorem mem_seqsOf {id : UInt32} {frames : List AudioFrame} {n : Nat} :
    n ∈ seqsOf id frames ↔
      ∃ frame ∈ frames, frame.hdr.sessionId = id ∧ frame.hdr.seq.toNat = n := by
  simp [seqsOf, and_assoc]

/-- A frame is between others delivered when its number is. -/
theorem between_eq_true {delivered : List AudioFrame} {frame : AudioFrame} {first last : Nat}
    (ascending : (seqsOf frame.hdr.sessionId delivered).Pairwise (· < ·))
    (front : (seqsOf frame.hdr.sessionId delivered).head? = some first)
    (back : (seqsOf frame.hdr.sessionId delivered).getLast? = some last) :
    between delivered frame = true ↔ first < frame.hdr.seq.toNat ∧ frame.hdr.seq.toNat < last := by
  rw [← LossySequence.exists_lt_iff ascending front, ← LossySequence.exists_gt_iff ascending back,
    between, Bool.and_eq_true, List.any_eq_true, List.any_eq_true]
  simp only [mem_seqsOf, decide_eq_true_iff, UInt64.lt_iff_toNat_lt]
  constructor
  · rintro ⟨⟨earlier, here, same, before⟩, later, there, alike, after⟩
    exact ⟨⟨_, ⟨earlier, here, same, rfl⟩, before⟩, _, ⟨later, there, alike, rfl⟩, after⟩
  · rintro ⟨⟨_, ⟨earlier, here, same, rfl⟩, before⟩, _, ⟨later, there, alike, rfl⟩, after⟩
    exact ⟨⟨earlier, here, same, before⟩, later, there, alike, after⟩

/-- The frames fed are among those popped, in their order. -/
theorem frames_feeds {full : Nat → Bool} (loop : HotLoop D) (ticks : List Tick) :
    ((loop.feeds full options ticks).map Feed.frame).Sublist (ticks.filterMap Tick.popped) := by
  induction ticks generalizing loop with
  | nil => exact .slnil
  | cons tick ticks ih =>
      have split : (tick :: ticks).filterMap Tick.popped =
          tick.popped.toList ++ ticks.filterMap Tick.popped := by
        rw [List.filterMap_cons]
        cases tick.popped <;> rfl
      rw [split, HotLoop.feeds, List.map_append]
      refine List.Sublist.append ?_ ?_
      · cases fed : loop.feed full options tick with
        | none => exact List.nil_sublist _
        | some feed =>
            obtain ⟨swept, -, there⟩ := Option.bind_eq_some_iff.mp fed
            obtain ⟨frame, popped, served⟩ := Option.bind_eq_some_iff.mp there
            obtain ⟨same, -⟩ := SessionTable.feedOf_eq_some served
            rw [popped, ← same]
            exact List.Sublist.refl _
      · cases loop.iterate full options tick with
        | none => exact List.nil_sublist _
        | some next => exact ih next

/-- The gaps of a call served throughout are its frames shed in between. -/
theorem Sends.contribution {id : UInt32} {config : ChunkerConfig D} {fed : List (Feed D)}
    {table : SessionTable D} (sends : Sends sendOptions options begin frameStart eventStart state)
    (attributed : Attributed config id fed table)
    (serves : ServesThroughout id state.delivered fed) :
    contribution id fed = ((state.send.shed.filter (between state.delivered)).filter fun frame =>
      frame.hdr.sessionId = id).length := by
  have early : seqsOf id state.delivered <+: seqsOf id state.path.frames.pushed :=
    seqsOf_prefix sends.sequential.frames.popped_prefix
  have ascending := (sends.numbers.ascending id).sublist early.sublist
  have seqs := serves.seqsOf_eq
  obtain ⟨first, rest, here, -⟩ := serves
  obtain ⟨last, final⟩ : ∃ last, (feedsOf id fed).getLast? = some last :=
    ⟨_, by rw [here]; exact List.getLast?_eq_some_getLast (List.cons_ne_nil first rest)⟩
  have front : (seqsOf id state.delivered).head? = some first.frame.hdr.seq.toNat := by
    rw [seqs, here]
    rfl
  have back : (seqsOf id state.delivered).getLast? = some last.frame.hdr.seq.toNat := by
    rw [seqs, List.getLast?_map, final]
    rfl
  have lost := LossySequence.lost_between (sends.numbers.all id) (sends.numbers.ascending id)
    early front back
  have adds := attributed.adds first last (by rw [here]; rfl) final
  have length : (seqsOf id state.delivered).length = (feedsOf id fed).length := by
    rw [seqs, List.length_map]
  have shed : (seqsOf id state.send.shed).countP (fun n =>
      first.frame.hdr.seq.toNat < n ∧ n < last.frame.hdr.seq.toNat) =
      ((state.send.shed.filter (between state.delivered)).filter fun frame =>
        frame.hdr.sessionId = id).length := by
    rw [seqsOf, List.countP_map, List.filter_comm, ← List.countP_eq_length_filter]
    apply List.countP_congr
    intro frame member
    have same : frame.hdr.sessionId = id := by
      simpa using (List.mem_filter.mp member).2
    subst same
    rw [between_eq_true ascending front back]
    simp
  omega

/-- If every call is served throughout, all the gaps are frames shed in between. -/
theorem Sends.summed {config : ChunkerConfig D} {fed : List (Feed D)} {table : SessionTable D}
    (sends : Sends sendOptions options begin frameStart eventStart state)
    (attributed : ∀ id, ServesThroughout id state.delivered fed → Attributed config id fed table)
    (popped : ∀ feed ∈ fed, feed.frame ∈ state.delivered)
    (serves : ∀ frame ∈ state.delivered,
      ServesThroughout frame.hdr.sessionId state.delivered fed) :
    (fed.map fun feed => feed.missed.toNat).sum =
      (state.send.shed.filter (between state.delivered)).length := by
  let calls := (state.delivered.map fun frame => frame.hdr.sessionId).toFinset
  have called : ∀ frame ∈ state.delivered, frame.hdr.sessionId ∈ calls := fun frame member =>
    List.mem_toFinset.mpr (List.mem_map_of_mem member)
  have ones : ∀ frames : List AudioFrame, (frames.map fun _ => 1).sum = frames.length := by
    intro frames
    simp
  rw [LossySequence.sum_by_key (fun feed : Feed D => feed.frame.hdr.sessionId) _
      fun feed member => called _ (popped feed member),
    ← ones, LossySequence.sum_by_key (fun frame : AudioFrame => frame.hdr.sessionId)]
  · apply Finset.sum_congr rfl
    intro id member
    obtain ⟨frame, isDelivered, rfl⟩ := List.mem_map.mp (List.mem_toFinset.mp member)
    have served := serves frame isDelivered
    rw [ones, ← sends.contribution (attributed _ served) served]
    rfl
  · intro frame member
    obtain ⟨earlier, -⟩ := Bool.and_eq_true_iff.mp (List.mem_filter.mp member).2
    obtain ⟨other, isDelivered, same⟩ := List.any_eq_true.mp earlier
    rw [← (of_decide_eq_true same).1]
    exact called other isDelivered

/--
The gaps `hot_loop` has counted and the frames the producer has dropped, under
every schedule.  A call served throughout has contributed the number of its
frames shed between its first and its last delivered one.  If every call is,
the gaps are the frames shed in between, and the others dropped were shed before
the first or after the last of their calls.
-/
theorem loss_accounted {maxSessions : Nat} {config : ChunkerConfig D} {startNs : UInt64}
    {frameSlots : Vector AudioFrame frameCapacity.size}
    {eventSlots : Vector ChunkEvent eventCapacity.size} {schedule : List ShmActor}
    (ran : (initial (start maxSessions config startNs) frameStart eventStart frameSlots
      eventSlots).run sendOptions options schedule = state) :
    let fed := state.feeds options (start maxSessions config startNs)
    let gaps := state.path.hot.loop.metrics.seqGaps
    let inside := state.send.shed.filter (between state.delivered)
    let outside := state.send.shed.filter fun frame => !between state.delivered frame
    gaps = UInt64.ofNat (fed.map fun feed => feed.missed.toNat).sum ∧
    state.send.dropped = UInt64.ofNat state.send.shed.length ∧
    (∀ id, ServesThroughout id state.delivered fed →
      contribution id fed = (inside.filter fun frame => frame.hdr.sessionId = id).length) ∧
    ((∀ frame ∈ state.delivered, ServesThroughout frame.hdr.sessionId state.delivered fed) →
      gaps = UInt64.ofNat inside.length ∧
      state.send.shed.length = inside.length + outside.length ∧
      state.send.dropped = gaps + UInt64.ofNat outside.length ∧
      (state.send.shed.length < 2 ^ 64 →
        gaps ≤ state.send.dropped ∧
        state.send.dropped.toNat - gaps.toNat = outside.length)) := by
  have sends : Sends sendOptions options (start maxSessions config startNs) frameStart eventStart
      state := ran ▸ (sends_initial sendOptions options rfl frameStart eventStart frameSlots
    eventSlots).run schedule
  obtain ⟨before, iterated, counted⟩ := HotPath.seqGaps_of_simulates
    (sends.sequential.simulates _ (HotPath.heeds_getD state.path.hot.refused))
  have attributed : ∀ id, ServesThroughout id state.delivered
      (state.feeds options (start maxSessions config startNs)) →
      Attributed config id (state.feeds options (start maxSessions config startNs))
        before.sessions := by
    intro id serves
    have early : seqsOf id state.delivered <+: seqsOf id state.path.frames.pushed :=
      seqsOf_prefix sends.sequential.frames.popped_prefix
    have ascending := (sends.numbers.ascending id).sublist early.sublist
    exact (attributed_start id maxSessions config startNs).iterateAll iterated serves.opensOnce
      (serves.ascends ascending)
  have gaps := seqGaps_iterateAll iterated
  rw [counted] at gaps
  have gaps : state.path.hot.loop.metrics.seqGaps = UInt64.ofNat
      ((state.feeds options (start maxSessions config startNs)).map fun feed =>
        feed.missed.toNat).sum := gaps.trans (UInt64.zero_add _)
  refine ⟨gaps, sends.numbers.dropped,
    fun id serves => sends.contribution (attributed id serves) serves, fun serves => ?_⟩
  have popped : ∀ feed ∈ state.feeds options (start maxSessions config startNs),
      feed.frame ∈ state.delivered := by
    intro feed member
    rw [delivered, ← sends.sequential.popped]
    exact (frames_feeds _ _).subset (List.mem_map_of_mem member)
  have summed := sends.summed attributed popped serves
  rw [summed] at gaps
  have apart := List.length_eq_length_filter_add (l := state.send.shed) (between state.delivered)
  refine ⟨gaps, apart, ?_, ?_⟩
  · rw [sends.numbers.dropped, gaps, ← UInt64.ofNat_add, ← apart]
  · intro few
    have gapsNat : state.path.hot.loop.metrics.seqGaps.toNat =
        (state.send.shed.filter (between state.delivered)).length := by
      have fewer : (state.send.shed.filter (between state.delivered)).length < 2 ^ 64 := by omega
      rw [gaps]
      exact UInt64.toNat_ofNat_of_lt' fewer
    have droppedNat : state.send.dropped.toNat = state.send.shed.length := by
      rw [sends.numbers.dropped]
      exact UInt64.toNat_ofNat_of_lt' few
    rw [UInt64.le_iff_toNat_le, gapsNat, droppedNat]
    omega

open Scenario in
/-- With room for two frames the third is shed, and the fourth shows the gap. -/
theorem loss_accounted_oneShed :
    ∃ state : ShmPipeline ℚ twoSlots twoSlots,
      (initial (start 1 shortConfig 0) 0 0 (Vector.replicate _ {}) (Vector.replicate _ {})).run
        ⟨1, 4, 24000, .pcm16Le⟩ ⟨20000000, 100000000⟩
        (List.replicate 24 (.producer ⟨false, (toneFrame 0).payload, 2, 0, 1000⟩) ++
          List.replicate 20 (.hot ⟨false, 10000000⟩) ++
          List.replicate 10 (.producer ⟨false, (toneFrame 0).payload, 2, 0, 1000⟩) ++
          List.replicate 14 (.hot ⟨false, 10000000⟩)) = state ∧
      state.send.shed.length = 1 ∧
      contribution 0 (state.feeds ⟨20000000, 100000000⟩ (start 1 shortConfig 0)) = 1 ∧
      state.path.hot.loop.metrics.seqGaps = 1 ∧ state.send.dropped = 1 := by
  refine ⟨_, rfl, ?_⟩
  generalize ran : @ShmPipeline.run ℚ _ _ _ _ _ _ _ = state
  have one : state.send.shed.length = 1 := by
    rw [← ran]
    decide +kernel
  have inside : (state.send.shed.filter (between state.delivered)).length = 1 ∧
      ((state.send.shed.filter (between state.delivered)).filter fun frame =>
        frame.hdr.sessionId = 0).length = 1 := by
    rw [← ran]
    decide +kernel
  have ids : ∀ frame ∈ state.delivered, frame.hdr.sessionId = 0 := by
    rw [← ran]
    decide +kernel
  have length : (state.feeds ⟨20000000, 100000000⟩ (start 1 shortConfig 0)).length =
      (state.path.hot.ticks.filterMap Tick.popped).length := by
    rw [← ran]
    decide +kernel
  have opens : (feedsOf 0 (state.feeds ⟨20000000, 100000000⟩ (start 1 shortConfig 0))).map
      Feed.opens = true :: List.replicate 2 false := by
    rw [← ran]
    decide +kernel
  have popped : state.path.hot.ticks.filterMap Tick.popped = state.delivered := by
    rw [← ran]
    exact ((sends_initial _ _ rfl _ _ _ _).run _).sequential.popped
  have all : (state.feeds ⟨20000000, 100000000⟩ (start 1 shortConfig 0)).map Feed.frame =
      state.path.hot.ticks.filterMap Tick.popped :=
    (frames_feeds _ _).eq_of_length ((List.length_map ..).trans length)
  have served := servesThroughout_of_opens (all.trans popped) opens
  obtain ⟨-, dropped, calls, total⟩ := loss_accounted ran
  obtain ⟨gaps, -⟩ := total fun frame member => by rw [ids frame member]; exact served
  refine ⟨one, (calls 0 served).trans inside.2, ?_, ?_⟩
  · rw [gaps, inside.1]
    rfl
  · rw [dropped, one]
    rfl

end ShmPipeline

end VoiceHotPath
