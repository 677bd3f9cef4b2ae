import VoiceHotPath.Consumer.ChunkIdentity
import VoiceHotPath.Consumer.Journal

/-!
# Every chunk opened is emitted once

The chunks that have been opened are those that have been emitted and those that
are still open, whatever sweeps, refusals and reopenings a run contains.  After
the final flush none is open.
-/

namespace VoiceHotPath

namespace ChunkAssembler

variable {D : Type}

/-- The number of the open chunk. -/
def openNumbers (assembler : ChunkAssembler D) : List UInt64 :=
  if assembler.active then [assembler.nextChunkId] else []

/-- A flush emits the open chunk and leaves none. -/
theorem openNumbers_flush (assembler : ChunkAssembler D) (nowNs : UInt64) :
    assembler.openNumbers = ((assembler.flush nowNs).2.map ChunkEvent.chunkId).toList ∧
      (assembler.flush nowNs).1.active = false := by
  unfold openNumbers flush
  cases active : assembler.active with
  | false => exact ⟨rfl, active⟩
  | true => exact ⟨rfl, rfl⟩

variable [Double D]

/-- The numbers of the chunks for which `on_frame` runs `open_chunk`. -/
def openings (assembler : ChunkAssembler D) (frame : AudioFrame) (nowNs : UInt64) :
    List UInt64 :=
  let gated := assembler.gatedState frame nowNs
  let routed := gated.routeFrame frame
  (if gated.active && !assembler.active then [gated.nextChunkId] else []) ++
    if routed.active && routed.gate.speaking &&
        decide (routed.cfg.maxChunkMs ≤ routed.elapsedMs nowNs) then [routed.nextChunkId + 1]
    else []

/-- What was open and what a frame opens is what the frame closes and what is open then. -/
theorem openings_onFrame (assembler : ChunkAssembler D) (frame : AudioFrame) (nowNs : UInt64) :
    assembler.openNumbers ++ assembler.openings frame nowNs =
      ((assembler.onFrame frame nowNs).2.map ChunkEvent.chunkId).toList ++
        (assembler.onFrame frame nowNs).1.openNumbers := by
  have number := nextChunkId_gatedState assembler frame nowNs
  have routedNumber := nextChunkId_routeFrame (assembler.gatedState frame nowNs) frame
  have routedActive := active_routeFrame (assembler.gatedState frame nowNs) frame
  have before : assembler.openNumbers ++
      (if (assembler.gatedState frame nowNs).active && !assembler.active
        then [(assembler.gatedState frame nowNs).nextChunkId] else []) =
      ((assembler.gatedState frame nowNs).routeFrame frame).openNumbers := by
    unfold openNumbers
    rw [routedActive, routedNumber, active_gatedState, number]
    cases assembler.active with
    | true => simp
    | false => simp
  have same : assembler.openNumbers ++ assembler.openings frame nowNs =
      ((assembler.gatedState frame nowNs).routeFrame frame).openNumbers ++
        if ((assembler.gatedState frame nowNs).routeFrame frame).active &&
            ((assembler.gatedState frame nowNs).routeFrame frame).gate.speaking &&
            decide (((assembler.gatedState frame nowNs).routeFrame frame).cfg.maxChunkMs ≤
              ((assembler.gatedState frame nowNs).routeFrame frame).elapsedMs nowNs)
        then [((assembler.gatedState frame nowNs).routeFrame frame).nextChunkId + 1] else [] := by
    rw [← before, List.append_assoc]
    rfl
  rw [same, onFrame_eq]
  generalize (assembler.gatedState frame nowNs).routeFrame frame = routed
  rcases closeFrame_cases routed nowNs with ⟨inactive, closed⟩ | ⟨active, ended, closed⟩ |
    ⟨active, going, capped, closed⟩ | ⟨active, going, brief, closed⟩
  · rw [closed, inactive]
    simp
  · rw [closed, ended]
    simp [openNumbers, active, closeChunk]
  · rw [closed, active, going, decide_eq_true capped]
    simp [openNumbers, active, closeChunk, openChunk]
  · rw [closed, decide_eq_false brief]
    simp

end ChunkAssembler

namespace Session

variable {D : Type}

/-- The identity of the open chunk of a session. -/
def openChunk (session : Session D) : List (UInt32 × UInt64) :=
  session.assembler.openNumbers.map fun number => (session.id, number)

/-- A sweep emits the open chunk of a session it closes, and leaves the others open. -/
theorem openChunk_swept (due : Session D → Bool) (nowNs : UInt64) (session : Session D) :
    ((session.sweptTail due nowNs).map ChunkEvent.identity).toList ++
        (session.swept due nowNs).openChunk = session.openChunk := by
  unfold sweptTail swept
  cases isDue : session.active && due session with
  | false => rfl
  | true =>
      obtain ⟨emitted, inactive⟩ := session.assembler.openNumbers_flush nowNs
      have none : (session.closed nowNs).openChunk = [] := by
        have closed : (session.closed nowNs).assembler.active = false := inactive
        rw [openChunk, ChunkAssembler.openNumbers, closed]
        rfl
      rw [if_pos rfl, if_pos rfl, none, List.append_nil, tail, openChunk, emitted]
      cases (session.assembler.flush nowNs).2 <;> rfl

end Session

namespace SessionTable

variable {D : Type} {table next : SessionTable D}

/-- The identities of the chunks that are open. -/
def openChunks (table : SessionTable D) : List (UInt32 × UInt64) :=
  table.sessions.flatMap Session.openChunk

theorem filterMap_range {α β : Type} (items : List α) (f : α → Option β) :
    (List.range items.length).filterMap (fun i => items[i]?.bind f) = items.filterMap f := by
  induction items with
  | nil => rfl
  | cons item rest ih =>
      rw [List.length_cons, List.range_succ_eq_map, List.filterMap_cons, List.filterMap_map,
        List.filterMap_cons, ← ih]
      rfl

theorem flatMap_filterMap {α β γ : Type} (items : List α) (f : α → Option β) (g : β → γ) :
    (items.filterMap f).map g = items.flatMap fun item => ((f item).map g).toList := by
  induction items with
  | nil => rfl
  | cons item rest ih =>
      rw [List.filterMap_cons, List.flatMap_cons, ← ih]
      cases f item <;> rfl

/-- A sweep emits the chunks it closes. -/
theorem openChunks_sweepAll {due : Session D → Bool} {nowNs : UInt64} {tails : List ChunkEvent}
    (sized : table.sessions.length = table.maxSessions)
    (returned : sweepAll due table nowNs = some (next, tails)) :
    (tails.map ChunkEvent.identity ++ next.openChunks).Perm table.openChunks ∧
      next.sessions = table.sessions.map (Session.swept due nowNs) := by
  have leaves := leaves_of_sweepAll returned
  have sessions : next.sessions = table.sessions.map (Session.swept due nowNs) := by
    apply List.ext_getElem?
    intro i
    rw [leaves.sessions, List.getElem?_map]
    cases here : table.sessions[i]? with
    | none => rfl
    | some session =>
        have inside : i ∈ List.range table.maxSessions := by
          rw [List.mem_range, ← sized]
          exact (List.getElem?_eq_some_iff.mp here).1
        simp [inside]
  have emitted : tails.map ChunkEvent.identity = table.sessions.flatMap fun session =>
      ((session.sweptTail due nowNs).map ChunkEvent.identity).toList := by
    rw [leaves.events_eq, ← sized, filterMap_range, flatMap_filterMap]
  refine ⟨?_, sessions⟩
  have split := List.flatMap_append_perm table.sessions
    (fun session => ((session.sweptTail due nowNs).map ChunkEvent.identity).toList)
    fun session => (session.swept due nowNs).openChunk
  simp only [Session.openChunk_swept] at split
  rw [emitted, openChunks, sessions, List.flatMap_map]
  exact split

/-- A fed frame replaces the session it reaches. -/
theorem sessions_fed [Double D] {frame : AudioFrame} {nowNs : UInt64} {feed : Feed D}
    {session : Session D} (fed : table.feedOf frame nowNs = some feed)
    (here : table.sessions[feed.storage]? = some session) :
    ((table.acquire frame.hdr.sessionId nowNs).1.modifySession feed.storage
      (Session.served frame nowNs)).sessions = table.sessions.set feed.storage feed.served := by
  apply List.ext_getElem?
  intro j
  rw [sessions_served fed, List.getElem?_set]
  split
  · rename_i same
    exact (if_pos (same ▸ (List.getElem?_eq_some_iff.mp here).1)).symm
  · rfl

end SessionTable

/-- Outside a call no assembler has a chunk open. -/
def idleClosed {D : Type} [Double D] (config : ChunkerConfig D) : SessionInvariant config where
  opened := fun _ _ => True
  idle := fun session => session.assembler.active = false
  fresh := rfl
  openFor := fun _ _ _ _ => trivial
  stamp := fun _ _ _ _ => trivial
  served := fun _ _ _ _ _ => trivial
  closed := fun _ session nowNs _ => (session.assembler.openNumbers_flush nowNs).2

/-- The identities of the chunks a frame opens. -/
def Feed.openings {D : Type} [Double D] (feed : Feed D) : List (UInt32 × UInt64) :=
  (feed.session.assembler.openings feed.frame feed.nowNs).map fun number =>
    (feed.session.id, number)

namespace HotLoop

variable {D : Type} [Double D]

/-- The identities of the chunks an iteration opens. -/
def opened (full : Nat → Bool) (options : LoopOptions) (loop : HotLoop D) (tick : Tick) :
    List (UInt32 × UInt64) :=
  (loop.feed full options tick).elim [] Feed.openings

/-- The identities of the chunks a run opens. -/
def openedAll (full : Nat → Bool) (options : LoopOptions) :
    HotLoop D → List Tick → List (UInt32 × UInt64)
  | _, [] => []
  | loop, tick :: ticks =>
      loop.opened full options tick ++
        (loop.iterate full options tick).elim [] fun next => openedAll full options next ticks

/-- What has been opened is what has been emitted and what is open. -/
structure Balanced (config : ChunkerConfig D) (journal : Journal)
    (opened : List (UInt32 × UInt64)) (loop : HotLoop D) : Prop where
  journaled : Journaled (idleClosed config) loop.sessions journal
  sized : loop.sessions.sessions.length = loop.sessions.maxSessions
  balance : (loop.emitted.map ChunkEvent.identity ++ loop.sessions.openChunks).Perm opened

section

variable {full : Nat → Bool} {options : LoopOptions} {config : ChunkerConfig D}
  {journal : Journal} {opened : List (UInt32 × UInt64)} {loop : HotLoop D}

theorem Balanced.swept (balanced : Balanced config journal opened loop)
    {due : Session D → Bool} {nowNs : UInt64} {sessions : SessionTable D}
    {tails : List ChunkEvent}
    (returned : SessionTable.sweepAll due loop.sessions nowNs = some (sessions, tails)) :
    Journaled (idleClosed config) sessions journal ∧
      sessions.sessions.length = sessions.maxSessions ∧
      ((loop.emitted ++ tails).map ChunkEvent.identity ++ sessions.openChunks).Perm opened := by
  obtain ⟨emitted, kept⟩ := SessionTable.openChunks_sweepAll balanced.sized returned
  refine ⟨balanced.journaled.sweepAll returned, ?_, ?_⟩
  · rw [kept, List.length_map, balanced.sized, SessionTable.maxSessions_sweepAll returned]
  · rw [List.map_append, List.append_assoc]
    exact (emitted.append_left _).trans balanced.balance

theorem Balanced.sweep (balanced : Balanced config journal opened loop) {loopNs : UInt64}
    {swept : HotLoop D} (returned : loop.sweep full options loopNs = some swept) :
    Balanced config journal opened swept := by
  rcases sweep_cases returned with ⟨-, sessions, tails, expired, rfl⟩ | ⟨-, rfl⟩
  · obtain ⟨journaled, sized, balance⟩ := balanced.swept expired
    obtain ⟨kept, emitted⟩ := emitAll_keeps full
      { loop with sessions := sessions, nextSweepNs := loopNs + sweepIntervalNs } tails
    exact ⟨kept.symm ▸ journaled, kept.symm ▸ sized, by rw [kept, emitted]; exact balance⟩
  · exact balanced

/-- The session a frame is fed to has the chunk open that its storage had open before. -/
theorem Balanced.openChunk_fed (balanced : Balanced config journal opened loop)
    {frame : AudioFrame} {nowNs : UInt64} {feed : Feed D}
    (fed : loop.sessions.feedOf frame nowNs = some feed) :
    ∃ session, loop.sessions.sessions[feed.storage]? = some session ∧
      feed.session.openChunk = session.openChunk := by
  rcases loop.sessions.feedOf_cases frame nowNs with ⟨refused, -⟩ |
    ⟨i, session, here, -, same, -⟩ | ⟨i, session, opens, here, free, -, same, -⟩
  · rw [refused] at fed
    cases fed
  · rw [same] at fed
    cases fed
    exact ⟨session, here, rfl⟩
  · rw [same] at fed
    cases fed
    have inactive := balanced.journaled.pooled.free i free
    rw [SessionTable.activeAt, here, Option.any_some] at inactive
    have closed : session.assembler.active = false :=
      balanced.journaled.idle i session here inactive
    have closed' : (session.openFor frame.hdr.sessionId nowNs).assembler.active = false := closed
    refine ⟨session, here, ?_⟩
    rw [Session.openChunk, Session.openChunk, ChunkAssembler.openNumbers,
      ChunkAssembler.openNumbers, closed, closed']
    rfl

/-- A frame moves the chunks of the session it is fed to, and no others. -/
theorem Balanced.openChunks_fed (balanced : Balanced config journal opened loop)
    {frame : AudioFrame} {nowNs : UInt64} {feed : Feed D}
    (fed : loop.sessions.feedOf frame nowNs = some feed) :
    (feed.closes.toList.map ChunkEvent.identity ++
      ((loop.sessions.acquire frame.hdr.sessionId nowNs).1.modifySession feed.storage
        (Session.served frame nowNs)).openChunks).Perm
      (loop.sessions.openChunks ++ feed.openings) := by
  obtain ⟨session, here, sameChunk⟩ := balanced.openChunk_fed fed
  obtain ⟨inside, at_i⟩ := List.getElem?_eq_some_iff.mp here
  have sessions := SessionTable.sessions_fed fed here
  have balance : session.openChunk ++ feed.openings =
      feed.closes.toList.map ChunkEvent.identity ++ feed.served.openChunk := by
    obtain ⟨id, -, assembler⟩ := Session.served_keeps feed.frame feed.nowNs feed.session
    have numbers := feed.session.assembler.openings_onFrame feed.frame feed.nowNs
    have closes : feed.closes.toList.map ChunkEvent.identity =
        ((feed.session.assembler.onFrame feed.frame feed.nowNs).2.map
          ChunkEvent.chunkId).toList.map fun number => (feed.session.id, number) := by
      rw [Feed.closes]
      cases (feed.session.assembler.onFrame feed.frame feed.nowNs).2 <;> rfl
    rw [← sameChunk, closes, Session.openChunk, Feed.openings, ← List.map_append, numbers,
      List.map_append, Session.openChunk, Feed.served, id, assembler]
  have before := List.take_append_drop feed.storage loop.sessions.sessions
  rw [List.drop_eq_getElem_cons inside, at_i] at before
  rw [SessionTable.openChunks, SessionTable.openChunks, sessions,
    List.set_eq_take_append_cons_drop, if_pos inside]
  conv_rhs => rw [← before]
  rw [List.flatMap_append, List.flatMap_cons, List.flatMap_append, List.flatMap_cons]
  apply List.perm_iff_count.mpr
  intro identity
  have counts := congrArg (List.count identity) balance
  simp only [List.count_append] at counts ⊢
  omega

/-- Step lemma: an iteration keeps the balance. -/
theorem Balanced.iterate (balanced : Balanced config journal opened loop) {tick : Tick}
    {next : HotLoop D} (stepped : loop.iterate full options tick = some next) :
    Balanced config (loop.note full options journal tick)
      (opened ++ loop.opened full options tick) next := by
  have journaled := balanced.journaled.iterate stepped
  obtain ⟨swept, returned, ⟨popped, rfl⟩ | ⟨frame, popped, rfl⟩⟩ := iterate_cases stepped
  · have unfed : loop.feed full options tick = none := by
      rw [feed, returned, popped]
      rfl
    have kept := balanced.sweep returned
    rw [HotLoop.opened, unfed]
    exact ⟨journaled, kept.sized, by rw [Option.elim_none, List.append_nil]; exact kept.balance⟩
  · have kept := balanced.sweep returned
    have same : loop.feed full options tick = swept.sessions.feedOf frame tick.dequeueNs := by
      rw [feed, returned, popped]
      rfl
    rw [HotLoop.opened, same]
    cases fed : swept.sessions.feedOf frame tick.dequeueNs with
    | none =>
        have acquired := SessionTable.sessions_of_refused fed
        refine ⟨journaled, ?_, ?_⟩
        · rw [serve_of_refused fed]
          change (swept.sessions.acquire _ _).1.sessions.length =
            (swept.sessions.acquire _ _).1.maxSessions
          rw [acquired, SessionTable.maxSessions_acquire]
          exact kept.sized
        · rw [serve_of_refused fed, Option.elim_none, List.append_nil,
            SessionTable.openChunks, acquired]
          exact kept.balance
    | some feed =>
        obtain ⟨sessions, emitted⟩ := emitAll_keeps full
          { swept with
            sessions := (swept.sessions.acquire frame.hdr.sessionId tick.dequeueNs).1.modifySession
              feed.storage (Session.served frame tick.dequeueNs)
            metrics := feed.observed options swept.metrics } feed.closes.toList
        have chunks := kept.openChunks_fed fed
        refine ⟨journaled, ?_, ?_⟩
        · obtain ⟨session, here, -⟩ := kept.openChunk_fed fed
          rw [serve_of_fed fed, sessions, SessionTable.sessions_fed fed here, List.length_set,
            kept.sized]
          exact (SessionTable.maxSessions_acquire _ _ _).symm
        · rw [serve_of_fed fed, sessions, emitted, Option.elim_some]
          apply List.perm_iff_count.mpr
          intro identity
          have counts := List.perm_iff_count.mp chunks identity
          have before := List.perm_iff_count.mp kept.balance identity
          simp only [List.map_append, List.count_append] at counts before ⊢
          omega

/-- Run lemma: a run keeps the balance. -/
theorem Balanced.iterateAll (balanced : Balanced config journal opened loop) {ticks : List Tick}
    {final : HotLoop D} (ran : iterateAll full options loop ticks = some final) :
    Balanced config (loop.heard full options journal ticks)
      (opened ++ loop.openedAll full options ticks) final := by
  induction ticks generalizing loop journal opened with
  | nil =>
      cases ran
      rw [openedAll, List.append_nil]
      exact balanced
  | cons tick ticks ih =>
      obtain ⟨next, stepped, rest⟩ := Option.bind_eq_some_iff.mp ran
      rw [heard, openedAll, stepped, Option.elim_some, Option.elim_some, ← List.append_assoc]
      exact ih (balanced.iterate stepped) rest

end

theorem balanced_start (maxSessions : Nat) (config : ChunkerConfig D) (startNs : UInt64) :
    Balanced config (fun _ => []) [] (start maxSessions config startNs) := by
  refine ⟨.make _ maxSessions, List.length_replicate, ?_⟩
  have none : (SessionTable.make maxSessions config).openChunks = [] := by
    apply List.flatMap_eq_nil_iff.mpr
    intro session member
    rw [SessionTable.eq_make_of_mem member]
    rfl
  change ([] ++ (SessionTable.make maxSessions config).openChunks).Perm []
  rw [none]
  exact List.Perm.refl _

/-- Every chunk a run of the loop opens is emitted once, and none stays open. -/
theorem emitted_opened {full : Nat → Bool} {options : LoopOptions} {maxSessions : Nat}
    {config : ChunkerConfig D} {startNs endNs : UInt64} {ticks : List Tick} {final : HotLoop D}
    (ran : hotLoop full options maxSessions config startNs ticks endNs = some final) :
    (final.emitted.map ChunkEvent.identity).Perm
        ((start maxSessions config startNs).openedAll full options ticks) ∧
      ∀ session ∈ final.sessions.sessions, session.assembler.active = false := by
  obtain ⟨before, iterated, finished⟩ := Option.bind_eq_some_iff.mp ran
  obtain ⟨⟨sessions, tails⟩, flushed, rfl⟩ := Option.map_eq_some_iff.mp finished
  have balanced := (balanced_start maxSessions config startNs).iterateAll iterated
  rw [List.nil_append] at balanced
  obtain ⟨-, kept⟩ := SessionTable.openChunks_sweepAll balanced.sized flushed
  obtain ⟨-, -, balance⟩ := balanced.swept flushed
  have closed : ∀ session ∈ sessions.sessions, session.assembler.active = false := by
    rw [kept]
    intro session' member
    obtain ⟨session, listed, rfl⟩ := List.mem_map.mp member
    obtain ⟨i, here⟩ := List.mem_iff_getElem?.mp listed
    cases active : session.active with
    | false =>
        rw [Session.swept_of_not_due (by rw [active]; rfl)]
        exact balanced.journaled.idle i session here active
    | true =>
        rw [Session.swept_of_due (by rw [active]; rfl)]
        exact (session.assembler.openNumbers_flush endNs).2
  have none : sessions.openChunks = [] := by
    apply List.flatMap_eq_nil_iff.mpr
    intro session member
    rw [Session.openChunk, ChunkAssembler.openNumbers, closed session member]
    rfl
  obtain ⟨same, emitted⟩ := emitAll_keeps full { before with sessions := sessions } tails
  dsimp only
  rw [same, emitted]
  rw [none, List.append_nil] at balance
  exact ⟨balance, closed⟩

end HotLoop

end VoiceHotPath
