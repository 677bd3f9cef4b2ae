import VoiceHotPath.Consumer.HotLoop
import VoiceHotPath.Session.Isolation

/-!
# The identity of a chunk

A chunk is identified by its call and by the counter of the assembler that
assembled it.  The counter survives the call, the call may come back on other
storage: identities are unique as long as every call is opened on storage whose
counter has passed all chunks the call has had so far.
-/

namespace VoiceHotPath

def ChunkEvent.identity (event : ChunkEvent) : UInt32 × UInt64 :=
  (event.sessionId, event.chunkId)

theorem next_lt {counter : UInt64} {bound : Nat} (counted : counter.toNat ≤ bound)
    (small : bound + 1 < 2 ^ 64) : counter < counter + 1 ∧ (counter + 1).toNat ≤ bound + 1 := by
  have next : (counter + 1).toNat = counter.toNat + 1 := WrappingCounter.toNat_succ (by omega)
  rw [UInt64.lt_iff_toNat_lt, next]
  omega

namespace ChunkAssembler

section

variable {D : Type}

/-- The outcome of a call that numbers the chunk it closes. -/
structure Numbers (before after : ChunkAssembler D) (event : Option ChunkEvent) : Prop where
  closed : ∀ closed, event = some closed →
    closed.chunkId = before.nextChunkId ∧ after.nextChunkId = before.nextChunkId + 1
  still : event = none → after.nextChunkId = before.nextChunkId

theorem Numbers.stamped {before after : ChunkAssembler D} {event : Option ChunkEvent}
    (numbers : Numbers before after event) (id : UInt32) :
    Numbers before after (event.map fun closed => { closed with sessionId := id }) := by
  refine ⟨fun closed same => ?_, fun none => numbers.still (Option.map_eq_none_iff.mp none)⟩
  obtain ⟨unstamped, here, rfl⟩ := Option.map_eq_some_iff.mp same
  exact numbers.closed unstamped here

/-- The counter is as far ahead as chunks are numbered. -/
theorem Numbers.counter {before after : ChunkAssembler D} {event : Option ChunkEvent}
    (numbers : Numbers before after event) {bound : Nat}
    (counted : before.nextChunkId.toNat ≤ bound) (small : bound + 1 < 2 ^ 64) :
    before.nextChunkId ≤ after.nextChunkId ∧
      after.nextChunkId.toNat ≤ bound + event.toList.length ∧
      (event.isSome = true → before.nextChunkId < after.nextChunkId) := by
  cases same : event with
  | none =>
      rw [numbers.still same]
      exact ⟨UInt64.le_refl _, counted, fun absent => by cases absent⟩
  | some closed =>
      obtain ⟨above, within⟩ := next_lt counted small
      rw [(numbers.closed closed same).2]
      exact ⟨UInt64.le_of_lt above, within, fun _ => above⟩

theorem numbers_closeChunk (assembler : ChunkAssembler D) (reason : CloseReason)
    (nowNs : UInt64) :
    Numbers assembler (assembler.closeChunk reason nowNs).1
      (assembler.closeChunk reason nowNs).2 := by
  refine ⟨fun closed same => ?_, fun absent => by cases absent⟩
  cases same
  exact ⟨rfl, rfl⟩

theorem numbers_flush (assembler : ChunkAssembler D) (nowNs : UInt64) :
    Numbers assembler (assembler.flush nowNs).1 (assembler.flush nowNs).2 := by
  unfold flush
  split
  · exact ⟨(fun _ absent => by cases absent), fun _ => rfl⟩
  · exact assembler.numbers_closeChunk .streamEnd nowNs

variable [Double D]

theorem nextChunkId_gatedState (assembler : ChunkAssembler D) (frame : AudioFrame)
    (nowNs : UInt64) :
    (assembler.gatedState frame nowNs).nextChunkId = assembler.nextChunkId := by
  cases opened : assembler.opens frame nowNs with
  | true => simp [gatedState_of_opens opened, countGap_eq]
  | false => simp [gatedState_of_not_opens opened, countGap_eq]

theorem numbers_onFrame (assembler : ChunkAssembler D) (frame : AudioFrame) (nowNs : UInt64) :
    Numbers assembler (assembler.onFrame frame nowNs).1 (assembler.onFrame frame nowNs).2 := by
  have kept : ((assembler.gatedState frame nowNs).routeFrame frame).nextChunkId =
      assembler.nextChunkId := by
    rw [nextChunkId_routeFrame, nextChunkId_gatedState]
  rw [onFrame_eq]
  rcases closeFrame_cases ((assembler.gatedState frame nowNs).routeFrame frame) nowNs with
    ⟨-, same⟩ | ⟨-, -, same⟩ | ⟨-, -, -, same⟩ | ⟨-, -, -, same⟩
  · rw [same]
    exact ⟨(fun _ absent => by cases absent), fun _ => kept⟩
  · rw [same]
    obtain ⟨closed, -⟩ := numbers_closeChunk
      ((assembler.gatedState frame nowNs).routeFrame frame) .hangover nowNs
    rw [kept] at closed
    exact ⟨closed, fun absent => by cases absent⟩
  · rw [same]
    obtain ⟨closed, -⟩ := numbers_closeChunk
      ((assembler.gatedState frame nowNs).routeFrame frame) .maxLength nowNs
    rw [kept] at closed
    exact ⟨closed, fun absent => by cases absent⟩
  · rw [same]
    exact ⟨(fun _ absent => by cases absent), fun _ => kept⟩

end

end ChunkAssembler

namespace HotLoop

section

variable {D : Type}

/-- What holds of a table and of the events emitted so far; `bound` grows by two a frame. -/
structure Numbered (table : SessionTable D) (emitted : List ChunkEvent) (bound : Nat) :
    Prop where
  ok : table.Ok
  distinct : (emitted.map ChunkEvent.identity).Nodup
  ahead : ∀ i ∈ table.openStorage, ∀ session, table.sessions[i]? = some session →
    ∀ event ∈ emitted, event.sessionId = session.id →
      event.chunkId < session.assembler.nextChunkId
  counted : ∀ session ∈ table.sessions, session.assembler.nextChunkId.toNat ≤ emitted.length
  few : emitted.length + table.openStorage.card ≤ bound

variable {table : SessionTable D} {emitted : List ChunkEvent} {bound : Nat}
  {full : Nat → Bool} {options : LoopOptions} {loop : HotLoop D}

/-! ## Sweeps -/

/-- A sweep numbers the chunk it cuts off. -/
theorem numbers_swept (due : Session D → Bool) (nowNs : UInt64) (session : Session D) :
    session.assembler.Numbers (session.swept due nowNs).assembler
      (session.sweptTail due nowNs) := by
  cases isDue : session.active && due session with
  | false =>
      rw [Session.swept_of_not_due isDue, Session.sweptTail, isDue]
      exact ⟨(fun _ absent => by cases absent), fun _ => rfl⟩
  | true =>
      rw [Session.swept_of_due isDue, Session.sweptTail, if_pos isDue]
      exact (session.assembler.numbers_flush nowNs).stamped session.id

/-- A tail event carries the number of the chunk its session had open. -/
theorem identity_of_tail {due : Session D → Bool} {nowNs : UInt64} {session : Session D}
    {event : ChunkEvent} (tail : session.sweptTail due nowNs = some event) :
    (session.active && due session) = true ∧
      event.identity = (session.id, session.assembler.nextChunkId) := by
  have number := ((numbers_swept due nowNs session).closed event tail).1
  unfold Session.sweptTail at tail
  split at tail
  · rename_i isDue
    obtain ⟨closed, flushed, rfl⟩ := Option.map_eq_some_iff.mp tail
    exact ⟨isDue, Prod.ext rfl number⟩
  · cases tail

section

variable {due : Session D → Bool} {nowNs : UInt64} {next : SessionTable D}
  {events : List ChunkEvent}

theorem tail_of_mem
    (done : SessionTable.Swept due nowNs (List.range table.maxSessions) table next events)
    {event : ChunkEvent} (member : event ∈ events) :
    ∃ (i : Nat) (session : Session D), table.sessions[i]? = some session ∧
      (session.active && due session) = true ∧
      event.identity = (session.id, session.assembler.nextChunkId) := by
  rw [done.events_eq] at member
  obtain ⟨i, -, found⟩ := List.mem_filterMap.mp member
  obtain ⟨session, here, tail⟩ := Option.bind_eq_some_iff.mp found
  exact ⟨i, session, here, identity_of_tail tail⟩

/-- The tails of one sweep come from sessions of different calls. -/
theorem nodup_tails (ok : table.Ok)
    (done : SessionTable.Swept due nowNs (List.range table.maxSessions) table next events) :
    (events.map ChunkEvent.sessionId).Nodup := by
  rw [done.events_eq, List.map_filterMap]
  apply List.Nodup.filterMap _ List.nodup_range
  intro i j id left right
  obtain ⟨event, tail, rfl⟩ := Option.map_eq_some_iff.mp left
  obtain ⟨event', tail', same⟩ := Option.map_eq_some_iff.mp right
  obtain ⟨session, here, tail⟩ := Option.bind_eq_some_iff.mp tail
  obtain ⟨session', here', tail'⟩ := Option.bind_eq_some_iff.mp tail'
  obtain ⟨isDue, identity⟩ := identity_of_tail tail
  obtain ⟨isDue', identity'⟩ := identity_of_tail tail'
  obtain ⟨active, -⟩ := Bool.and_eq_true_iff.mp isDue
  obtain ⟨active', -⟩ := Bool.and_eq_true_iff.mp isDue'
  apply ok.ids i (SessionTable.mem_openStorage.mpr ⟨session, here, active⟩) j
    (SessionTable.mem_openStorage.mpr ⟨session', here', active'⟩)
  rw [SessionTable.idAt_of_getElem? here, SessionTable.idAt_of_getElem? here']
  have left := congrArg Prod.fst identity
  have right := congrArg Prod.fst identity'
  exact left.symm.trans (same.symm.trans right)

/-- A sweep emits at most one tail for each session it closes. -/
theorem length_tails (ok : table.Ok)
    (done : SessionTable.Swept due nowNs (List.range table.maxSessions) table next events) :
    events.length + next.openStorage.card ≤ table.openStorage.card := by
  have within : next.openStorage ⊆ table.openStorage := by
    intro i opened
    obtain ⟨session', found, active'⟩ := SessionTable.mem_openStorage.mp opened
    cases here : table.sessions[i]? with
    | none =>
        rw [done.none_eq here] at found
        cases found
    | some session =>
        rw [done.session_eq ok here] at found
        cases found
        rw [Session.active_swept, Bool.and_eq_true] at active'
        exact SessionTable.mem_openStorage.mpr ⟨session, here, active'.1⟩
  have ids : (events.map ChunkEvent.sessionId).toFinset ⊆
      (table.openStorage \ next.openStorage).image table.idAt := by
    intro id member
    rw [List.mem_toFinset, List.mem_map] at member
    obtain ⟨event, member, rfl⟩ := member
    obtain ⟨i, session, here, isDue, identity⟩ := tail_of_mem done member
    obtain ⟨active, isDue⟩ := Bool.and_eq_true_iff.mp isDue
    rw [Finset.mem_image]
    refine ⟨i, Finset.mem_sdiff.mpr ⟨?_, fun still => ?_⟩, ?_⟩
    · exact SessionTable.mem_openStorage.mpr ⟨session, here, active⟩
    · obtain ⟨session', found, active'⟩ := SessionTable.mem_openStorage.mp still
      rw [done.session_eq ok here] at found
      cases found
      rw [Session.active_swept, active, isDue] at active'
      cases active'
    · rw [SessionTable.idAt_of_getElem? here]
      exact (congrArg Prod.fst identity).symm
  have count := List.toFinset_card_of_nodup (nodup_tails ok done)
  have enough := Nat.le_trans (Finset.card_le_card ids) Finset.card_image_le
  have split := Finset.card_sdiff_of_subset within
  have fewer := Finset.card_le_card within
  rw [List.length_map] at count
  omega

/-- The tails of a sweep have numbers that no chunk had before. -/
theorem Numbered.distinct_swept (numbered : Numbered table emitted bound)
    (done : SessionTable.Swept due nowNs (List.range table.maxSessions) table next events) :
    ((emitted ++ events).map ChunkEvent.identity).Nodup := by
  rw [List.map_append]
  apply List.nodup_append'.mpr
  refine ⟨numbered.distinct, ?_, ?_⟩
  · have ids := nodup_tails numbered.ok done
    have split : events.map ChunkEvent.sessionId =
        (events.map ChunkEvent.identity).map Prod.fst := by
      rw [List.map_map]
      rfl
    rw [split] at ids
    exact ids.of_map
  · intro identity old new
    obtain ⟨before, member, rfl⟩ := List.mem_map.mp old
    obtain ⟨event, member', same⟩ := List.mem_map.mp new
    obtain ⟨i, session, here, isDue, number⟩ := tail_of_mem done member'
    obtain ⟨active, -⟩ := Bool.and_eq_true_iff.mp isDue
    rw [number] at same
    obtain ⟨id, chunk⟩ := Prod.mk.inj same
    have below := numbered.ahead i (SessionTable.mem_openStorage.mpr ⟨session, here, active⟩)
      session here before member id.symm
    rw [chunk] at below
    exact UInt64.lt_irrefl _ below

/-- A session left open by a sweep is that of another call than those closed. -/
theorem Numbered.ahead_swept (numbered : Numbered table emitted bound)
    (done : SessionTable.Swept due nowNs (List.range table.maxSessions) table next events) {i : Nat}
    (opened : i ∈ next.openStorage) {session' : Session D}
    (found : next.sessions[i]? = some session') {event : ChunkEvent}
    (member : event ∈ emitted ++ events) (same : event.sessionId = session'.id) :
    event.chunkId < session'.assembler.nextChunkId := by
  have ok := numbered.ok
  obtain ⟨session'', found', active'⟩ := SessionTable.mem_openStorage.mp opened
  rw [found] at found'
  cases found'
  cases here : table.sessions[i]? with
  | none =>
      rw [done.none_eq here] at found
      cases found
  | some session =>
      rw [done.session_eq ok here] at found
      cases found
      rw [Session.active_swept, Bool.and_eq_true] at active'
      obtain ⟨active, notDue⟩ := active'
      have keptDue : (session.active && due session) = false := by
        rw [active, Bool.true_and]
        exact Bool.not_eq_true' _ |>.mp notDue
      have stays := SessionTable.mem_openStorage.mpr ⟨session, here, active⟩
      rw [Session.swept_of_not_due keptDue] at same ⊢
      rcases List.mem_append.mp member with old | new
      · exact numbered.ahead i stays session here event old same
      · obtain ⟨j, closing, there, isDue, identity⟩ := tail_of_mem done new
        obtain ⟨active', isDue'⟩ := Bool.and_eq_true_iff.mp isDue
        have apart := ok.ids i stays j
          (SessionTable.mem_openStorage.mpr ⟨closing, there, active'⟩)
        rw [SessionTable.idAt_of_getElem? here, SessionTable.idAt_of_getElem? there] at apart
        have id : event.sessionId = closing.id := congrArg Prod.fst identity
        obtain rfl := apart (same.symm.trans id)
        rw [here] at there
        cases there
        rw [keptDue] at isDue
        cases isDue

/-- No counter passes the number of chunks emitted. -/
theorem Numbered.counted_swept (numbered : Numbered table emitted bound) (brief : bound < 2 ^ 64)
    (done : SessionTable.Swept due nowNs (List.range table.maxSessions) table next events)
    {session' : Session D} (member : session' ∈ next.sessions) :
    session'.assembler.nextChunkId.toNat ≤ (emitted ++ events).length := by
  have ok := numbered.ok
  have few := numbered.few
  obtain ⟨i, found⟩ := List.mem_iff_getElem?.mp member
  cases here : table.sessions[i]? with
  | none =>
      rw [done.none_eq here] at found
      cases found
  | some session =>
      rw [done.session_eq ok here] at found
      cases found
      have counted := numbered.counted session (List.mem_of_getElem? here)
      rw [List.length_append]
      cases isDue : session.active && due session with
      | false =>
          rw [Session.swept_of_not_due isDue]
          exact Nat.le_trans counted (Nat.le_add_right _ _)
      | true =>
          have opened := SessionTable.mem_openStorage.mpr
            ⟨session, here, (Bool.and_eq_true_iff.mp isDue).1⟩
          have positive : 0 < table.openStorage.card := Finset.card_pos.mpr ⟨i, opened⟩
          obtain ⟨-, within, -⟩ := (numbers_swept due nowNs session).counter counted (by omega)
          refine within.trans (Nat.add_le_add_left ?_ _)
          cases tail : session.sweptTail due nowNs with
          | none => exact Nat.zero_le _
          | some event =>
              refine List.length_pos_of_mem (a := event) ?_
              rw [done.events_eq]
              refine List.mem_filterMap.mpr ⟨i, ?_, by rw [here]; exact tail⟩
              rw [List.mem_range, ← ok.sessionsLength]
              exact (List.getElem?_eq_some_iff.mp here).1

/-- A sweep keeps the numbering. -/
theorem Numbered.swept (numbered : Numbered table emitted bound) (brief : bound < 2 ^ 64)
    (done : SessionTable.Swept due nowNs (List.range table.maxSessions) table next events) :
    Numbered next (emitted ++ events) bound where
  ok := done.ok
  distinct := numbered.distinct_swept done
  ahead := fun _ opened _ found _ member same => numbered.ahead_swept done opened found member same
  counted := fun _ member => numbered.counted_swept brief done member
  few := by
    have fewer := length_tails numbered.ok done
    have few := numbered.few
    rw [List.length_append]
    omega

end

/-! ## Serving a frame -/

/-- A call without a session would be opened on storage whose counter has passed
every chunk emitted for the call. -/
def advances (table : SessionTable D) (emitted : List ChunkEvent) (id : UInt32) : Bool :=
  (table.sessions.any fun session => session.active && session.id == id) ||
    table.freeList.head?.all fun index => table.sessions[index]?.all fun session =>
      emitted.all fun event =>
        event.sessionId != id || decide (event.chunkId < session.assembler.nextChunkId)

theorem Numbered.weaken (numbered : Numbered table emitted bound) {more : Nat}
    (enough : bound ≤ more) : Numbered table emitted more :=
  ⟨numbered.ok, numbered.distinct, numbered.ahead, numbered.counted,
    Nat.le_trans numbered.few enough⟩

/-- An edit of the session alone changes no number. -/
theorem Numbered.modifySession (numbered : Numbered table emitted bound) (i : Nat)
    (edit : Session D → Session D) (sameId : ∀ session, (edit session).id = session.id)
    (sameActive : ∀ session, (edit session).active = session.active)
    (sameAssembler : ∀ session, (edit session).assembler = session.assembler) :
    Numbered (table.modifySession i edit) emitted bound := by
  obtain ⟨ok, storage, -⟩ := numbered.ok.modifySession i edit sameId sameActive
  refine ⟨ok, numbered.distinct, ?_, ?_, ?_⟩
  · intro j opened session' found event member same
    rw [storage] at opened
    rw [SessionTable.modifySession, List.getElem?_modify] at found
    obtain ⟨session, here, rfl⟩ := Option.map_eq_some_iff.mp found
    have before := numbered.ahead j opened session here event member
    split at same
    · rename_i edited
      rw [sameId] at same
      rw [if_pos edited, sameAssembler]
      exact before same
    · rename_i apart
      rw [if_neg apart]
      exact before same
  · intro session' member
    rcases mem_modify member with kept | ⟨before, here, rfl⟩
    · exact numbered.counted session' kept
    · rw [sameAssembler]
      exact numbered.counted before (List.mem_of_getElem? here)
  · rw [storage]
    exact numbered.few

/-- Acquiring a session keeps the numbering, if a session it opens advances. -/
theorem Numbered.acquire (numbered : Numbered table emitted bound) (id : UInt32)
    (nowNs : UInt64) (advancing : advances table emitted id = true) :
    Numbered (table.acquire id nowNs).1 emitted (bound + 1) ∧
      ∀ i, (table.acquire id nowNs).2 = some i → i ∈ (table.acquire id nowNs).1.openStorage := by
  rcases numbered.ok.acquire_cases id nowNs with ⟨i, opened, -, outcome⟩ | ⟨-, -, outcome⟩ |
    ⟨absent, -, p, i, rest, free, -, outcome⟩
  · rw [outcome]
    have edited := numbered.modifySession i (Session.stamp nowNs) (fun _ => rfl) (fun _ => rfl)
      (fun _ => rfl)
    obtain ⟨-, storage, -⟩ := numbered.ok.modifySession i (Session.stamp nowNs) (fun _ => rfl)
      (fun _ => rfl)
    refine ⟨edited.weaken (Nat.le_succ _), fun j same => ?_⟩
    cases same
    rw [storage]
    exact opened
  · rw [outcome]
    have rejected : Numbered table.reject emitted bound :=
      ⟨numbered.ok.reject, numbered.distinct, numbered.ahead, numbered.counted, numbered.few⟩
    exact ⟨rejected.weaken (Nat.le_succ _), fun j absent => by cases absent⟩
  · have kept := numbered.ok.acquire id nowNs
    rw [outcome] at kept ⊢
    obtain ⟨storage, ids⟩ := SessionTable.openStorage_openSession numbered.ok free
    have fresh := ((numbered.ok.free i).mp (by simp [free])).2
    have edited : (table.openSession id nowNs p i rest).sessions =
        table.sessions.modify i (Session.openFor id nowNs) := rfl
    refine ⟨⟨kept, numbered.distinct, ?_, ?_, ?_⟩, fun j same => ?_⟩
    · intro j opened session' found event member same
      rw [edited, List.getElem?_modify] at found
      obtain ⟨session, here, rfl⟩ := Option.map_eq_some_iff.mp found
      split at same
      · rename_i reused
        subst reused
        have unserved : (table.sessions.any fun session =>
            session.active && session.id == id) = false := by
          rw [List.any_eq_false]
          intro other member
          obtain ⟨k, there⟩ := List.mem_iff_getElem?.mp member
          rw [Bool.and_eq_true, beq_iff_eq]
          rintro ⟨active, rfl⟩
          exact absent k (SessionTable.mem_openStorage.mpr ⟨other, there, active⟩)
            (SessionTable.idAt_of_getElem? there)
        rw [advances, unserved, Bool.false_or, free, List.head?_cons, Option.all_some, here,
          Option.all_some, List.all_eq_true] at advancing
        have passed := advancing event member
        rw [show event.sessionId = id from same, bne_self_eq_false, Bool.false_or,
          decide_eq_true_iff] at passed
        rw [if_pos rfl]
        exact passed
      · rename_i apart
        rw [storage, Finset.mem_insert] at opened
        rw [if_neg apart]
        exact numbered.ahead j (opened.resolve_left (Ne.symm apart)) session here event member same
    · intro session' member
      rcases mem_modify member with kept | ⟨before, here, rfl⟩
      · exact numbered.counted session' kept
      · exact numbered.counted before (List.mem_of_getElem? here)
    · have few := numbered.few
      rw [storage, Finset.card_insert_of_notMem fresh]
      omega
    · cases same
      rw [storage]
      exact Finset.mem_insert_self ..

/-- A sweep with its rebuild returns and keeps the numbering. -/
theorem Numbered.sweepAll (numbered : Numbered table emitted bound) (small : bound < 2 ^ 64)
    (due : Session D → Bool) (nowNs : UInt64) :
    ∃ next events, SessionTable.sweepAll due table nowNs = some (next, events) ∧
      Numbered next (emitted ++ events) bound := by
  obtain ⟨next, events, returned, done⟩ := numbered.ok.sweepAll due nowNs
  exact ⟨next, events, returned, numbered.swept small done⟩

/-- The idle sweep returns and keeps the numbering. -/
theorem Numbered.sweep (numbered : Numbered loop.sessions loop.emitted bound)
    (small : bound < 2 ^ 64) (loopNs : UInt64) :
    ∃ swept, loop.sweep full options loopNs = some swept ∧
      Numbered swept.sessions swept.emitted bound := by
  unfold HotLoop.sweep
  split
  · obtain ⟨next, events, returned, kept⟩ :=
      numbered.sweepAll small (SessionTable.isIdle loopNs options.idleNs) loopNs
    refine ⟨emitAll full
      { loop with sessions := next, nextSweepNs := loopNs + sweepIntervalNs } events, ?_, ?_⟩
    · rw [SessionTable.expireIdle, returned]
      rfl
    · obtain ⟨sessions, emitted⟩ := emitAll_keeps full
        { loop with sessions := next, nextSweepNs := loopNs + sweepIntervalNs } events
      rw [sessions, emitted]
      exact kept
  · exact ⟨loop, rfl, numbered⟩

/-- The end of the loop returns and keeps the numbering. -/
theorem Numbered.finish (numbered : Numbered loop.sessions loop.emitted bound)
    (small : bound < 2 ^ 64) (nowNs : UInt64) :
    ∃ final, loop.finish full nowNs = some final ∧
      Numbered final.sessions final.emitted bound := by
  obtain ⟨next, events, returned, kept⟩ := numbered.sweepAll small (fun _ => true) nowNs
  obtain ⟨sessions, emitted⟩ := emitAll_keeps full { loop with sessions := next } events
  rw [HotLoop.finish, SessionTable.flushAll, returned]
  refine ⟨_, rfl, ?_⟩
  dsimp only
  rw [sessions, emitted]
  exact kept

end

section

variable {D : Type} [Double D]

variable {table : SessionTable D} {emitted : List ChunkEvent} {bound : Nat}

/-- Feeding a frame to an open session keeps the numbering. -/
theorem Numbered.feed (numbered : Numbered table emitted bound) (small : bound + 1 < 2 ^ 64)
    {i : Nat} (opened : i ∈ table.openStorage) {session : Session D}
    (here : table.sessions[i]? = some session) (frame : AudioFrame) (nowNs : UInt64)
    {events : List ChunkEvent}
    (closed : events = ((session.assembler.onFrame frame nowNs).2.map fun event =>
      { event with sessionId := session.id }).toList) :
    Numbered (table.modifySession i (Session.served frame nowNs)) (emitted ++ events)
      (bound + 1) := by
  obtain ⟨ok, storage, -⟩ := numbered.ok.modifySession i (Session.served frame nowNs)
    (fun session => (Session.served_keeps frame nowNs session).1)
    (fun session => (Session.served_keeps frame nowNs session).2.1)
  obtain ⟨sameId, -, assembler⟩ := Session.served_keeps frame nowNs session
  have numbers := (session.assembler.numbers_onFrame frame nowNs).stamped session.id
  rw [← assembler] at numbers
  have few := numbered.few
  have positive : 0 < table.openStorage.card := Finset.card_pos.mpr ⟨i, opened⟩
  have counted := numbered.counted session (List.mem_of_getElem? here)
  obtain ⟨mono, grows, raised⟩ := numbers.counter counted (by omega)
  have brief : events.length ≤ 1 := by
    rw [closed]
    exact Option.length_toList_le
  have carries : ∀ event ∈ events, event.sessionId = session.id ∧
      event.chunkId = session.assembler.nextChunkId ∧
      session.assembler.nextChunkId < (session.served frame nowNs).assembler.nextChunkId := by
    intro event member
    rw [closed, Option.mem_toList] at member
    obtain ⟨number, -⟩ := numbers.closed event member
    have above := raised (Option.isSome_of_mem member)
    obtain ⟨unstamped, -, rfl⟩ := Option.map_eq_some_iff.mp member
    exact ⟨rfl, number, above⟩
  refine ⟨ok, ?_, ?_, ?_, ?_⟩
  · rw [List.map_append]
    apply List.nodup_append'.mpr
    refine ⟨numbered.distinct, ?_, ?_⟩
    · rw [closed]
      cases (session.assembler.onFrame frame nowNs).2 <;> simp
    · intro identity old new
      obtain ⟨before, member, rfl⟩ := List.mem_map.mp old
      obtain ⟨event, member', same⟩ := List.mem_map.mp new
      obtain ⟨id, number, -⟩ := carries event member'
      obtain ⟨sameCall, sameChunk⟩ := Prod.mk.inj same
      have below := numbered.ahead i opened session here before member (sameCall.symm.trans id)
      rw [← sameChunk, number] at below
      exact UInt64.lt_irrefl _ below
  · intro j opened' session' found event member same
    rw [storage] at opened'
    rw [SessionTable.modifySession, List.getElem?_modify] at found
    obtain ⟨before, there, rfl⟩ := Option.map_eq_some_iff.mp found
    split at same
    · rename_i edited
      subst edited
      rw [here] at there
      cases there
      rw [if_pos rfl]
      rcases List.mem_append.mp member with old | new
      · rw [sameId] at same
        exact UInt64.lt_of_lt_of_le (numbered.ahead i opened session here event old same) mono
      · obtain ⟨-, number, above⟩ := carries event new
        rw [number]
        exact above
    · rename_i apart
      rw [if_neg apart]
      rcases List.mem_append.mp member with old | new
      · exact numbered.ahead j opened' before there event old same
      · have ids := numbered.ok.ids i opened j opened'
        rw [SessionTable.idAt_of_getElem? here, SessionTable.idAt_of_getElem? there] at ids
        exact absurd (ids ((carries event new).1.symm.trans same)) apart
  · intro session' member
    rw [List.length_append]
    rcases mem_modify member with kept | ⟨before, there, rfl⟩
    · exact Nat.le_trans (numbered.counted session' kept) (Nat.le_add_right _ _)
    · rw [here] at there
      cases there
      rw [closed]
      exact grows
  · rw [List.length_append, storage]
    omega

/-! ## Whole runs -/

variable {full : Nat → Bool} {options : LoopOptions} {loop : HotLoop D}

/-- Serving a frame keeps the numbering. -/
theorem Numbered.serve (numbered : Numbered loop.sessions loop.emitted bound)
    (small : bound + 2 < 2 ^ 64) {frame : AudioFrame}
    (advancing : advances loop.sessions loop.emitted frame.hdr.sessionId = true)
    (nowNs : UInt64) :
    Numbered (loop.serve full options frame nowNs).sessions
      (loop.serve full options frame nowNs).emitted (bound + 2) := by
  obtain ⟨acquired, found⟩ := numbered.acquire frame.hdr.sessionId nowNs advancing
  unfold HotLoop.serve
  cases outcome : loop.sessions.acquire frame.hdr.sessionId nowNs with
  | mk sessions index =>
      rw [outcome] at acquired found
      dsimp only at acquired found ⊢
      cases index with
      | none => exact acquired.weaken (Nat.le_succ _)
      | some i =>
          have opened := found i rfl
          obtain ⟨session, here, -⟩ := SessionTable.mem_openStorage.mp opened
          rw [Option.bind_some, here, Option.map_some]
          dsimp only
          cases closed : (session.assembler.onFrame frame nowNs).2 with
          | none =>
              have none : [] = ((session.assembler.onFrame frame nowNs).2.map fun event =>
                  { event with sessionId := session.id }).toList := by
                rw [closed]
                rfl
              have fed := acquired.feed small opened here frame nowNs none
              rw [List.append_nil] at fed
              exact fed
          | some event =>
              have one : [{ event with sessionId := session.id }] =
                  ((session.assembler.onFrame frame nowNs).2.map fun event =>
                    { event with sessionId := session.id }).toList := by
                rw [closed]
                rfl
              exact acquired.feed small opened here frame nowNs one

/-- A frame that opens a session opens it on storage that advances. -/
def orderly (full : Nat → Bool) (options : LoopOptions) (loop : HotLoop D) (tick : Tick) :
    Bool :=
  (loop.sweep full options tick.loopNs).all fun swept => tick.popped.all fun frame =>
    advances swept.sessions swept.emitted frame.hdr.sessionId

def orderlyRun (full : Nat → Bool) (options : LoopOptions) : HotLoop D → List Tick → Bool
  | _, [] => true
  | loop, tick :: ticks =>
      loop.orderly full options tick &&
        (loop.iterate full options tick).all fun next => orderlyRun full options next ticks

/-- The frames popped over a run. -/
def poppedFrames (ticks : List Tick) : Nat :=
  (ticks.filterMap Tick.popped).length

/-- Step lemma: an orderly iteration returns and keeps the numbering. -/
theorem Numbered.iterate (numbered : Numbered loop.sessions loop.emitted bound) {tick : Tick}
    (small : bound + 2 * poppedFrames [tick] < 2 ^ 64)
    (ordered : loop.orderly full options tick = true) :
    ∃ next, loop.iterate full options tick = some next ∧
      Numbered next.sessions next.emitted (bound + 2 * poppedFrames [tick]) := by
  obtain ⟨swept, returned, kept⟩ := numbered.sweep (by omega) tick.loopNs
  rw [orderly, returned, Option.all_some] at ordered
  refine ⟨_, by rw [HotLoop.iterate, returned, Option.map_some], ?_⟩
  cases popped : tick.popped with
  | none => exact kept.weaken (Nat.le_add_right _ _)
  | some frame =>
      have one : poppedFrames [tick] = 1 := by simp [poppedFrames, popped]
      rw [popped, Option.all_some] at ordered
      rw [one] at small ⊢
      exact kept.serve small ordered tick.dequeueNs

/-- Run lemma: an orderly run returns and keeps the numbering. -/
theorem Numbered.iterateAll (numbered : Numbered loop.sessions loop.emitted bound)
    {ticks : List Tick} (small : bound + 2 * poppedFrames ticks < 2 ^ 64)
    (ordered : orderlyRun full options loop ticks = true) :
    ∃ next, iterateAll full options loop ticks = some next ∧
      Numbered next.sessions next.emitted (bound + 2 * poppedFrames ticks) := by
  induction ticks generalizing loop bound with
  | nil => exact ⟨loop, rfl, numbered⟩
  | cons tick ticks ih =>
      have split : poppedFrames (tick :: ticks) = poppedFrames [tick] + poppedFrames ticks := by
        rw [poppedFrames, poppedFrames, poppedFrames, ← List.length_append,
          ← List.filterMap_append, List.singleton_append]
      rw [split, Nat.mul_add, ← Nat.add_assoc] at small ⊢
      rw [orderlyRun, Bool.and_eq_true] at ordered
      obtain ⟨now, later⟩ := ordered
      obtain ⟨next, stepped, kept⟩ := numbered.iterate (by omega) now
      rw [stepped, Option.all_some] at later
      obtain ⟨final, ran, last⟩ := ih kept small later
      refine ⟨final, ?_, last⟩
      rw [HotLoop.iterateAll, stepped, Option.bind_some, ran]

theorem Numbered.start {maxSessions : Nat} (small : maxSessions ≤ kTombstone)
    (config : ChunkerConfig D) (startNs : UInt64) :
    Numbered (HotLoop.start maxSessions config startNs).sessions [] 0 := by
  have none : (SessionTable.make maxSessions config).openStorage = ∅ :=
    SessionTable.openStorage_make maxSessions config
  rw [HotLoop.start]
  refine ⟨.make_clamped small config, List.nodup_nil, ?_, ?_, ?_⟩
  · intro i opened
    rw [none] at opened
    cases opened
  · intro session member
    rw [SessionTable.eq_make_of_mem member]
    exact Nat.le_refl 0
  · rw [none]
    exact Nat.le_refl 0

/-- Every orderly run emits each chunk under an identity of its own. -/
theorem identities_unique {maxSessions : Nat} (small : maxSessions ≤ kTombstone)
    (config : ChunkerConfig D) (full : Nat → Bool) (options : LoopOptions) (startNs : UInt64)
    {ticks : List Tick} (few : poppedFrames ticks < 2 ^ 63) (endNs : UInt64)
    (ordered : orderlyRun full options (HotLoop.start maxSessions config startNs) ticks = true) :
    ∃ final, hotLoop full options maxSessions config startNs ticks endNs = some final ∧
      (final.emitted.map ChunkEvent.identity).Nodup := by
  have brief : 0 + 2 * poppedFrames ticks < 2 ^ 64 := by omega
  obtain ⟨loop, ran, kept⟩ := (Numbered.start small config startNs).iterateAll brief ordered
  obtain ⟨final, finished, last⟩ := kept.finish brief endNs
  refine ⟨final, ?_, last.distinct⟩
  rw [hotLoop, ran, Option.bind_some, finished]

end

open Scenario

/-- A call that comes back on its own storage goes on counting. -/
theorem identities_unique_sameStorage :
    ∃ final, hotLoop (fun _ => false) ⟨20000000, 100000000⟩ 2 shortConfig 0
        [tick 10000000 7 0, tick 30000000 7 1, tick 260000000 7 2, tick 280000000 7 3]
        300000000 = some final ∧
      (final.emitted.map ChunkEvent.identity).Nodup :=
  identities_unique (by decide) shortConfig _ _ 0 (by decide) 300000000 (by decide +kernel)

/-- A call that comes back on other storage starts counting again. -/
theorem identities_repeat_otherStorage :
    ∃ final, hotLoop (fun _ => false) ⟨20000000, 100000000⟩ 2 shortConfig 0
        [tick 10000000 7 0, tick 30000000 7 1, tick 260000000 9 0, tick 270000000 7 2,
          tick 290000000 7 3]
        300000000 = some final ∧
      ¬ (final.emitted.map ChunkEvent.identity).Nodup := by
  have repeated : (hotLoop (fun _ => false) ⟨20000000, 100000000⟩ 2 shortConfig 0
      [tick 10000000 7 0, tick 30000000 7 1, tick 260000000 9 0, tick 270000000 7 2,
        tick 290000000 7 3]
      300000000).any (fun final =>
        !decide (final.emitted.map ChunkEvent.identity).Nodup) = true := by
    decide +kernel
  obtain ⟨final, ran, duplicate⟩ := (Option.any_eq_true _ _).mp repeated
  refine ⟨final, ran, fun unique => ?_⟩
  rw [decide_eq_true unique] at duplicate
  cases duplicate

end HotLoop

end VoiceHotPath
