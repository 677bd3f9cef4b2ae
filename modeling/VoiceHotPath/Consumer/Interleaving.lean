import VoiceHotPath.Consumer.Journal
import VoiceHotPath.Vad.Timeline

/-!
# Interleaved calls

While no session is released, every call keeps the assembler it was given, and
that assembler sees the frames of the call and no others.  What is published
for the call is then what a fresh assembler publishes on these frames alone.
-/

namespace VoiceHotPath

open ChunkAssembler

/-- The frames of a call, with their dequeue times. -/
def framesOf (id : UInt32) (ticks : List Tick) : Stream :=
  ticks.filterMap fun tick =>
    (tick.popped.filter fun frame => frame.hdr.sessionId == id).map fun frame =>
      (frame, tick.dequeueNs)

/-- The calls whose frames are popped. -/
def callIds (ticks : List Tick) : Finset UInt32 :=
  (ticks.filterMap fun tick => tick.popped.map fun frame => frame.hdr.sessionId).toFinset

section

variable {id : UInt32} {ticks : List Tick} {tick : Tick} {frame : AudioFrame}

theorem framesOf_snoc_same (popped : tick.popped = some frame)
    (same : frame.hdr.sessionId = id) :
    framesOf id (ticks ++ [tick]) = framesOf id ticks ++ [(frame, tick.dequeueNs)] := by
  simp [framesOf, popped, same]

theorem framesOf_snoc_other (popped : tick.popped = some frame)
    (other : frame.hdr.sessionId ≠ id) : framesOf id (ticks ++ [tick]) = framesOf id ticks := by
  simp [framesOf, popped, other]

theorem framesOf_snoc_none (popped : tick.popped = none) :
    framesOf id (ticks ++ [tick]) = framesOf id ticks := by
  simp [framesOf, popped]

theorem callIds_snoc (popped : tick.popped = some frame) :
    callIds (ticks ++ [tick]) = insert frame.hdr.sessionId (callIds ticks) := by
  ext id
  simp [callIds, popped, eq_comm]

theorem callIds_snoc_none (popped : tick.popped = none) :
    callIds (ticks ++ [tick]) = callIds ticks := by
  simp [callIds, popped]

theorem callIds_mono {ticks' : List Tick} (later : ticks <+: ticks') :
    callIds ticks ⊆ callIds ticks' := by
  intro id member
  unfold callIds at member ⊢
  rw [List.mem_toFinset] at member ⊢
  exact (later.filterMap _).subset member

/-- A call without frames is no call. -/
theorem framesOf_eq_nil (unseen : id ∉ callIds ticks) : framesOf id ticks = [] := by
  apply List.filterMap_eq_nil_iff.mpr
  intro tick member
  cases popped : tick.popped with
  | none => rfl
  | some frame =>
      have apart : frame.hdr.sessionId ≠ id := by
        rintro rfl
        apply unseen
        exact List.mem_toFinset.mpr (List.mem_filterMap.mpr ⟨tick, member, by rw [popped]; rfl⟩)
      simp [apart]

end

/-- In a list without duplicates one element at most has an image. -/
theorem filterMap_of_unique {α β : Type} {f : α → Option β} {xs : List α} (nodup : xs.Nodup)
    {x : α} (member : x ∈ xs) (others : ∀ y ∈ xs, y ≠ x → f y = none) :
    xs.filterMap f = (f x).toList := by
  induction xs with
  | nil => cases member
  | cons head rest ih =>
      obtain ⟨fresh, restNodup⟩ := List.nodup_cons.mp nodup
      by_cases same : head = x
      · subst same
        have silent : rest.filterMap f = [] := by
          apply List.filterMap_eq_nil_iff.mpr
          intro y listed
          apply others y (List.mem_cons_of_mem _ listed)
          rintro rfl
          exact fresh listed
        rw [List.filterMap_cons, silent]
        cases f head <;> rfl
      · have none := others head List.mem_cons_self same
        rw [List.filterMap_cons, none]
        apply ih restNodup ((List.mem_cons.mp member).resolve_left (Ne.symm same))
        exact fun y listed => others y (List.mem_cons_of_mem _ listed)

section

variable {D : Type}

/-- The tail of a session of another call is filtered out. -/
theorem filter_sweptTail {due : Session D → Bool} {nowNs : UInt64} {session : Session D}
    {id : UInt32} (other : session.active = true → session.id ≠ id) :
    (session.sweptTail due nowNs).filter (fun event => event.sessionId == id) = none := by
  unfold Session.sweptTail Session.tail
  cases active : session.active with
  | false => rfl
  | true =>
      split
      · cases (session.assembler.flush nowNs).2 with
        | none => rfl
        | some event => simp [other active]
      · rfl

namespace HotLoop

variable {full : Nat → Bool} {options : LoopOptions} {loop : HotLoop D}

/-- The sweep of an iteration releases no session. -/
def keepsOpen (options : LoopOptions) (loop : HotLoop D) (loopNs : UInt64) : Bool :=
  if loop.nextSweepNs ≤ loopNs then
    loop.sessions.sessions.all fun session =>
      !(session.active && SessionTable.isIdle loopNs options.idleNs session)
  else true

variable (full) in
/-- A sweep without due sessions returns, and changes no session. -/
theorem sweep_of_keepsOpen (ok : loop.sessions.Ok) {loopNs : UInt64}
    (keeps : loop.keepsOpen options loopNs = true) :
    ∃ swept, loop.sweep full options loopNs = some swept ∧ swept.sessions.Ok ∧
      swept.sessions.sessions = loop.sessions.sessions ∧
      swept.sessions.maxSessions = loop.sessions.maxSessions ∧ swept.emitted = loop.emitted := by
  unfold sweep
  split
  · rename_i due
    rw [keepsOpen, if_pos due, List.all_eq_true] at keeps
    have notDue : ∀ (i : Nat) session, loop.sessions.sessions[i]? = some session →
        (session.active && SessionTable.isIdle loopNs options.idleNs session) = false :=
      fun i session here => (Bool.not_eq_true' _).mp (keeps session (List.mem_of_getElem? here))
    obtain ⟨next, events, returned, done⟩ :=
      ok.sweepAll (SessionTable.isIdle loopNs options.idleNs) loopNs
    have silent : events = [] := by
      rw [done.events_eq, List.filterMap_eq_nil_iff]
      intro i _
      cases here : loop.sessions.sessions[i]? with
      | none => rfl
      | some session =>
          rw [Option.bind_some, Session.sweptTail, notDue i session here]
          rfl
    have same : next.sessions = loop.sessions.sessions := by
      apply List.ext_getElem?
      intro i
      rw [done.sessions]
      cases here : loop.sessions.sessions[i]? with
      | none => rfl
      | some session =>
          rw [Option.map_some, Session.swept_of_not_due (notDue i session here), ite_self]
    refine ⟨{ loop with sessions := next, nextSweepNs := loopNs + sweepIntervalNs }, ?_, done.ok,
      same, done.maxSessions, rfl⟩
    rw [SessionTable.expireIdle, returned, silent]
    rfl
  · exact ⟨loop, rfl, ok, rfl, rfl, rfl⟩

end HotLoop

end

section

variable {D : Type} [Double D]

/-- What a fresh assembler publishes on a history of calls, under the id of a session. -/
def eventsAlone (config : ChunkerConfig D) (id : UInt32) (calls : List Call) :
    List ChunkEvent :=
  (Machine.outputs call (make config) calls).filterMap fun answer =>
    answer.map fun event => { event with sessionId := id }

theorem eventsAlone_snoc (config : ChunkerConfig D) (id : UInt32) (calls : List Call)
    (next : Call) :
    eventsAlone config id (calls ++ [next]) = eventsAlone config id calls ++
      (((after config calls).call next).2.map fun event =>
        { event with sessionId := id }).toList := by
  unfold eventsAlone
  rw [Machine.outputs_append, List.filterMap_append, List.append_right_inj]
  change List.filterMap _ [((after config calls).call next).2] = _
  cases ((after config calls).call next).2 <;> rfl

/-- Every open session is alone with its call; nothing has been released. -/
structure Separate (config : ChunkerConfig D) (ticks : List Tick) (loop : HotLoop D) :
    Prop where
  ok : loop.sessions.Ok
  alone : ∀ (i : Nat) session, loop.sessions.sessions[i]? = some session →
    session.active = true → session.id ∈ callIds ticks ∧
      session.assembler = after config (framesOf session.id ticks).calls
  fresh : ∀ (i : Nat) session, loop.sessions.sessions[i]? = some session →
    session.active = false → session.assembler = make config
  found : ∀ id ∈ callIds ticks, ∃ (i : Nat) (session : Session D),
    loop.sessions.sessions[i]? = some session ∧ session.active = true ∧ session.id = id
  emitted : ∀ id, loop.emitted.filter (fun event => event.sessionId == id) =
    eventsAlone config id (framesOf id ticks).calls

namespace HotLoop

/-- No sweep of a run releases a session. -/
def keepsAllOpen (full : Nat → Bool) (options : LoopOptions) : HotLoop D → List Tick → Bool
  | _, [] => true
  | loop, tick :: ticks =>
      loop.keepsOpen options tick.loopNs &&
        (loop.iterate full options tick).all fun next => keepsAllOpen full options next ticks

end HotLoop

section

variable {config : ChunkerConfig D} {full : Nat → Bool} {options : LoopOptions}
  {loop swept : HotLoop D} {ticks : List Tick} {tick : Tick} {frame : AudioFrame}

theorem Separate.congr (separate : Separate config ticks loop) (ok : swept.sessions.Ok)
    (sessions : swept.sessions.sessions = loop.sessions.sessions)
    (emitted : swept.emitted = loop.emitted) : Separate config ticks swept := by
  refine ⟨ok, ?_, ?_, ?_, ?_⟩
  · rw [sessions]
    exact separate.alone
  · rw [sessions]
    exact separate.fresh
  · rw [sessions]
    exact separate.found
  · rw [emitted]
    exact separate.emitted

/-- With room for every call, a frame reaches a session that is alone with its call. -/
theorem Separate.fed (separate : Separate config ticks loop)
    (room : (insert frame.hdr.sessionId (callIds ticks)).card ≤ loop.sessions.maxSessions)
    (nowNs : UInt64) :
    ∃ feed, loop.sessions.feedOf frame nowNs = some feed ∧ feed.session.active = true ∧
      feed.session.id = frame.hdr.sessionId ∧
      feed.session.assembler = after config (framesOf frame.hdr.sessionId ticks).calls ∧
      ∀ (i : Nat) session, loop.sessions.sessions[i]? = some session → session.active = true →
        (feed.storage = i ↔ session.id = frame.hdr.sessionId) := by
  rcases separate.ok.feedOf_cases frame nowNs with ⟨i, session, here, active, id, same⟩ |
    ⟨unserved, crowded, -⟩ | ⟨unserved, i, session, here, inactive, same⟩
  · refine ⟨_, same, active, id, ?_, fun j session' there active' => ⟨?_, fun id' => ?_⟩⟩
    · rw [← id]
      exact (separate.alone i session here active).2
    · rintro rfl
      rw [here] at there
      cases there
      exact id
    · apply separate.ok.ids i (SessionTable.mem_openStorage.mpr ⟨session, here, active⟩) j
        (SessionTable.mem_openStorage.mpr ⟨session', there, active'⟩)
      rw [SessionTable.idAt_of_getElem? here, SessionTable.idAt_of_getElem? there, id, id']
  · -- A refusal takes more calls than there are.
    have within : loop.sessions.openStorage.image loop.sessions.idAt ⊆ callIds ticks := by
      intro id member
      obtain ⟨i, opened, rfl⟩ := Finset.mem_image.mp member
      obtain ⟨session, here, active⟩ := SessionTable.mem_openStorage.mp opened
      rw [SessionTable.idAt_of_getElem? here]
      exact (separate.alone i session here active).1
    have apart : frame.hdr.sessionId ∉ loop.sessions.openStorage.image loop.sessions.idAt := by
      intro member
      obtain ⟨i, opened, same⟩ := Finset.mem_image.mp member
      exact unserved i opened same
    have distinct : (loop.sessions.openStorage.image loop.sessions.idAt).card =
        loop.sessions.openStorage.card :=
      Finset.card_image_of_injOn fun i opened j opened' same =>
        separate.ok.ids i opened j opened' same
    have more := Finset.card_le_card (Finset.insert_subset_insert frame.hdr.sessionId within)
    rw [Finset.card_insert_of_notMem apart, distinct, crowded] at more
    omega
  · have other : ∀ (j : Nat) session, loop.sessions.sessions[j]? = some session →
        session.active = true → session.id ≠ frame.hdr.sessionId := by
      intro j other there active id
      apply unserved j (SessionTable.mem_openStorage.mpr ⟨other, there, active⟩)
      rw [SessionTable.idAt_of_getElem? there, id]
    refine ⟨_, same, rfl, rfl, ?_, fun j session' there active => ⟨?_, fun id => ?_⟩⟩
    · have unseen : frame.hdr.sessionId ∉ callIds ticks := by
        intro seen
        obtain ⟨j, session', there, active, id⟩ := separate.found _ seen
        exact other j session' there active id
      rw [framesOf_eq_nil unseen]
      exact separate.fresh i session here inactive
    · rintro rfl
      rw [here] at there
      cases there
      rw [inactive] at active
      cases active
    · exact absurd id (other j session' there active)

/-- A frame fed publishes for its own call. -/
theorem filter_closes (feed : Feed D) (id : UInt32) :
    feed.closes.toList.filter (fun event => event.sessionId == id) =
      if feed.session.id = id then feed.closes.toList else [] := by
  unfold Feed.closes
  cases (feed.session.assembler.onFrame feed.frame feed.nowNs).2 with
  | none => simp
  | some event => by_cases own : feed.session.id = id <;> simp [own]

/-- Step lemma: a frame goes to the assembler of its call alone. -/
theorem Separate.serve (separate : Separate config ticks loop) (popped : tick.popped = some frame)
    (room : (callIds (ticks ++ [tick])).card ≤ loop.sessions.maxSessions) :
    Separate config (ticks ++ [tick]) (loop.serve full options frame tick.dequeueNs) := by
  rw [callIds_snoc popped] at room
  obtain ⟨feed, fed, active, id, assembler, owned⟩ := separate.fed room tick.dequeueNs
  obtain ⟨sameFrame, sameNs, -⟩ := SessionTable.feedOf_eq_some fed
  have served := SessionTable.sessions_served fed
  obtain ⟨servedId, servedActive, servedAssembler⟩ :=
    feed.session.served_keeps feed.frame feed.nowNs
  have ok := ((separate.ok.acquire frame.hdr.sessionId tick.dequeueNs).modifySession feed.storage
    (Session.served frame tick.dequeueNs) (fun session => (session.served_keeps _ _).1)
    (fun session => (session.served_keeps _ _).2.1)).1
  have isServed : feed.served.id = frame.hdr.sessionId := servedId.trans id
  have history : feed.served.assembler =
      after config (framesOf frame.hdr.sessionId (ticks ++ [tick])).calls := by
    rw [framesOf_snoc_same popped rfl, Stream.calls_snoc, after_snoc, ← assembler, Feed.served,
      servedAssembler, sameFrame, sameNs]
    rfl
  rw [HotLoop.serve_of_fed fed]
  obtain ⟨sessions, emitted⟩ := HotLoop.emitAll_keeps full
    { loop with
      sessions := (loop.sessions.acquire frame.hdr.sessionId tick.dequeueNs).1.modifySession
        feed.storage (Session.served frame tick.dequeueNs)
      metrics := feed.observed options loop.metrics } feed.closes.toList
  constructor
  · rw [sessions]
    exact ok
  · rw [sessions, callIds_snoc popped]
    intro i session found opened
    rw [served] at found
    split at found
    · cases found
      rw [isServed]
      exact ⟨Finset.mem_insert_self .., history⟩
    · rename_i elsewhere
      obtain ⟨seen, alone⟩ := separate.alone i session found opened
      have other : frame.hdr.sessionId ≠ session.id := fun same =>
        elsewhere ((owned i session found opened).mpr same.symm)
      rw [framesOf_snoc_other popped other]
      exact ⟨Finset.mem_insert_of_mem seen, alone⟩
  · rw [sessions]
    intro i session found closed
    rw [served] at found
    split at found
    · cases found
      rw [Feed.served, servedActive, active] at closed
      cases closed
    · exact separate.fresh i session found closed
  · rw [sessions, callIds_snoc popped]
    intro call seen
    by_cases same : call = frame.hdr.sessionId
    · refine ⟨feed.storage, feed.served, ?_, servedActive.trans active, isServed.trans same.symm⟩
      rw [served, if_pos rfl]
    · obtain ⟨i, session, here, opened, rfl⟩ :=
        separate.found call ((Finset.mem_insert.mp seen).resolve_left same)
      refine ⟨i, session, ?_, opened, rfl⟩
      have elsewhere : feed.storage ≠ i := fun stored =>
        same ((owned i session here opened).mp stored)
      rw [served, if_neg elsewhere, here]
  · intro call
    rw [emitted, List.filter_append, separate.emitted, filter_closes, id]
    by_cases same : frame.hdr.sessionId = call
    · rw [if_pos same, framesOf_snoc_same popped same, Stream.calls_snoc, eventsAlone_snoc, ← same,
        ← assembler, Feed.closes, id, sameFrame, sameNs]
      rfl
    · rw [if_neg same, framesOf_snoc_other popped same, List.append_nil]

variable (full) in
/-- Step lemma: an iteration that releases nothing returns, and keeps the calls separate. -/
theorem Separate.iterate (separate : Separate config ticks loop)
    (keeps : loop.keepsOpen options tick.loopNs = true)
    (room : (callIds (ticks ++ [tick])).card ≤ loop.sessions.maxSessions) :
    ∃ next, loop.iterate full options tick = some next ∧
      next.sessions.maxSessions = loop.sessions.maxSessions ∧
      Separate config (ticks ++ [tick]) next := by
  obtain ⟨swept, returned, ok, sessions, capacity, emitted⟩ :=
    HotLoop.sweep_of_keepsOpen full separate.ok keeps
  have kept := separate.congr ok sessions emitted
  cases popped : tick.popped with
  | none =>
      refine ⟨swept, by rw [HotLoop.iterate, returned, Option.map_some, popped], capacity, kept.ok,
        ?_, kept.fresh, ?_, ?_⟩
      · simp only [callIds_snoc_none popped, framesOf_snoc_none popped]
        exact kept.alone
      · rw [callIds_snoc_none popped]
        exact kept.found
      · simp only [framesOf_snoc_none popped]
        exact kept.emitted
  | some frame =>
      refine ⟨swept.serve full options frame tick.dequeueNs,
        by rw [HotLoop.iterate, returned, Option.map_some, popped], ?_,
        kept.serve popped (capacity ▸ room)⟩
      rw [← capacity]
      cases fed : swept.sessions.feedOf frame tick.dequeueNs with
      | none =>
          rw [HotLoop.serve_of_refused fed]
          exact swept.sessions.maxSessions_acquire _ _
      | some feed =>
          rw [HotLoop.serve_of_fed fed, (HotLoop.emitAll_keeps _ _ _).1]
          exact swept.sessions.maxSessions_acquire _ _

/-- Run lemma: a run that releases nothing returns, and keeps the calls separate. -/
theorem Separate.iterateAll (separate : Separate config ticks loop) {rest : List Tick}
    (keeps : HotLoop.keepsAllOpen full options loop rest = true)
    (room : (callIds (ticks ++ rest)).card ≤ loop.sessions.maxSessions) :
    ∃ final, HotLoop.iterateAll full options loop rest = some final ∧
      Separate config (ticks ++ rest) final := by
  induction rest generalizing loop ticks with
  | nil =>
      rw [List.append_nil]
      exact ⟨loop, rfl, separate⟩
  | cons tick rest ih =>
      rw [List.append_cons] at room ⊢
      obtain ⟨now, later⟩ := Bool.and_eq_true_iff.mp keeps
      have few : callIds (ticks ++ [tick]) ⊆ callIds (ticks ++ [tick] ++ rest) :=
        callIds_mono (List.prefix_append _ _)
      obtain ⟨next, stepped, capacity, kept⟩ := separate.iterate full now
        (Nat.le_trans (Finset.card_le_card few) room)
      rw [stepped, Option.all_some] at later
      obtain ⟨final, ran, last⟩ := ih kept later (capacity ▸ room)
      refine ⟨final, ?_, last⟩
      rw [HotLoop.iterateAll, stepped, Option.bind_some, ran]

variable (full) in
/-- The final flush publishes for each call what flushing its assembler publishes. -/
theorem Separate.finish (separate : Separate config ticks loop) (endNs : UInt64) :
    ∃ final, loop.finish full endNs = some final ∧
      ∀ id, final.emitted.filter (fun event => event.sessionId == id) =
        eventsAlone config id ((framesOf id ticks).flushed endNs) := by
  obtain ⟨next, events, returned, done⟩ := separate.ok.sweepAll (fun _ => true) endNs
  refine ⟨_, by rw [HotLoop.finish, SessionTable.flushAll, returned]; rfl, fun id => ?_⟩
  dsimp only
  rw [(HotLoop.emitAll_keeps _ _ _).2, List.filter_append, separate.emitted]
  change _ = eventsAlone config id ((framesOf id ticks).calls ++ [.flush endNs])
  rw [eventsAlone_snoc, done.events_eq, List.filter_filterMap]
  congr 1
  by_cases seen : id ∈ callIds ticks
  · obtain ⟨i, session, here, active, rfl⟩ := separate.found id seen
    have inside : i ∈ List.range loop.sessions.maxSessions := by
      rw [List.mem_range, ← separate.ok.sessionsLength]
      exact (List.getElem?_eq_some_iff.mp here).1
    rw [filterMap_of_unique List.nodup_range inside]
    · rw [here, Option.bind_some, Session.sweptTail, active, Bool.and_self, if_pos rfl,
        Session.tail,
        ← (separate.alone i session here active).2]
      change _ = (Option.map _ (session.assembler.flush endNs).2).toList
      cases (session.assembler.flush endNs).2 with
      | none => rfl
      | some event => simp
    · intro j _ elsewhere
      cases there : loop.sessions.sessions[j]? with
      | none => rfl
      | some other =>
          apply filter_sweptTail
          intro active' same
          apply elsewhere
          apply separate.ok.ids j (SessionTable.mem_openStorage.mpr ⟨other, there, active'⟩) i
            (SessionTable.mem_openStorage.mpr ⟨session, here, active⟩)
          rw [SessionTable.idAt_of_getElem? there, SessionTable.idAt_of_getElem? here, same]
  · rw [framesOf_eq_nil seen]
    apply List.filterMap_eq_nil_iff.mpr
    intro j _
    cases there : loop.sessions.sessions[j]? with
    | none => rfl
    | some other =>
        apply filter_sweptTail
        rintro active rfl
        exact seen (separate.alone j other there active).1

end

theorem separate_start {maxSessions : Nat} (positive : 0 < maxSessions)
    (small : maxSessions ≤ kTombstone) (config : ChunkerConfig D) (startNs : UInt64) :
    Separate config [] (HotLoop.start maxSessions config startNs) := by
  refine ⟨.make positive small config, ?_, ?_, ?_, fun _ => rfl⟩
  · intro i session here active
    rw [SessionTable.inactive_of_make here] at active
    cases active
  · intro i session here _
    rw [SessionTable.eq_make_of_getElem? here]
    rfl
  · intro id absent
    cases absent

theorem maxSessions_start {maxSessions : Nat} (positive : 0 < maxSessions)
    (config : ChunkerConfig D) (startNs : UInt64) :
    (HotLoop.start maxSessions config startNs).sessions.maxSessions = maxSessions := by
  change (SessionTable.make maxSessions config).maxSessions = maxSessions
  rw [SessionTable.make_eq positive]

/-- While no session is released, what is published for each call is what a fresh
assembler publishes on the frames of this call alone. -/
theorem calls_isolated {maxSessions : Nat} (positive : 0 < maxSessions)
    (small : maxSessions ≤ 2 ^ 31) (config : ChunkerConfig D) (full : Nat → Bool)
    (options : LoopOptions) (startNs : UInt64) (ticks : List Tick)
    (few : (callIds ticks).card ≤ maxSessions)
    (keeps : HotLoop.keepsAllOpen full options (HotLoop.start maxSessions config startNs) ticks =
      true) (endNs : UInt64) :
    ∃ final, HotLoop.hotLoop full options maxSessions config startNs ticks endNs = some final ∧
      ∀ id, final.emitted.filter (fun event => event.sessionId == id) =
        eventsAlone config id ((framesOf id ticks).flushed endNs) := by
  have start := separate_start positive (Nat.le_trans small (by decide)) config startNs
  obtain ⟨loop, ran, separate⟩ :=
    start.iterateAll keeps (few.trans (maxSessions_start positive config startNs).ge)
  obtain ⟨final, finished, same⟩ := separate.finish full endNs
  refine ⟨final, ?_, same⟩
  rw [HotLoop.hotLoop, ran, Option.bind_some, finished]

end

open Scenario in
theorem calls_isolated_twoCalls :
    ∃ final, HotLoop.hotLoop (fun _ => false) ⟨20000000, 100000000⟩ 2 shortConfig 0
        [tick 10000000 7 0, tick 15000000 9 0, tick 30000000 7 1, quietTick 35000000 9 1,
          tick 50000000 7 2] 300000000 = some final ∧
      ∀ id, final.emitted.filter (fun event => event.sessionId == id) =
        eventsAlone shortConfig id ((framesOf id [tick 10000000 7 0, tick 15000000 9 0,
          tick 30000000 7 1, quietTick 35000000 9 1, tick 50000000 7 2]).flushed 300000000) :=
  calls_isolated (by decide) (by decide) shortConfig _ _ 0 _ (by decide +kernel)
    (by decide +kernel) 300000000

end VoiceHotPath
