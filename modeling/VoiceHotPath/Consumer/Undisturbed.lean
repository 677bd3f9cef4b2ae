import VoiceHotPath.Consumer.Admission

/-!
# A call that keeps being heard

As long as a call is heard again within the idle time, its session stays where it
is and only its own frames reach the assembler there, whatever other calls come,
are refused or expire.
-/

namespace VoiceHotPath

open ChunkAssembler

/-- When a call was last heard, after an iteration. -/
def Tick.lastHeard (id : UInt32) (lastNs : UInt64) (tick : Tick) : UInt64 :=
  if tick.popped.any (fun frame => frame.hdr.sessionId == id) then tick.dequeueNs else lastNs

/-- Whenever an iteration begins, the call was heard within the idle time. -/
def attends (idleNs : UInt64) (id : UInt32) : UInt64 → List Tick → Bool
  | _, [] => true
  | lastNs, tick :: ticks =>
      decide (tick.loopNs - lastNs < idleNs) && attends idleNs id (tick.lastHeard id lastNs) ticks

theorem framesOf_cons (id : UInt32) (tick : Tick) (ticks : List Tick) :
    framesOf id (tick :: ticks) = framesOf id [tick] ++ framesOf id ticks :=
  List.filterMap_append (l := [tick])

section

variable {D : Type} [Double D]

/-- What an assembler publishes on a list of calls, under the id of a session. -/
def eventsFrom (assembler : ChunkAssembler D) (id : UInt32) (calls : List Call) :
    List ChunkEvent :=
  (Machine.outputs call assembler calls).filterMap fun answer =>
    answer.map fun event => { event with sessionId := id }

theorem eventsFrom_append (assembler : ChunkAssembler D) (id : UInt32)
    (first second : List Call) :
    eventsFrom assembler id (first ++ second) =
      eventsFrom assembler id first ++
        eventsFrom (Machine.final call assembler first) id second := by
  unfold eventsFrom
  rw [Machine.outputs_append, List.filterMap_append]

theorem eventsFrom_single (assembler : ChunkAssembler D) (id : UInt32) (next : Call) :
    eventsFrom assembler id [next] =
      ((assembler.call next).2.map fun event => { event with sessionId := id }).toList := by
  change List.filterMap _ [(assembler.call next).2] = _
  cases (assembler.call next).2 <;> rfl

end

section

variable {D : Type} {loop : HotLoop D} {i : Nat} {id : UInt32} {lastNs : UInt64}
  {assembler : ChunkAssembler D}

/-- The storage holds the session of the call. -/
structure Serving (loop : HotLoop D) (i : Nat) (id : UInt32) (lastNs : UInt64)
    (assembler : ChunkAssembler D) : Prop where
  ok : loop.sessions.Ok
  session : ∃ session, loop.sessions.sessions[i]? = some session ∧ session.active = true ∧
    session.id = id ∧ session.lastFrameNs = lastNs ∧ session.assembler = assembler

/-- No other storage holds a session of the call. -/
theorem Serving.alone (serving : Serving loop i id lastNs assembler) {j : Nat}
    {session : Session D} (here : loop.sessions.sessions[j]? = some session)
    (active : session.active = true) (same : session.id = id) : j = i := by
  obtain ⟨own, found, opened, ownId, -⟩ := serving.session
  apply serving.ok.ids j (SessionTable.mem_openStorage.mpr ⟨session, here, active⟩) i
    (SessionTable.mem_openStorage.mpr ⟨own, found, opened⟩)
  rw [SessionTable.idAt_of_getElem? here, SessionTable.idAt_of_getElem? found, same, ownId]

variable {full : Nat → Bool} {options : LoopOptions}

variable (full) in
/-- A sweep passes over a call heard within the idle time, and publishes nothing for it. -/
theorem Serving.sweep (serving : Serving loop i id lastNs assembler) {loopNs : UInt64}
    (heard : loopNs - lastNs < options.idleNs) :
    ∃ swept later, loop.sweep full options loopNs = some swept ∧
      Serving swept i id lastNs assembler ∧ swept.emitted = loop.emitted ++ later ∧
      later.filter (fun event => event.sessionId == id) = [] := by
  unfold HotLoop.sweep
  split
  · obtain ⟨session, here, active, same, rfl, rfl⟩ := serving.session
    obtain ⟨sessions, tails, returned, done⟩ :=
      serving.ok.sweepAll (SessionTable.isIdle loopNs options.idleNs) loopNs
    have notIdle : SessionTable.isIdle loopNs options.idleNs session = false := by
      rw [SessionTable.isIdle, decide_eq_true heard]
      rfl
    obtain ⟨found, -⟩ := (done.open_iff serving.ok i session).mpr ⟨here, active, notIdle⟩
    obtain ⟨kept, emitted⟩ := HotLoop.emitAll_keeps full
      { loop with sessions := sessions, nextSweepNs := loopNs + sweepIntervalNs } tails
    refine ⟨_, tails, by rw [SessionTable.expireIdle, returned]; rfl, ⟨?_, session, ?_, active,
      same, rfl, rfl⟩, emitted, ?_⟩
    · rw [kept]
      exact done.ok
    · rw [kept]
      exact found
    · rw [done.events_eq, List.filter_filterMap, List.filterMap_eq_nil_iff]
      intro j _
      cases there : loop.sessions.sessions[j]? with
      | none => rfl
      | some other =>
          rw [Option.bind_some]
          by_cases own : j = i
          · subst own
            rw [here] at there
            cases there
            rw [Session.sweptTail, notIdle, Bool.and_false]
            rfl
          · exact filter_sweptTail fun opened foreign =>
              own (serving.alone there opened foreign)
  · exact ⟨loop, [], rfl, serving, (List.append_nil _).symm, rfl⟩

variable [Double D]

variable (full options) in
/-- A frame of the call reaches its assembler. -/
theorem Serving.serve_own (serving : Serving loop i id lastNs assembler) {frame : AudioFrame}
    (own : frame.hdr.sessionId = id) (nowNs : UInt64) :
    ∃ later, Serving (loop.serve full options frame nowNs) i id nowNs
        (assembler.call (.frame frame nowNs)).1 ∧
      (loop.serve full options frame nowNs).emitted = loop.emitted ++ later ∧
      later.filter (fun event => event.sessionId == id) =
        eventsFrom assembler id [.frame frame nowNs] := by
  obtain ⟨session, here, active, same, -, rfl⟩ := serving.session
  rcases serving.ok.served_or_refused frame nowNs with ⟨feed, fed, fedFor, -⟩ | ⟨-, stranger, -⟩
  · obtain ⟨sameFrame, sameNs, -⟩ := SessionTable.feedOf_eq_some fed
    obtain rfl := (fedFor.owns i session here active).mpr (same.trans own.symm)
    have history := fedFor.assembler session here
    obtain ⟨servedId, servedActive, servedAssembler⟩ :=
      feed.session.served_keeps feed.frame feed.nowNs
    obtain ⟨kept, emitted⟩ := HotLoop.emitAll_keeps full { loop with
      sessions := (loop.sessions.acquire frame.hdr.sessionId nowNs).1.modifySession
        feed.storage (Session.served frame nowNs)
      metrics := feed.observed options loop.metrics } feed.closes.toList
    rw [HotLoop.serve_of_fed fed]
    refine ⟨feed.closes.toList, ⟨?_, feed.served, ?_, servedActive.trans fedFor.active,
      (servedId.trans fedFor.id).trans own, ?_, ?_⟩, emitted, ?_⟩
    · rw [kept]
      exact ((serving.ok.acquire frame.hdr.sessionId nowNs).modifySession feed.storage
        (Session.served frame nowNs) (fun session => (session.served_keeps _ _).1)
        (fun session => (session.served_keeps _ _).2.1)).1
    · rw [kept, SessionTable.sessions_served fed, if_pos rfl]
    · exact (Session.lastFrameNs_served _ _ _).trans fedFor.lastFrameNs
    · rw [Feed.served, servedAssembler, history, sameFrame, sameNs]
      rfl
    · rw [filter_closes, if_pos (fedFor.id.trans own), eventsFrom_single, Feed.closes, history,
        sameFrame, sameNs, fedFor.id, own]
      rfl
  · exact absurd (SessionTable.mem_callers.mpr ⟨i, session, here, active, same.trans own.symm⟩)
      stranger

variable (full options) in
/-- A frame of another call does not. -/
theorem Serving.serve_other (serving : Serving loop i id lastNs assembler) {frame : AudioFrame}
    (other : frame.hdr.sessionId ≠ id) (nowNs : UInt64) :
    ∃ later, Serving (loop.serve full options frame nowNs) i id lastNs assembler ∧
      (loop.serve full options frame nowNs).emitted = loop.emitted ++ later ∧
      later.filter (fun event => event.sessionId == id) = [] := by
  obtain ⟨session, here, active, same, stamped, history⟩ := serving.session
  rcases serving.ok.served_or_refused frame nowNs with ⟨feed, fed, fedFor, -⟩ | ⟨refused, -⟩
  · have elsewhere : feed.storage ≠ i := fun stored =>
      other (((fedFor.owns i session here active).mp stored).symm.trans same)
    obtain ⟨kept, emitted⟩ := HotLoop.emitAll_keeps full { loop with
      sessions := (loop.sessions.acquire frame.hdr.sessionId nowNs).1.modifySession
        feed.storage (Session.served frame nowNs)
      metrics := feed.observed options loop.metrics } feed.closes.toList
    rw [HotLoop.serve_of_fed fed]
    refine ⟨feed.closes.toList, ⟨?_, session, ?_, active, same, stamped, history⟩, emitted, ?_⟩
    · rw [kept]
      exact ((serving.ok.acquire frame.hdr.sessionId nowNs).modifySession feed.storage
        (Session.served frame nowNs) (fun session => (session.served_keeps _ _).1)
        (fun session => (session.served_keeps _ _).2.1)).1
    · rw [kept, SessionTable.sessions_served fed, if_neg elsewhere, here]
    · rw [filter_closes, if_neg fun foreign => other (fedFor.id.symm.trans foreign)]
  · rw [HotLoop.serve_of_refused refused]
    refine ⟨[], ⟨serving.ok.acquire frame.hdr.sessionId nowNs, session, ?_, active, same, stamped,
      history⟩, (List.append_nil _).symm, rfl⟩
    rw [SessionTable.sessions_of_refused refused]
    exact here

variable (full) in
/-- Step lemma: an iteration feeds the assembler of the call what it pops for the call. -/
theorem Serving.iterate (serving : Serving loop i id lastNs assembler) {tick : Tick}
    (heard : tick.loopNs - lastNs < options.idleNs) :
    ∃ next later, loop.iterate full options tick = some next ∧
      Serving next i id (tick.lastHeard id lastNs)
        (Machine.final call assembler (framesOf id [tick]).calls) ∧
      next.emitted = loop.emitted ++ later ∧
      later.filter (fun event => event.sessionId == id) =
        eventsFrom assembler id (framesOf id [tick]).calls := by
  obtain ⟨swept, tails, returned, kept, emitted, silent⟩ :=
    serving.sweep full heard
  cases popped : tick.popped with
  | none =>
      have nothing : framesOf id [tick] = [] := (framesOf_snoc_none popped :
        framesOf id ([] ++ [tick]) = [])
      refine ⟨swept, tails, by rw [HotLoop.iterate, returned, Option.map_some, popped], ?_,
        emitted, ?_⟩
      · rw [nothing, Tick.lastHeard, popped]
        exact kept
      · rw [nothing, silent]
        rfl
  | some frame =>
      have ran : loop.iterate full options tick =
          some (swept.serve full options frame tick.dequeueNs) := by
        rw [HotLoop.iterate, returned, Option.map_some, popped]
      by_cases own : frame.hdr.sessionId = id
      · have fed : framesOf id [tick] = [(frame, tick.dequeueNs)] :=
          (framesOf_snoc_same popped own :
            framesOf id ([] ++ [tick]) = _)
        obtain ⟨later, held, published, answers⟩ :=
          kept.serve_own full options own tick.dequeueNs
        refine ⟨_, tails ++ later, ran, ?_, ?_, ?_⟩
        · rw [fed, Tick.lastHeard, popped, Option.any_some, beq_iff_eq.mpr own, if_pos rfl]
          exact held
        · rw [published, emitted, List.append_assoc]
        · rw [List.filter_append, silent, answers, fed]
          rfl
      · have nothing : framesOf id [tick] = [] := (framesOf_snoc_other popped own :
            framesOf id ([] ++ [tick]) = [])
        obtain ⟨later, held, published, answers⟩ :=
          kept.serve_other full options own tick.dequeueNs
        refine ⟨_, tails ++ later, ran, ?_, ?_, ?_⟩
        · rw [nothing, Tick.lastHeard, popped, Option.any_some, beq_false_of_ne own,
            if_neg Bool.false_ne_true]
          exact held
        · rw [published, emitted, List.append_assoc]
        · rw [List.filter_append, silent, answers, nothing]
          rfl

variable (full) in
/-- Run lemma: the session of a call that keeps being heard serves the call, and no other. -/
theorem Serving.iterateAll (serving : Serving loop i id lastNs assembler) {ticks : List Tick}
    (attended : attends options.idleNs id lastNs ticks = true) :
    ∃ final lastNs' later, HotLoop.iterateAll full options loop ticks = some final ∧
      Serving final i id lastNs' (Machine.final call assembler (framesOf id ticks).calls) ∧
      final.emitted = loop.emitted ++ later ∧
      later.filter (fun event => event.sessionId == id) =
        eventsFrom assembler id (framesOf id ticks).calls := by
  induction ticks generalizing loop lastNs assembler with
  | nil => exact ⟨loop, lastNs, [], rfl, serving, (List.append_nil _).symm, rfl⟩
  | cons tick rest ih =>
      obtain ⟨now, later⟩ := Bool.and_eq_true_iff.mp attended
      obtain ⟨next, first, stepped, kept, emitted, answers⟩ :=
        serving.iterate full (of_decide_eq_true now)
      obtain ⟨final, lastNs', second, ran, held, published, answered⟩ := ih kept later
      have calls : (framesOf id (tick :: rest)).calls =
          (framesOf id [tick]).calls ++ (framesOf id rest).calls := by
        rw [framesOf_cons]
        exact List.map_append
      refine ⟨final, lastNs', first ++ second, ?_, ?_, ?_, ?_⟩
      · rw [HotLoop.iterateAll, stepped, Option.bind_some, ran]
      · rw [calls, Machine.final_append]
        exact held
      · rw [published, emitted, List.append_assoc]
      · rw [List.filter_append, answers, answered, calls, eventsFrom_append]

/-- Step lemma: an iteration keeps the invariant of the table. -/
theorem HotLoop.ok_iterate {next : HotLoop D} {tick : Tick} (ok : loop.sessions.Ok)
    (stepped : loop.iterate full options tick = some next) : next.sessions.Ok := by
  obtain ⟨swept, returned, outcome⟩ := iterate_cases stepped
  have sweptOk : swept.sessions.Ok := by
    rcases sweep_cases returned with ⟨-, sessions, tails, expired, rfl⟩ | ⟨-, rfl⟩
    · obtain ⟨sessions', tails', expired', done⟩ :=
        ok.sweepAll (SessionTable.isIdle tick.loopNs options.idleNs) tick.loopNs
      rw [SessionTable.expireIdle, expired'] at expired
      cases expired
      rw [(emitAll_keeps _ _ _).1]
      exact done.ok
    · exact ok
  rcases outcome with ⟨-, rfl⟩ | ⟨frame, -, rfl⟩
  · exact sweptOk
  · have acquired := sweptOk.acquire frame.hdr.sessionId tick.dequeueNs
    cases fed : swept.sessions.feedOf frame tick.dequeueNs with
    | none =>
        rw [serve_of_refused fed]
        exact acquired
    | some feed =>
        rw [serve_of_fed fed, (emitAll_keeps _ _ _).1]
        exact (acquired.modifySession feed.storage (Session.served frame tick.dequeueNs)
          (fun session => (session.served_keeps _ _).1)
          (fun session => (session.served_keeps _ _).2.1)).1

theorem HotLoop.ok_iterateAll {final : HotLoop D} {ticks : List Tick} (ok : loop.sessions.Ok)
    (ran : iterateAll full options loop ticks = some final) : final.sessions.Ok := by
  induction ticks generalizing loop with
  | nil =>
      cases ran
      exact ok
  | cons tick rest ih =>
      obtain ⟨next, stepped, later⟩ := Option.bind_eq_some_iff.mp ran
      exact ih (HotLoop.ok_iterate ok stepped) later

/-- Once a call has a session, as long as it is heard within the idle time the hot loop
goes on, the call keeps the session, the assembler there has received exactly the frames of the
call, and what is published for the call is what this assembler publishes on them:
no refusal, expiry, rebuild or frame of another call in between makes a difference. -/
theorem HotLoop.undisturbed {maxSessions : Nat} (small : maxSessions ≤ kTombstone)
    {config : ChunkerConfig D} {startNs : UInt64} {before ticks : List Tick}
    (reached : iterateAll full options (start maxSessions config startNs) before = some loop)
    {session : Session D} (here : loop.sessions.sessions[i]? = some session)
    (active : session.active = true)
    (attended : attends options.idleNs session.id session.lastFrameNs ticks = true) :
    ∃ final session' later, iterateAll full options loop ticks = some final ∧
      final.sessions.sessions[i]? = some session' ∧ session'.active = true ∧
      session'.id = session.id ∧
      session'.assembler =
        Machine.final call session.assembler (framesOf session.id ticks).calls ∧
      final.emitted = loop.emitted ++ later ∧
      later.filter (fun event => event.sessionId == session.id) =
        eventsFrom session.assembler session.id (framesOf session.id ticks).calls := by
  have ok := HotLoop.ok_iterateAll (.make_clamped small config) reached
  have serving : Serving loop i session.id session.lastFrameNs session.assembler :=
    ⟨ok, session, here, active, rfl, rfl, rfl⟩
  obtain ⟨final, lastNs', later, ran, held, emitted, answers⟩ :=
    serving.iterateAll full attended
  obtain ⟨session', found, opened, same, -, history⟩ := held.session
  exact ⟨final, session', later, ran, found, opened, same, history, emitted, answers⟩

end

section

open Scenario

/-- While one call goes on, another is refused, and the table is swept. -/
def undisturbedTicks : List Tick :=
  [tick 100000000 7 1, tick 140000000 9 0, tick 190000000 7 2, tick 260000000 9 1,
    quietTick 280000000 7 3, quietTick 300000000 7 4]

theorem undisturbed_sweptCall :
    ∃ loop session final session' later,
      HotLoop.iterateAll (fun _ => false) ⟨20000000, 100000000⟩
        (HotLoop.start 1 shortConfig 0) [tick 10000000 7 0] = some loop ∧
      loop.sessions.sessions[0]? = some session ∧
      HotLoop.iterateAll (fun _ => false) ⟨20000000, 100000000⟩ loop undisturbedTicks =
        some final ∧
      final.sessions.sessions[0]? = some session' ∧ session'.active = true ∧
      session'.id = session.id ∧
      session'.assembler = Machine.final call session.assembler
        (framesOf session.id undisturbedTicks).calls ∧
      final.emitted = loop.emitted ++ later ∧
      later.filter (fun event => event.sessionId == session.id) =
        eventsFrom session.assembler session.id (framesOf session.id undisturbedTicks).calls := by
  have returned : ((HotLoop.iterateAll (fun _ => false) ⟨20000000, 100000000⟩
      (HotLoop.start 1 shortConfig 0) [tick 10000000 7 0]).any fun loop =>
        loop.sessions.sessions[0]?.any fun session => session.active &&
          attends 100000000 session.id session.lastFrameNs undisturbedTicks) = true := by
    decide +kernel
  obtain ⟨loop, reached, later⟩ := (Option.any_eq_true _ _).mp returned
  obtain ⟨session, here, facts⟩ := (Option.any_eq_true _ _).mp later
  obtain ⟨active, attended⟩ := Bool.and_eq_true_iff.mp facts
  obtain ⟨final, session', published, rest⟩ :=
    HotLoop.undisturbed (by decide) reached here active attended
  exact ⟨loop, session, final, session', published, reached, here, rest⟩

end

end VoiceHotPath
