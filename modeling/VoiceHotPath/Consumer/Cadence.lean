import Mathlib.Data.List.Infix
import VoiceHotPath.Consumer.Admission

/-!
# Cadence

The jitter a run records is that of each call by itself: every deviation compares two
frames that follow each other within one call, whatever the ring holds between
them, and every frame served gives one, with its backfill, unless it opens a session.
-/

namespace VoiceHotPath

/-- The frames popped, with their dequeue times. -/
def arrivals (ticks : List Tick) : Stream :=
  ticks.filterMap fun tick => tick.popped.map fun frame => (frame, tick.dequeueNs)

/-- Two frames of one call with none of the call's frames between them. -/
def Consecutive (ticks : List Tick) (earlier later : AudioFrame × UInt64) : Prop :=
  ∃ id, [earlier, later] <:+: framesOf id ticks

/-- The jitter that pairs of frames give, each with what the backfill adds, latest first. -/
def jitterOf (nominalNs : UInt64) (pairs : List ((AudioFrame × UInt64) × (AudioFrame × UInt64))) :
    List UInt64 :=
  (pairs.flatMap fun (earlier, later) =>
    Histogram.withMissed (offCadence nominalNs earlier.2 later.2) nominalNs).reverse

theorem jitterOf_snoc (nominalNs : UInt64)
    (pairs : List ((AudioFrame × UInt64) × (AudioFrame × UInt64)))
    (earlier later : AudioFrame × UInt64) :
    jitterOf nominalNs (pairs ++ [(earlier, later)]) =
      (Histogram.withMissed (offCadence nominalNs earlier.2 later.2) nominalNs).reverse ++
        jitterOf nominalNs pairs := by
  rw [jitterOf, List.flatMap_append, List.flatMap_singleton, List.reverse_append, jitterOf]

section

variable {ticks : List Tick} {tick : Tick} {frame : AudioFrame}

theorem arrivals_sublist_snoc (ticks : List Tick) (tick : Tick) :
    (arrivals ticks).Sublist (arrivals (ticks ++ [tick])) := by
  rw [arrivals, arrivals, List.filterMap_append]
  exact List.sublist_append_left _ _

theorem arrivals_snoc (ticks : List Tick) (popped : tick.popped = some frame) :
    arrivals (ticks ++ [tick]) = arrivals ticks ++ [(frame, tick.dequeueNs)] := by
  simp [arrivals, popped]

theorem framesOf_prefix_snoc (id : UInt32) (ticks : List Tick) (tick : Tick) :
    framesOf id ticks <+: framesOf id (ticks ++ [tick]) := by
  rw [framesOf, framesOf, List.filterMap_append]
  exact List.prefix_append _ _

/-- Frames that have followed each other go on to have done so. -/
theorem Consecutive.snoc {earlier later : AudioFrame × UInt64}
    (consecutive : Consecutive ticks earlier later) (tick : Tick) :
    Consecutive (ticks ++ [tick]) earlier later := by
  obtain ⟨id, within⟩ := consecutive
  exact ⟨id, within.trans (framesOf_prefix_snoc id ticks tick).isInfix⟩

/-- A frame follows the last one of its call. -/
theorem consecutive_of_last {last : AudioFrame × UInt64} (popped : tick.popped = some frame)
    (known : (framesOf frame.hdr.sessionId ticks).getLast? = some last) :
    Consecutive (ticks ++ [tick]) last (frame, tick.dequeueNs) := by
  obtain ⟨before, same⟩ := List.getLast?_eq_some_iff.mp known
  refine ⟨frame.hdr.sessionId, before, [], ?_⟩
  rw [framesOf_snoc_same popped rfl, same, List.append_nil, List.append_assoc]
  rfl

/-- What the frames that follow each other within their calls have added to the counters. -/
structure Measures (nominalNs : UInt64) (ticks : List Tick)
    (pairs : List ((AudioFrame × UInt64) × (AudioFrame × UInt64))) (metrics : HotPathMetrics)
    (opened : UInt64) : Prop where
  consecutive : ∀ pair ∈ pairs, Consecutive ticks pair.1 pair.2
  inTurn : (pairs.map Prod.snd).Sublist (arrivals ticks)
  jitter : metrics.jitter = jitterOf nominalNs pairs
  frames : metrics.frames = UInt64.ofNat pairs.length + opened

variable {nominalNs : UInt64} {pairs : List ((AudioFrame × UInt64) × (AudioFrame × UInt64))}
  {metrics next : HotPathMetrics} {opened after : UInt64}

/-- As many frames served as sessions opened give no deviation. -/
theorem Measures.snoc (measures : Measures nominalNs ticks pairs metrics opened) (tick : Tick)
    (more : UInt64) (jitter : next.jitter = metrics.jitter)
    (frames : next.frames = metrics.frames + more) (opens : after = opened + more) :
    Measures nominalNs (ticks ++ [tick]) pairs next after where
  consecutive pair member := (measures.consecutive pair member).snoc tick
  inTurn := measures.inTurn.trans (arrivals_sublist_snoc ticks tick)
  jitter := jitter.trans measures.jitter
  frames := by
    rw [frames, measures.frames, opens, UInt64.add_assoc]

/-- A frame of a session that is open gives one deviation. -/
theorem Measures.deviates (measures : Measures nominalNs ticks pairs metrics opened)
    (popped : tick.popped = some frame) {last : AudioFrame × UInt64}
    (known : (framesOf frame.hdr.sessionId ticks).getLast? = some last)
    (jitter : next.jitter = (Histogram.withMissed (offCadence nominalNs last.2 tick.dequeueNs)
      nominalNs).reverse ++ metrics.jitter)
    (frames : next.frames = metrics.frames + 1) :
    Measures nominalNs (ticks ++ [tick]) (pairs ++ [(last, (frame, tick.dequeueNs))]) next
      opened where
  consecutive pair member := by
    rcases List.mem_append.mp member with before | this
    · exact (measures.consecutive pair before).snoc tick
    · rw [List.mem_singleton.mp this]
      exact consecutive_of_last popped known
  inTurn := by
    rw [List.map_append, List.map_singleton, arrivals_snoc ticks popped]
    exact measures.inTurn.append (List.Sublist.refl _)
  jitter := by
    rw [jitter, jitterOf_snoc, measures.jitter]
  frames := by
    have one : UInt64.ofNat (pairs.length + 1) = UInt64.ofNat pairs.length + 1 :=
      UInt64.ofNat_add _ 1
    rw [frames, measures.frames, List.length_append, List.length_singleton, one]
    ac_rfl

end

namespace SessionTable

section

variable {D : Type} {table : SessionTable D}

/-- The three outcomes of a frame, with what they do to the count of opened sessions. -/
theorem Ok.opened_cases (ok : table.Ok) (frame : AudioFrame) (nowNs : UInt64) :
    (∃ i session, table.sessions[i]? = some session ∧ session.active = true ∧
      session.id = frame.hdr.sessionId ∧
      table.feedOf frame nowNs = some ⟨i, false, session.stamp nowNs, frame, nowNs⟩ ∧
      (table.acquire frame.hdr.sessionId nowNs).1.opened = table.opened) ∨
    (table.feedOf frame nowNs = none ∧ frame.hdr.sessionId ∉ table.callers ∧
      (table.acquire frame.hdr.sessionId nowNs).1.opened = table.opened) ∨
    ∃ i session, table.sessions[i]? = some session ∧ session.active = false ∧
      table.feedOf frame nowNs =
        some ⟨i, true, session.openFor frame.hdr.sessionId nowNs, frame, nowNs⟩ ∧
      (table.acquire frame.hdr.sessionId nowNs).1.opened = table.opened + 1 := by
  have stranger : (∀ i ∈ table.openStorage, table.idAt i ≠ frame.hdr.sessionId) →
      frame.hdr.sessionId ∉ table.callers := by
    intro unserved member
    obtain ⟨i, opened, id⟩ := Finset.mem_image.mp member
    exact unserved i opened id
  rcases ok.feedOf_cases frame nowNs with ⟨i, session, here, active, id, fed⟩ |
    ⟨unserved, crowded, refused⟩ | ⟨unserved, i, session, here, closed, fed⟩
  · refine .inl ⟨i, session, here, active, id, fed, ?_⟩
    have opened := mem_openStorage.mpr ⟨session, here, active⟩
    rcases ok.acquire_cases frame.hdr.sessionId nowNs with ⟨j, -, -, same⟩ | ⟨unserved, -⟩ |
      ⟨unserved, -⟩
    · rw [same]
      rfl
    · exact absurd ((idAt_of_getElem? here).trans id) (unserved i opened)
    · exact absurd ((idAt_of_getElem? here).trans id) (unserved i opened)
  · refine .inr (.inl ⟨refused, stranger unserved, ?_⟩)
    rcases ok.acquire_cases frame.hdr.sessionId nowNs with ⟨j, opened, id, -⟩ | ⟨-, -, same⟩ |
      ⟨-, room, -⟩
    · exact absurd id (unserved j opened)
    · rw [same]
      rfl
    · omega
  · refine .inr (.inr ⟨i, session, here, closed, fed, ?_⟩)
    have room := ok.card_lt_of_closed here closed
    rcases ok.acquire_cases frame.hdr.sessionId nowNs with ⟨j, opened, id, -⟩ | ⟨-, full, -⟩ |
      ⟨-, -, p, j, rest, -, -, same⟩
    · exact absurd id (unserved j opened)
    · omega
    · rw [same]
      rfl

end

end SessionTable

section

variable {D : Type}

/-- What the sessions and the counters of a run have to do with its frames. -/
structure Cadenced (nominalNs : UInt64) (ticks : List Tick) (loop : HotLoop D) : Prop where
  ok : loop.sessions.Ok
  last : ∀ (i : Nat) session, loop.sessions.sessions[i]? = some session → session.active = true →
    ∃ frame, (framesOf session.id ticks).getLast? = some (frame, session.prevFrameNs) ∧
      session.prevFrameNs ≠ 0
  measures : ∃ pairs, Measures nominalNs ticks pairs loop.metrics loop.sessions.opened

variable {nominalNs : UInt64} {options : LoopOptions} {full : Nat → Bool} {ticks : List Tick}
  {tick : Tick} {loop swept : HotLoop D} {frame : AudioFrame}

/-- A sweep closes sessions and records nothing. -/
theorem Cadenced.sweep (cadenced : Cadenced nominalNs ticks loop) {loopNs : UInt64}
    (returned : loop.sweep full options loopNs = some swept) :
    Cadenced nominalNs ticks swept := by
  rcases HotLoop.sweep_cases returned with ⟨-, sessions, tails, expired, rfl⟩ | ⟨-, rfl⟩
  · obtain ⟨sessions', tails', expired', done⟩ :=
      cadenced.ok.sweepAll (SessionTable.isIdle loopNs options.idleNs) loopNs
    rw [SessionTable.expireIdle, expired'] at expired
    cases expired
    obtain ⟨chunks, drops, metrics⟩ := HotLoop.metrics_emitAll full
      { loop with sessions := sessions, nextSweepNs := loopNs + sweepIntervalNs } tails
    refine ⟨?_, ?_, ?_⟩
    · rw [(HotLoop.emitAll_keeps _ _ _).1]
      exact done.ok
    · rw [(HotLoop.emitAll_keeps _ _ _).1]
      intro i session found active
      obtain ⟨here, -⟩ := (done.open_iff cadenced.ok i session).mp ⟨found, active⟩
      exact cadenced.last i session here active
    · obtain ⟨pairs, measures⟩ := cadenced.measures
      rw [metrics, (HotLoop.emitAll_keeps _ _ _).1]
      exact ⟨pairs, measures.consecutive, measures.inTurn, measures.jitter,
        measures.frames.trans (congrArg _ done.opened.symm)⟩
  · exact cadenced

variable [Double D]

theorem Cadenced.start {maxSessions : Nat} (small : maxSessions ≤ kTombstone)
    (config : ChunkerConfig D) (startNs : UInt64) :
    Cadenced nominalNs [] (HotLoop.start maxSessions config startNs) := by
  refine ⟨.make_clamped small config, ?_, [], nofun, List.nil_sublist _, rfl, rfl⟩
  intro i session here active
  rw [SessionTable.inactive_of_make here] at active
  cases active

/-- The time of a session's last frame is kept for the cadence. -/
theorem Session.prevFrameNs_served (frame : AudioFrame) (nowNs : UInt64) (session : Session D) :
    (session.served frame nowNs).prevFrameNs = nowNs := by
  unfold served hear
  split <;> rfl

/-- What a frame that is served adds to the counters of frames and jitter. -/
theorem Feed.observed_counts (feed : Feed D) (options : LoopOptions) (metrics : HotPathMetrics) :
    (feed.observed options metrics).frames = metrics.frames + 1 ∧
      (feed.observed options metrics).jitter =
        if feed.session.prevFrameNs ≠ 0 then
          (Histogram.withMissed (offCadence options.nominalNs feed.session.prevFrameNs feed.nowNs)
            options.nominalNs).reverse ++ metrics.jitter
        else metrics.jitter := by
  have transport : (metrics.observeTransport feed.frame feed.nowNs).frames = metrics.frames ∧
      (metrics.observeTransport feed.frame feed.nowNs).jitter = metrics.jitter := by
    unfold HotPathMetrics.observeTransport
    split <;> exact ⟨rfl, rfl⟩
  have arrival : ∀ metrics' : HotPathMetrics,
      (metrics'.observeArrival options.nominalNs feed.frame feed.nowNs feed.session).frames =
        metrics'.frames + 1 ∧
      (metrics'.observeArrival options.nominalNs feed.frame feed.nowNs feed.session).jitter =
        if feed.session.prevFrameNs ≠ 0 then
          (Histogram.withMissed (offCadence options.nominalNs feed.session.prevFrameNs feed.nowNs)
            options.nominalNs).reverse ++ metrics'.jitter
        else metrics'.jitter := fun metrics' => ⟨rfl, rfl⟩
  obtain ⟨frames, jitter⟩ := arrival (metrics.observeTransport feed.frame feed.nowNs)
  rw [transport.1] at frames
  rw [transport.2] at jitter
  unfold Feed.observed
  cases feed.closes with
  | none => exact ⟨frames, jitter⟩
  | some event =>
      unfold HotPathMetrics.observeEndpoint
      dsimp only
      split <;> exact ⟨frames, jitter⟩

variable (options full) in
/-- A frame that is served: the metrics afterwards. -/
theorem served_counts {nowNs : UInt64} {feed : Feed D}
    (fed : loop.sessions.feedOf frame nowNs = some feed) :
    (loop.serve full options frame nowNs).metrics.frames = loop.metrics.frames + 1 ∧
      (loop.serve full options frame nowNs).metrics.jitter =
        if feed.session.prevFrameNs ≠ 0 then
          (Histogram.withMissed (offCadence options.nominalNs feed.session.prevFrameNs feed.nowNs)
            options.nominalNs).reverse ++ loop.metrics.jitter
        else loop.metrics.jitter := by
  obtain ⟨chunks, drops, metrics⟩ := HotLoop.metrics_emitAll full { loop with
    sessions := (loop.sessions.acquire frame.hdr.sessionId nowNs).1.modifySession
      feed.storage (Session.served frame nowNs)
    metrics := feed.observed options loop.metrics } feed.closes.toList
  rw [HotLoop.serve_of_fed fed, metrics]
  exact feed.observed_counts options loop.metrics

variable (options full) in
/-- The sessions after a frame is served know when their calls were last heard. -/
theorem Cadenced.last_served (cadenced : Cadenced nominalNs ticks loop)
    (popped : tick.popped = some frame) (running : tick.dequeueNs ≠ 0) {feed : Feed D}
    (fed : loop.sessions.feedOf frame tick.dequeueNs = some feed)
    (fedFor : SessionTable.FedFor loop.sessions frame tick.dequeueNs feed) (i : Nat)
    (session : Session D)
    (found : (loop.serve full options frame tick.dequeueNs).sessions.sessions[i]? = some session)
    (active : session.active = true) :
    ∃ frame', (framesOf session.id (ticks ++ [tick])).getLast? =
        some (frame', session.prevFrameNs) ∧ session.prevFrameNs ≠ 0 := by
  obtain ⟨sameFrame, sameNs, -⟩ := SessionTable.feedOf_eq_some fed
  rw [HotLoop.serve_of_fed fed, (HotLoop.emitAll_keeps _ _ _).1,
    SessionTable.sessions_served fed] at found
  split at found
  · cases found
    have id : feed.served.id = frame.hdr.sessionId :=
      (feed.session.served_keeps feed.frame feed.nowNs).1.trans fedFor.id
    have time : feed.served.prevFrameNs = tick.dequeueNs :=
      (Session.prevFrameNs_served _ _ _).trans sameNs
    rw [id, time, framesOf_snoc_same popped rfl]
    exact ⟨frame, List.getLast?_concat, running⟩
  · rename_i elsewhere
    have other : frame.hdr.sessionId ≠ session.id := fun same =>
      elsewhere ((fedFor.owns i session found active).mpr same.symm)
    rw [framesOf_snoc_other popped other]
    exact cadenced.last i session found active

/-- A frame that is served keeps the cadence, whatever it adds to the counters. -/
theorem Cadenced.served (cadenced : Cadenced options.nominalNs ticks loop)
    (popped : tick.popped = some frame) (running : tick.dequeueNs ≠ 0) {feed : Feed D}
    (fed : loop.sessions.feedOf frame tick.dequeueNs = some feed)
    (adds : (∃ frame', (framesOf frame.hdr.sessionId ticks).getLast? =
          some (frame', feed.session.prevFrameNs) ∧ feed.session.prevFrameNs ≠ 0 ∧
        (loop.sessions.acquire frame.hdr.sessionId tick.dequeueNs).1.opened =
          loop.sessions.opened) ∨
      feed.session.prevFrameNs = 0 ∧
        (loop.sessions.acquire frame.hdr.sessionId tick.dequeueNs).1.opened =
          loop.sessions.opened + 1) :
    Cadenced options.nominalNs (ticks ++ [tick])
      (loop.serve full options frame tick.dequeueNs) := by
  have fedFor : SessionTable.FedFor loop.sessions frame tick.dequeueNs feed := by
    rcases cadenced.ok.served_or_refused frame tick.dequeueNs with ⟨feed', fed', fedFor, -⟩ |
      ⟨refused, -⟩
    · rw [fed] at fed'
      cases fed'
      exact fedFor
    · rw [fed] at refused
      cases refused
  have sessions : (loop.serve full options frame tick.dequeueNs).sessions =
      (loop.sessions.acquire frame.hdr.sessionId tick.dequeueNs).1.modifySession feed.storage
        (Session.served frame tick.dequeueNs) := by
    rw [HotLoop.serve_of_fed fed, (HotLoop.emitAll_keeps _ _ _).1]
  have opened : (loop.serve full options frame tick.dequeueNs).sessions.opened =
      (loop.sessions.acquire frame.hdr.sessionId tick.dequeueNs).1.opened := by
    rw [sessions]
    rfl
  obtain ⟨frames, jitter⟩ := served_counts options full fed
  obtain ⟨-, sameNs, -⟩ := SessionTable.feedOf_eq_some fed
  obtain ⟨pairs, measures⟩ := cadenced.measures
  refine ⟨?_, cadenced.last_served options full popped running fed fedFor, ?_⟩
  · rw [sessions]
    exact ((cadenced.ok.acquire frame.hdr.sessionId tick.dequeueNs).modifySession feed.storage
      (Session.served frame tick.dequeueNs) (fun session => (session.served_keeps _ _).1)
      (fun session => (session.served_keeps _ _).2.1)).1
  · rw [opened]
    rcases adds with ⟨frame', known, nonzero, same⟩ | ⟨zero, more⟩
    · rw [if_pos nonzero, sameNs] at jitter
      rw [same]
      exact ⟨_, measures.deviates popped known jitter frames⟩
    · rw [if_neg (not_not.mpr zero)] at jitter
      exact ⟨_, measures.snoc tick 1 jitter frames more⟩

/-- A frame that is refused is no frame of any session. -/
theorem Cadenced.refused (cadenced : Cadenced options.nominalNs ticks loop)
    (popped : tick.popped = some frame)
    (refused : loop.sessions.feedOf frame tick.dequeueNs = none)
    (stranger : frame.hdr.sessionId ∉ loop.sessions.callers)
    (opened : (loop.sessions.acquire frame.hdr.sessionId tick.dequeueNs).1.opened =
      loop.sessions.opened) :
    Cadenced options.nominalNs (ticks ++ [tick])
      (loop.serve full options frame tick.dequeueNs) := by
  have counts : (loop.metrics.observeTransport frame tick.dequeueNs).frames =
        loop.metrics.frames ∧
      (loop.metrics.observeTransport frame tick.dequeueNs).jitter = loop.metrics.jitter := by
    unfold HotPathMetrics.observeTransport
    split <;> exact ⟨rfl, rfl⟩
  have sessions := SessionTable.sessions_of_refused refused
  rw [HotLoop.serve_of_refused refused]
  refine ⟨cadenced.ok.acquire frame.hdr.sessionId tick.dequeueNs, ?_, ?_⟩
  · rw [sessions]
    intro i session here active
    have other : frame.hdr.sessionId ≠ session.id := fun same =>
      stranger (SessionTable.mem_callers.mpr ⟨i, session, here, active, same.symm⟩)
    rw [framesOf_snoc_other popped other]
    exact cadenced.last i session here active
  · obtain ⟨pairs, measures⟩ := cadenced.measures
    exact ⟨pairs, measures.snoc tick 0 counts.2 (counts.1.trans (UInt64.add_zero _).symm)
      (opened.trans (UInt64.add_zero _).symm)⟩

/-- Step lemma: a frame gives a deviation unless it opens its session. -/
theorem Cadenced.serve (cadenced : Cadenced options.nominalNs ticks loop)
    (popped : tick.popped = some frame) (running : tick.dequeueNs ≠ 0) :
    Cadenced options.nominalNs (ticks ++ [tick])
      (loop.serve full options frame tick.dequeueNs) := by
  rcases cadenced.ok.opened_cases frame tick.dequeueNs with
    ⟨i, session, here, active, id, fed, opened⟩ | ⟨refused, stranger, opened⟩ |
    ⟨i, session, here, closed, fed, opened⟩
  · obtain ⟨frame', known, nonzero⟩ := cadenced.last i session here active
    rw [id] at known
    exact cadenced.served popped running fed (.inl ⟨frame', known, nonzero, opened⟩)
  · exact cadenced.refused popped refused stranger opened
  · exact cadenced.served popped running fed (.inr ⟨rfl, opened⟩)

theorem Cadenced.iterate (cadenced : Cadenced options.nominalNs ticks loop) {next : HotLoop D}
    (running : tick.popped.isSome → tick.dequeueNs ≠ 0)
    (stepped : loop.iterate full options tick = some next) :
    Cadenced options.nominalNs (ticks ++ [tick]) next := by
  obtain ⟨swept, returned, ⟨popped, rfl⟩ | ⟨frame, popped, rfl⟩⟩ := HotLoop.iterate_cases stepped
  · have kept := cadenced.sweep returned
    obtain ⟨pairs, measures⟩ := kept.measures
    refine ⟨kept.ok, ?_, pairs,
      measures.snoc tick 0 rfl (UInt64.add_zero _).symm (UInt64.add_zero _).symm⟩
    intro i session here active
    rw [framesOf_snoc_none popped]
    exact kept.last i session here active
  · exact (cadenced.sweep returned).serve popped (running (by rw [popped]; rfl))

/-- In every run on a clock that has left zero, the jitter recorded is that of pairs of frames, each
of which follow each other within one call, with its backfill, in the order in which the later
frames are popped; and every frame served is the later one of a pair or has opened a session. -/
theorem HotLoop.jitter_per_call {maxSessions : Nat} (small : maxSessions ≤ kTombstone)
    {config : ChunkerConfig D} {startNs : UInt64}
    (running : ∀ tick ∈ ticks, tick.popped.isSome → tick.dequeueNs ≠ 0)
    (ran : iterateAll full options (start maxSessions config startNs) ticks = some loop) :
    ∃ pairs, (∀ pair ∈ pairs, Consecutive ticks pair.1 pair.2) ∧
      (pairs.map Prod.snd).Sublist (arrivals ticks) ∧
      loop.metrics.jitter = jitterOf options.nominalNs pairs ∧
      loop.metrics.frames = UInt64.ofNat pairs.length + loop.sessions.opened := by
  have cadenced : Cadenced options.nominalNs ticks loop := by
    induction ticks using List.reverseRecOn generalizing loop with
    | nil =>
        cases ran
        exact .start small config startNs
    | append_singleton ticks tick ih =>
        rw [iterateAll_snoc] at ran
        obtain ⟨before, earlier, stepped⟩ := Option.bind_eq_some_iff.mp ran
        have kept := ih (fun tick member => running tick (List.mem_append_left _ member)) earlier
        exact kept.iterate (running tick (List.mem_append_right _ (List.mem_singleton_self tick)))
          stepped
  obtain ⟨pairs, measures⟩ := cadenced.measures
  exact ⟨pairs, measures.consecutive, measures.inTurn, measures.jitter, measures.frames⟩

end

open Scenario in
/-- Of two calls on the ring one is 50 ms late, of which 30 ms are a frame swallowed. -/
theorem jitter_per_call_interleaved :
    let ticks := [tick 10000000 7 0, tick 15000000 9 0, tick 35000000 9 1, tick 80000000 7 1]
    ∃ loop, HotLoop.iterateAll (fun _ => false) ⟨20000000, 100000000⟩
        (HotLoop.start 2 shortConfig 0) ticks = some loop ∧
      loop.metrics.jitter = [30000000, 50000000, 0] ∧
      ∃ pairs, (∀ pair ∈ pairs, Consecutive ticks pair.1 pair.2) ∧
        (pairs.map Prod.snd).Sublist (arrivals ticks) ∧
        loop.metrics.jitter = jitterOf 20000000 pairs ∧
        loop.metrics.frames = UInt64.ofNat pairs.length + loop.sessions.opened := by
  intro ticks
  have returned : (HotLoop.iterateAll (fun _ => false) ⟨20000000, 100000000⟩
      (HotLoop.start 2 shortConfig 0) ticks).any
        (fun loop => loop.metrics.jitter = [30000000, 50000000, 0]) = true := by
    decide +kernel
  obtain ⟨loop, ran, jitter⟩ := (Option.any_eq_true _ _).mp returned
  exact ⟨loop, ran, of_decide_eq_true jitter, HotLoop.jitter_per_call (by decide) (by decide) ran⟩

end VoiceHotPath
