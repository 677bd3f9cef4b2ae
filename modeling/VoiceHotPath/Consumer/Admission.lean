import VoiceHotPath.Consumer.SteadyCall
import VoiceHotPath.Lib.Lease

/-!
# Admission

Who is served over a run of the hot loop is decided by the clock alone.  Reading
the open sessions as leases, a popped frame is a request of its call, and the
start of an iteration is a check.
-/

namespace VoiceHotPath

open Lease

/-- What one iteration asks of the leases, with the readings of the clock. -/
def Tick.acts (tick : Tick) : List (Act UInt32) :=
  .check tick.loopNs.toNat ::
    (tick.popped.map fun frame => .request frame.hdr.sessionId tick.dequeueNs.toNat).toList

def Tick.allActs (ticks : List Tick) : List (Act UInt32) :=
  ticks.flatMap Tick.acts

/-- `max_sessions` as the constructor clamps it, and the two periods of the sweep. -/
def LoopOptions.terms (options : LoopOptions) (maxSessions : Nat) : Terms where
  capacity := max maxSessions 1
  idle := options.idleNs.toNat
  interval := sweepIntervalNs.toNat

/-- The clock never goes back, and a sweep interval from now it has not wrapped. -/
structure Steady (startNs : UInt64) (ticks : List Tick) : Prop where
  ordered : (startNs.toNat :: (Tick.allActs ticks).map Act.time).Pairwise (· ≤ ·)
  unwrapped : ∀ time ∈ startNs.toNat :: (Tick.allActs ticks).map Act.time,
    time + sweepIntervalNs.toNat < 2 ^ 64

theorem Steady.append_left {startNs : UInt64} {ticks rest : List Tick}
    (steady : Steady startNs (ticks ++ rest)) : Steady startNs ticks := by
  have shorter : startNs.toNat :: (Tick.allActs ticks).map Act.time <+:
      startNs.toNat :: (Tick.allActs (ticks ++ rest)).map Act.time := by
    rw [Tick.allActs, Tick.allActs, List.flatMap_append, List.map_append]
    exact ⟨_, rfl⟩
  exact ⟨steady.ordered.sublist shorter.sublist,
    fun time member => steady.unwrapped time (shorter.subset member)⟩

/-- The next iteration reads the clock after everything before it. -/
theorem Steady.before {startNs : UInt64} {ticks : List Tick} {tick : Tick}
    (steady : Steady startNs (ticks ++ [tick])) :
    ∀ time ∈ startNs.toNat :: (Tick.allActs ticks).map Act.time, time ≤ tick.loopNs.toNat := by
  have ordered := steady.ordered
  rw [Tick.allActs, List.flatMap_append, List.map_append, ← List.cons_append] at ordered
  obtain ⟨-, -, across⟩ := List.pairwise_append.mp ordered
  intro time listed
  apply across time listed
  simp [Tick.acts, Act.time]

theorem Steady.wrapsLater {startNs : UInt64} {ticks : List Tick} {tick : Tick}
    (steady : Steady startNs (ticks ++ [tick])) :
    tick.loopNs.toNat + sweepIntervalNs.toNat < 2 ^ 64 := by
  apply steady.unwrapped
  simp [Tick.allActs, Tick.acts, Act.time]

/-- The leases before anything has been asked of them. -/
def firstLedger (startNs : UInt64) : Ledger UInt32 :=
  .initial (startNs.toNat + sweepIntervalNs.toNat)

namespace SessionTable

section

variable {D : Type} {table : SessionTable D}

/-- The calls that have a session. -/
def callers (table : SessionTable D) : Finset UInt32 :=
  table.openStorage.image table.idAt

theorem mem_callers {id : UInt32} :
    id ∈ table.callers ↔ ∃ (i : Nat) (session : Session D),
      table.sessions[i]? = some session ∧ session.active = true ∧ session.id = id := by
  unfold callers
  rw [Finset.mem_image]
  constructor
  · rintro ⟨i, opened, rfl⟩
    obtain ⟨session, here, active⟩ := mem_openStorage.mp opened
    exact ⟨i, session, here, active, (idAt_of_getElem? here).symm⟩
  · rintro ⟨i, session, here, active, rfl⟩
    exact ⟨i, mem_openStorage.mpr ⟨session, here, active⟩, idAt_of_getElem? here⟩

theorem Ok.card_callers (ok : table.Ok) : table.callers.card = table.openStorage.card :=
  Finset.card_image_of_injOn fun i opened j opened' same => ok.ids i opened j opened' same

/-- Closed storage leaves room. -/
theorem Ok.card_lt_of_closed (ok : table.Ok) {i : Nat} {session : Session D}
    (here : table.sessions[i]? = some session) (closed : session.active = false) :
    table.openStorage.card < table.maxSessions := by
  have listed : i ∈ table.freeList := by
    refine (ok.free i).mpr ⟨?_, fun opened => ?_⟩
    · rw [← ok.sessionsLength]
      exact (List.getElem?_eq_some_iff.mp here).1
    · obtain ⟨session', found, active⟩ := mem_openStorage.mp opened
      rw [here] at found
      cases found
      rw [closed] at active
      cases active
  have length := ok.length_freeList
  have some := List.length_pos_of_mem listed
  omega

/-- The session a frame is fed to is the only open one of its call, and has just
been stamped. -/
structure FedFor (table : SessionTable D) (frame : AudioFrame) (nowNs : UInt64)
    (feed : Feed D) : Prop where
  active : feed.session.active = true
  id : feed.session.id = frame.hdr.sessionId
  lastFrameNs : feed.session.lastFrameNs = nowNs
  assembler : ∀ session, table.sessions[feed.storage]? = some session →
    feed.session.assembler = session.assembler
  owns : ∀ (i : Nat) session, table.sessions[i]? = some session → session.active = true →
    (feed.storage = i ↔ session.id = frame.hdr.sessionId)

/-- A frame is served exactly when its call has a session or there is room for one. -/
theorem Ok.served_or_refused (ok : table.Ok) (frame : AudioFrame) (nowNs : UInt64) :
    (∃ feed, table.feedOf frame nowNs = some feed ∧ FedFor table frame nowNs feed ∧
      (frame.hdr.sessionId ∈ table.callers ∨ table.callers.card < table.maxSessions)) ∨
    (table.feedOf frame nowNs = none ∧ frame.hdr.sessionId ∉ table.callers ∧
      table.callers.card = table.maxSessions) := by
  rcases ok.feedOf_cases frame nowNs with ⟨i, session, here, active, id, same⟩ |
    ⟨unserved, crowded, same⟩ | ⟨unserved, i, session, here, closed, same⟩
  · refine .inl ⟨_, same, ⟨active, id, rfl, ?_, ?_⟩, .inl ?_⟩
    · intro other there
      rw [here] at there
      cases there
      rfl
    · intro j other there active'
      constructor
      · rintro rfl
        rw [here] at there
        cases there
        exact id
      · intro id'
        apply ok.ids i (mem_openStorage.mpr ⟨session, here, active⟩) j
          (mem_openStorage.mpr ⟨other, there, active'⟩)
        rw [idAt_of_getElem? here, idAt_of_getElem? there, id, id']
    · exact mem_callers.mpr ⟨i, session, here, active, id⟩
  · refine .inr ⟨same, fun member => ?_, ok.card_callers.trans crowded⟩
    obtain ⟨i, opened, id⟩ := Finset.mem_image.mp member
    exact unserved i opened id
  · refine .inl ⟨_, same, ⟨rfl, rfl, rfl, ?_, ?_⟩, .inr ?_⟩
    · intro other there
      rw [here] at there
      cases there
      rfl
    · intro j other there active
      constructor
      · rintro rfl
        rw [here] at there
        cases there
        rw [closed] at active
        cases active
      · intro id
        refine absurd ?_ (unserved j (mem_openStorage.mpr ⟨other, there, active⟩))
        rw [idAt_of_getElem? there, id]
    · rw [ok.card_callers]
      exact ok.card_lt_of_closed here closed

/-- A sweep leaves the open sessions that are not due as they are, and no others open. -/
theorem Swept.open_iff {due : Session D → Bool} {nowNs : UInt64} {swept : SessionTable D}
    {events : List ChunkEvent}
    (done : Swept due nowNs (List.range table.maxSessions) table swept events) (ok : table.Ok)
    (i : Nat) (session : Session D) :
    (swept.sessions[i]? = some session ∧ session.active = true) ↔
      table.sessions[i]? = some session ∧ session.active = true ∧ due session = false := by
  constructor
  · rintro ⟨found, active⟩
    cases here : table.sessions[i]? with
    | none =>
        rw [done.none_eq here] at found
        cases found
    | some before =>
        rw [done.session_eq ok here] at found
        cases found
        rw [Session.active_swept, Bool.and_eq_true, Bool.not_eq_true'] at active
        obtain ⟨wasActive, notDue⟩ := active
        rw [Session.swept_of_not_due (by rw [notDue, Bool.and_false])]
        exact ⟨rfl, wasActive, notDue⟩
  · rintro ⟨here, active, notDue⟩
    rw [done.session_eq ok here, Session.swept_of_not_due (by rw [notDue, Bool.and_false])]
    exact ⟨rfl, active⟩

end

end SessionTable

section

variable {D : Type} {terms : Terms} {ledger : Ledger UInt32} {loop : HotLoop D}

/-- The open sessions are the leases of the ledger. -/
structure Enforces (terms : Terms) (ledger : Ledger UInt32) (loop : HotLoop D) : Prop where
  ok : loop.sessions.Ok
  capacity : loop.sessions.maxSessions = terms.capacity
  holders : ledger.holders = loop.sessions.callers
  renewed : ∀ (i : Nat) session, loop.sessions.sessions[i]? = some session →
    session.active = true → ledger.renewed session.id = session.lastFrameNs.toNat
  nextCheck : ledger.nextCheck = loop.nextSweepNs.toNat

/-- Events published change nothing that is enforced. -/
theorem Enforces.congr (enforces : Enforces terms ledger loop) {next : HotLoop D}
    (sessions : next.sessions = loop.sessions) (nextSweepNs : next.nextSweepNs = loop.nextSweepNs) :
    Enforces terms ledger next := by
  refine ⟨sessions ▸ enforces.ok, sessions ▸ enforces.capacity, sessions ▸ enforces.holders, ?_,
    nextSweepNs ▸ enforces.nextCheck⟩
  rw [sessions]
  exact enforces.renewed

/-- For a session that is not from the future, the code's test of idleness is the ledger's. -/
theorem isIdle_eq_false {session : Session D} {nowNs idleNs : UInt64}
    (dated : session.lastFrameNs.toNat ≤ nowNs.toNat) :
    SessionTable.isIdle nowNs idleNs session = false ↔
      nowNs.toNat - session.lastFrameNs.toNat < idleNs.toNat := by
  unfold SessionTable.isIdle
  rw [Bool.not_eq_false', decide_eq_true_eq, UInt64.lt_iff_toNat_lt,
    UInt64.toNat_sub_of_le _ _ (UInt64.le_iff_toNat_le.mpr dated)]

variable {full : Nat → Bool} {options : LoopOptions} {maxSessions : Nat}

theorem nextSweepNs_emitAll (full : Nat → Bool) (loop : HotLoop D) (events : List ChunkEvent) :
    (HotLoop.emitAll full loop events).nextSweepNs = loop.nextSweepNs := by
  induction events generalizing loop with
  | nil => rfl
  | cons event rest ih => exact ih (HotLoop.emit full loop event)

variable (full) in
/-- Step lemma: a sweep that is due is a check of the leases that is due. -/
theorem Enforces.sweep (enforces : Enforces (options.terms maxSessions) ledger loop)
    {past : List (Act UInt32)} {clock : Nat}
    (kept : ledger.Kept (options.terms maxSessions) past clock) {loopNs : UInt64}
    (later : clock ≤ loopNs.toNat)
    (unwrapped : loopNs.toNat + sweepIntervalNs.toNat < 2 ^ 64) :
    ∃ swept, loop.sweep full options loopNs = some swept ∧
      Enforces (options.terms maxSessions)
        (ledger.check (options.terms maxSessions) loopNs.toNat) swept := by
  have isDue : ledger.nextCheck ≤ loopNs.toNat ↔ loop.nextSweepNs ≤ loopNs := by
    rw [enforces.nextCheck, UInt64.le_iff_toNat_le]
  have dated : ∀ (i : Nat) session, loop.sessions.sessions[i]? = some session →
      session.active = true → session.lastFrameNs.toNat ≤ loopNs.toNat := by
    intro i session here active
    rw [← enforces.renewed i session here active]
    refine Nat.le_trans (kept.dated session.id ?_) later
    rw [enforces.holders]
    exact SessionTable.mem_callers.mpr ⟨i, session, here, active, rfl⟩
  unfold HotLoop.sweep Ledger.check
  by_cases due : loop.nextSweepNs ≤ loopNs
  · rw [if_pos due, if_pos (isDue.mpr due)]
    obtain ⟨sessions, tails, returned, done⟩ :=
      enforces.ok.sweepAll (SessionTable.isIdle loopNs options.idleNs) loopNs
    suffices swept : Enforces (options.terms maxSessions)
        { ledger with
          holders := ledger.holders.filter fun key =>
            loopNs.toNat - ledger.renewed key < options.idleNs.toNat
          nextCheck := loopNs.toNat + sweepIntervalNs.toNat }
        { loop with sessions := sessions, nextSweepNs := loopNs + sweepIntervalNs } from
      ⟨_, by rw [SessionTable.expireIdle, returned]; rfl,
        swept.congr (HotLoop.emitAll_keeps full _ tails).1 (nextSweepNs_emitAll full _ tails)⟩
    have stays : ∀ (i : Nat) session, sessions.sessions[i]? = some session ∧
        session.active = true ↔ loop.sessions.sessions[i]? = some session ∧
          session.active = true ∧
          loopNs.toNat - session.lastFrameNs.toNat < options.idleNs.toNat := by
      intro i session
      rw [done.open_iff enforces.ok]
      refine and_congr_right fun here => and_congr_right fun active => ?_
      exact isIdle_eq_false (dated i session here active)
    refine ⟨done.ok, done.maxSessions.trans enforces.capacity, ?_, ?_, ?_⟩
    · ext id
      rw [Finset.mem_filter, enforces.holders, SessionTable.mem_callers, SessionTable.mem_callers]
      constructor
      · rintro ⟨⟨i, session, here, active, rfl⟩, recent⟩
        rw [enforces.renewed i session here active] at recent
        obtain ⟨found, -⟩ := (stays i session).mpr ⟨here, active, recent⟩
        exact ⟨i, session, found, active, rfl⟩
      · rintro ⟨i, session, found, active, rfl⟩
        obtain ⟨here, -, recent⟩ := (stays i session).mp ⟨found, active⟩
        refine ⟨⟨i, session, here, active, rfl⟩, ?_⟩
        rw [enforces.renewed i session here active]
        exact recent
    · intro i session found active
      obtain ⟨here, -⟩ := (stays i session).mp ⟨found, active⟩
      exact enforces.renewed i session here active
    · change loopNs.toNat + sweepIntervalNs.toNat = (loopNs + sweepIntervalNs).toNat
      rw [UInt64.toNat_add, Nat.mod_eq_of_lt unwrapped]
  · rw [if_neg due, if_neg (fun now => due (isDue.mp now))]
    exact ⟨loop, rfl, enforces⟩

/-- A request is granted exactly when the table serves the frame. -/
theorem Enforces.grants_iff (enforces : Enforces terms ledger loop) (frame : AudioFrame)
    (nowNs : UInt64) :
    ledger.grants terms frame.hdr.sessionId ↔
      ∃ feed, loop.sessions.feedOf frame nowNs = some feed := by
  unfold Ledger.grants
  rw [enforces.holders, ← enforces.capacity]
  rcases enforces.ok.served_or_refused frame nowNs with ⟨feed, fed, -, room⟩ |
    ⟨refused, stranger, crowded⟩
  · exact ⟨fun _ => ⟨feed, fed⟩, fun _ => room⟩
  · constructor
    · rintro (caller | room)
      · exact absurd caller stranger
      · omega
    · rintro ⟨feed, fed⟩
      rw [refused] at fed
      cases fed

variable [Double D]

theorem nextSweepNs_serve (full : Nat → Bool) (options : LoopOptions) (loop : HotLoop D)
    (frame : AudioFrame) (nowNs : UInt64) :
    (loop.serve full options frame nowNs).nextSweepNs = loop.nextSweepNs := by
  cases fed : loop.sessions.feedOf frame nowNs with
  | none =>
      rw [HotLoop.serve_of_refused fed]
  | some feed =>
      rw [HotLoop.serve_of_fed fed, nextSweepNs_emitAll]

/-- A frame that is served makes no refusal. -/
theorem framesRefused_of_fed {frame : AudioFrame} {nowNs : UInt64} {feed : Feed D}
    (fed : loop.sessions.feedOf frame nowNs = some feed) :
    (loop.serve full options frame nowNs).metrics.framesRefused = loop.metrics.framesRefused := by
  have transport : (loop.metrics.observeTransport feed.frame feed.nowNs).framesRefused =
      loop.metrics.framesRefused := by
    unfold HotPathMetrics.observeTransport
    split <;> rfl
  have observed : (feed.observed options loop.metrics).framesRefused =
      loop.metrics.framesRefused := by
    unfold Feed.observed
    cases feed.closes with
    | none => exact transport
    | some event =>
        refine Eq.trans ?_ transport
        unfold HotPathMetrics.observeEndpoint
        dsimp only
        split <;> rfl
  obtain ⟨chunks, drops, metrics⟩ := HotLoop.metrics_emitAll full { loop with
    sessions := (loop.sessions.acquire frame.hdr.sessionId nowNs).1.modifySession
      feed.storage (Session.served frame nowNs)
    metrics := feed.observed options loop.metrics } feed.closes.toList
  rw [HotLoop.serve_of_fed fed, metrics]
  exact observed

theorem framesRefused_of_refused {frame : AudioFrame} {nowNs : UInt64}
    (refused : loop.sessions.feedOf frame nowNs = none) :
    (loop.serve full options frame nowNs).metrics.framesRefused =
      loop.metrics.framesRefused + 1 := by
  rw [HotLoop.serve_of_refused refused]
  unfold HotPathMetrics.observeTransport
  dsimp only
  split <;> rfl

/-- A frame served renews the lease of its call. -/
theorem Enforces.served (enforces : Enforces terms ledger loop) {frame : AudioFrame}
    {nowNs : UInt64} {feed : Feed D} (fed : loop.sessions.feedOf frame nowNs = some feed)
    (fedFor : SessionTable.FedFor loop.sessions frame nowNs feed) :
    Enforces terms (ledger.renew frame.hdr.sessionId nowNs.toNat)
      (loop.serve full options frame nowNs) := by
  have nextSweepNs := nextSweepNs_serve full options loop frame nowNs
  obtain ⟨servedId, servedActive, -⟩ := feed.session.served_keeps feed.frame feed.nowNs
  have isServed : feed.served.id = frame.hdr.sessionId := servedId.trans fedFor.id
  have isActive : feed.served.active = true := servedActive.trans fedFor.active
  have isStamped : feed.served.lastFrameNs = nowNs :=
    (Session.lastFrameNs_served _ _ _).trans fedFor.lastFrameNs
  have sessions : ∀ j : Nat, (loop.serve full options frame nowNs).sessions.sessions[j]? =
      if feed.storage = j then some feed.served else loop.sessions.sessions[j]? := by
    intro j
    rw [HotLoop.serve_of_fed fed, (HotLoop.emitAll_keeps _ _ _).1,
      SessionTable.sessions_served fed]
  refine ⟨?_, ?_, ?_, ?_, enforces.nextCheck.trans (congrArg _ nextSweepNs.symm)⟩
  · rw [HotLoop.serve_of_fed fed, (HotLoop.emitAll_keeps _ _ _).1]
    exact ((enforces.ok.acquire frame.hdr.sessionId nowNs).modifySession feed.storage
      (Session.served frame nowNs) (fun session => (session.served_keeps _ _).1)
      (fun session => (session.served_keeps _ _).2.1)).1
  · rw [HotLoop.serve_of_fed fed, (HotLoop.emitAll_keeps _ _ _).1]
    exact (loop.sessions.maxSessions_acquire _ _).trans enforces.capacity
  · change insert frame.hdr.sessionId ledger.holders = _
    rw [enforces.holders]
    ext id
    rw [Finset.mem_insert, SessionTable.mem_callers, SessionTable.mem_callers]
    constructor
    · rintro (rfl | ⟨i, session, here, active, rfl⟩)
      · exact ⟨feed.storage, feed.served, by rw [sessions, if_pos rfl], isActive, isServed⟩
      · by_cases same : feed.storage = i
        · exact ⟨i, feed.served, by rw [sessions, if_pos same], isActive,
            isServed.trans ((fedFor.owns i session here active).mp same).symm⟩
        · exact ⟨i, session, by rw [sessions, if_neg same, here], active, rfl⟩
    · rintro ⟨i, session, found, active, rfl⟩
      rw [sessions] at found
      split at found
      · cases found
        exact .inl isServed
      · exact .inr ⟨i, session, found, active, rfl⟩
  · intro i session found active
    change Function.update ledger.renewed frame.hdr.sessionId nowNs.toNat session.id = _
    rw [sessions] at found
    split at found
    · cases found
      rw [isServed, isStamped, Function.update_self]
    · rename_i elsewhere
      have other : session.id ≠ frame.hdr.sessionId := fun same =>
        elsewhere ((fedFor.owns i session found active).mpr same)
      rw [Function.update_of_ne other]
      exact enforces.renewed i session found active

/-- A frame refused leaves the leases as they are. -/
theorem Enforces.refused (enforces : Enforces terms ledger loop) {frame : AudioFrame}
    {nowNs : UInt64} (refused : loop.sessions.feedOf frame nowNs = none) :
    Enforces terms ledger (loop.serve full options frame nowNs) := by
  have ok := enforces.ok.acquire frame.hdr.sessionId nowNs
  have sessions := SessionTable.sessions_of_refused refused
  rw [HotLoop.serve_of_refused refused]
  refine ⟨ok, (loop.sessions.maxSessions_acquire _ _).trans enforces.capacity, ?_, ?_,
    enforces.nextCheck⟩
  · rw [enforces.holders]
    ext id
    rw [SessionTable.mem_callers, SessionTable.mem_callers, sessions]
  · rw [sessions]
    exact enforces.renewed

variable (full options) in
/-- Step lemma: a frame is a request of its call, and is refused when that is. -/
theorem Enforces.serve (enforces : Enforces terms ledger loop) (frame : AudioFrame)
    (nowNs : UInt64) :
    Enforces terms (ledger.step terms (.request frame.hdr.sessionId nowNs.toNat))
        (loop.serve full options frame nowNs) ∧
      (loop.serve full options frame nowNs).metrics.framesRefused =
        loop.metrics.framesRefused + UInt64.ofNat (ledger.refuses terms
          (.request frame.hdr.sessionId nowNs.toNat)).toNat := by
  have granted := enforces.grants_iff frame nowNs
  unfold Ledger.step Ledger.refuses
  dsimp only
  rcases enforces.ok.served_or_refused frame nowNs with ⟨feed, fed, fedFor, -⟩ | ⟨refused, -⟩
  · have grants := granted.mpr ⟨feed, fed⟩
    rw [if_pos grants, decide_eq_true grants, framesRefused_of_fed fed]
    exact ⟨enforces.served fed fedFor, (UInt64.add_zero _).symm⟩
  · have denied : ¬ ledger.grants terms frame.hdr.sessionId := by
      intro grants
      obtain ⟨feed, fed⟩ := granted.mp grants
      rw [refused] at fed
      cases fed
    rw [if_neg denied, decide_eq_false denied, framesRefused_of_refused refused]
    exact ⟨enforces.refused refused, rfl⟩

variable (full) in
/-- Step lemma: an iteration is a check, then a request of the call it pops. -/
theorem Enforces.iterate (enforces : Enforces (options.terms maxSessions) ledger loop)
    {past : List (Act UInt32)} {clock : Nat}
    (kept : ledger.Kept (options.terms maxSessions) past clock) {tick : Tick}
    (later : clock ≤ tick.loopNs.toNat)
    (unwrapped : tick.loopNs.toNat + sweepIntervalNs.toNat < 2 ^ 64) :
    ∃ next, loop.iterate full options tick = some next ∧
      Enforces (options.terms maxSessions) (ledger.run (options.terms maxSessions) tick.acts)
        next ∧
      next.metrics.framesRefused = loop.metrics.framesRefused +
        UInt64.ofNat (ledger.refusals (options.terms maxSessions) tick.acts) := by
  obtain ⟨swept, returned, held⟩ := enforces.sweep full kept later unwrapped
  obtain ⟨chunks, drops, metrics⟩ := HotLoop.metrics_sweep returned
  have refused : swept.metrics.framesRefused = loop.metrics.framesRefused := by rw [metrics]
  cases popped : tick.popped with
  | none =>
      have acts : tick.acts = [.check tick.loopNs.toNat] := by rw [Tick.acts, popped]; rfl
      refine ⟨swept, by rw [HotLoop.iterate, returned, Option.map_some, popped], ?_, ?_⟩
      · rw [acts]
        exact held
      · rw [acts, refused]
        exact (UInt64.add_zero _).symm
  | some frame =>
      have acts : tick.acts = [.check tick.loopNs.toNat,
          .request frame.hdr.sessionId tick.dequeueNs.toNat] := by rw [Tick.acts, popped]; rfl
      obtain ⟨served, counted⟩ := held.serve full options frame tick.dequeueNs
      refine ⟨swept.serve full options frame tick.dequeueNs,
        by rw [HotLoop.iterate, returned, Option.map_some, popped], ?_, ?_⟩
      · rw [acts]
        exact served
      · rw [acts, counted, refused]
        change _ = _ + UInt64.ofNat (0 + (_ + 0))
        rw [Nat.zero_add, Nat.add_zero]
        rfl

variable (full) in
/-- Run lemma: the hot loop enforces the leases. -/
theorem Enforces.iterateAll (enforces : Enforces (options.terms maxSessions) ledger loop)
    {past : List (Act UInt32)} {clock : Nat}
    (kept : ledger.Kept (options.terms maxSessions) past clock) {ticks : List Tick}
    (ordered : (clock :: (Tick.allActs ticks).map Act.time).Pairwise (· ≤ ·))
    (unwrapped : ∀ time ∈ (Tick.allActs ticks).map Act.time,
      time + sweepIntervalNs.toNat < 2 ^ 64) :
    ∃ final, HotLoop.iterateAll full options loop ticks = some final ∧
      Enforces (options.terms maxSessions)
        (ledger.run (options.terms maxSessions) (Tick.allActs ticks)) final ∧
      final.metrics.framesRefused = loop.metrics.framesRefused +
        UInt64.ofNat (ledger.refusals (options.terms maxSessions) (Tick.allActs ticks)) := by
  induction ticks generalizing loop ledger past clock with
  | nil => exact ⟨loop, rfl, enforces, (UInt64.add_zero _).symm⟩
  | cons tick rest ih =>
      have split : Tick.allActs (tick :: rest) = tick.acts ++ Tick.allActs rest := rfl
      rw [split, List.map_append] at ordered unwrapped
      rw [← List.cons_append] at ordered
      obtain ⟨now, later, across⟩ := List.pairwise_append.mp ordered
      have first : tick.loopNs.toNat ∈ tick.acts.map Act.time := List.mem_cons_self ..
      obtain ⟨next, stepped, held, refused⟩ := enforces.iterate full kept
        (List.rel_of_pairwise_cons now first) (unwrapped _ (List.mem_append_left _ first))
      obtain ⟨last, least, renewed⟩ := kept.run now
      have rest' : (last :: (Tick.allActs rest).map Act.time).Pairwise (· ≤ ·) :=
        List.pairwise_cons.mpr ⟨fun time listed => least time fun earlier early =>
          across earlier early time listed, later⟩
      obtain ⟨final, ran, ends, counted⟩ := ih held renewed rest'
        fun time listed => unwrapped time (List.mem_append_right _ listed)
      refine ⟨final, by rw [HotLoop.iterateAll, stepped, Option.bind_some, ran], ?_, ?_⟩
      · rw [split, Ledger.run_append]
        exact ends
      · rw [counted, refused, split, Ledger.refusals_append, UInt64.ofNat_add, UInt64.add_assoc]

end

section

variable {D : Type} [Double D] {maxSessions : Nat} {config : ChunkerConfig D}
  {full : Nat → Bool} {options : LoopOptions} {startNs : UInt64} {ticks : List Tick}

/-- A fresh table enforces the leases of nobody. -/
theorem Enforces.start (small : maxSessions ≤ kTombstone) (early : startNs.toNat +
    sweepIntervalNs.toNat < 2 ^ 64) :
    Enforces (options.terms maxSessions) (firstLedger startNs)
      (HotLoop.start maxSessions config startNs) := by
  refine ⟨.make_clamped small config, ?_, ?_, ?_, ?_⟩
  · change (if maxSessions = 0 then 1 else maxSessions) = max maxSessions 1
    split <;> omega
  · change ∅ = Finset.image _ (SessionTable.make maxSessions config).openStorage
    rw [SessionTable.openStorage_make]
    rfl
  · intro i session here active
    rw [SessionTable.inactive_of_make here] at active
    cases active
  · change startNs.toNat + sweepIntervalNs.toNat = (startNs + sweepIntervalNs).toNat
    rw [UInt64.toNat_add, Nat.mod_eq_of_lt early]

variable (config full options) in
/-- Every run from the start enforces the leases. -/
theorem enforces_run (small : maxSessions ≤ kTombstone) (steady : Steady startNs ticks) :
    ∃ loop, HotLoop.iterateAll full options (HotLoop.start maxSessions config startNs) ticks =
        some loop ∧
      Enforces (options.terms maxSessions)
        ((firstLedger startNs).run (options.terms maxSessions) (Tick.allActs ticks)) loop ∧
      loop.metrics.framesRefused = UInt64.ofNat
        ((firstLedger startNs).refusals (options.terms maxSessions) (Tick.allActs ticks)) := by
  have kept : (firstLedger startNs).Kept (options.terms maxSessions) [] startNs.toNat :=
    .initial startNs.toNat
  have begins : Enforces (options.terms maxSessions) (firstLedger startNs)
      (HotLoop.start maxSessions config startNs) :=
    .start small (steady.unwrapped _ (List.mem_cons_self ..))
  obtain ⟨loop, ran, enforces, refused⟩ := begins.iterateAll full kept steady.ordered
    fun time listed => steady.unwrapped time (List.mem_cons_of_mem _ listed)
  exact ⟨loop, ran, enforces, refused.trans (UInt64.zero_add _)⟩

/-- What the hot loop does about admission is what the leases say: after every run the
calls with a session are the holders, each session was last stamped when its lease was
renewed, and as many frames have been refused as requests. -/
theorem HotLoop.enforces_leases (small : maxSessions ≤ kTombstone)
    (steady : Steady startNs ticks) :
    ∃ loop ledger, iterateAll full options (start maxSessions config startNs) ticks = some loop ∧
      ledger = (firstLedger startNs).run (options.terms maxSessions) (Tick.allActs ticks) ∧
      (∀ id, id ∈ ledger.holders ↔
        ∃ session ∈ loop.sessions.sessions, session.active = true ∧ session.id = id) ∧
      (∀ session ∈ loop.sessions.sessions, session.active = true →
        session.lastFrameNs.toNat = ledger.renewed session.id) ∧
      loop.sessions.live = ledger.holders.card ∧
      loop.nextSweepNs.toNat = ledger.nextCheck ∧
      loop.metrics.framesRefused = UInt64.ofNat
        ((firstLedger startNs).refusals (options.terms maxSessions) (Tick.allActs ticks)) := by
  obtain ⟨loop, ran, enforces, refused⟩ := enforces_run config full options small steady
  refine ⟨loop, _, ran, rfl, ?_, ?_, ?_, enforces.nextCheck.symm, refused⟩
  · intro id
    rw [enforces.holders, SessionTable.mem_callers]
    constructor
    · rintro ⟨i, session, here, active, same⟩
      exact ⟨session, List.mem_of_getElem? here, active, same⟩
    · rintro ⟨session, member, active, same⟩
      obtain ⟨i, here⟩ := List.mem_iff_getElem?.mp member
      exact ⟨i, session, here, active, same⟩
  · intro session member active
    obtain ⟨i, here⟩ := List.mem_iff_getElem?.mp member
    exact (enforces.renewed i session here active).symm
  · rw [enforces.ok.live, ← enforces.ok.card_callers, enforces.holders]

/-- A call was heard when a lease was renewed for it. -/
theorem heard_of_act {id : UInt32} {time : Nat}
    (heard : Act.request id time ∈ Tick.allActs ticks) :
    ∃ tick ∈ ticks, ∃ frame, tick.popped = some frame ∧ frame.hdr.sessionId = id ∧
      tick.dequeueNs.toNat = time := by
  obtain ⟨tick, member, act⟩ := List.mem_flatMap.mp heard
  refine ⟨tick, member, ?_⟩
  rw [Tick.acts] at act
  cases popped : tick.popped with
  | none =>
      rw [popped] at act
      simp at act
  | some frame =>
      rw [popped] at act
      simp only [Option.map_some, Option.toList_some, List.mem_cons, List.not_mem_nil, or_false,
        reduceCtorEq, false_or, Act.request.injEq] at act
      exact ⟨frame, rfl, act.1.symm, act.2.symm⟩

/-- No slot is held by a ghost: once an iteration has swept, every open session belongs
to a call that was heard within the idle time and one sweep interval.  So a frame is
refused only when as many other calls were heard within that time as there are sessions. -/
theorem HotLoop.refused_only_when_busy (small : maxSessions ≤ kTombstone) {tick : Tick}
    (steady : Steady startNs (ticks ++ [tick])) {loop swept : HotLoop D}
    (ran : iterateAll full options (start maxSessions config startNs) ticks = some loop)
    (returned : loop.sweep full options tick.loopNs = some swept) :
    (∀ session ∈ swept.sessions.sessions, session.active = true →
      ∃ earlier ∈ ticks, ∃ frame, earlier.popped = some frame ∧
        frame.hdr.sessionId = session.id ∧
        tick.loopNs.toNat <
          earlier.dequeueNs.toNat + options.idleNs.toNat + sweepIntervalNs.toNat) ∧
    ∀ frame, tick.popped = some frame →
      (swept.serve full options frame tick.dequeueNs).metrics.framesRefused ≠
        swept.metrics.framesRefused →
      ∃ calls : Finset UInt32, calls.card = max maxSessions 1 ∧ frame.hdr.sessionId ∉ calls ∧
        ∀ id ∈ calls, ∃ earlier ∈ ticks, ∃ other, earlier.popped = some other ∧
          other.hdr.sessionId = id ∧
          tick.loopNs.toNat <
            earlier.dequeueNs.toNat + options.idleNs.toNat + sweepIntervalNs.toNat := by
  obtain ⟨loop', ran', enforces, -⟩ := enforces_run config full options small steady.append_left
  obtain rfl : loop = loop' := Option.some.inj (ran.symm.trans ran')
  have begun : (firstLedger startNs).Kept (options.terms maxSessions) [] startNs.toNat :=
    .initial startNs.toNat
  obtain ⟨last, least, kept⟩ := begun.run steady.append_left.ordered
  obtain ⟨swept', returned', held⟩ := enforces.sweep full kept
    (least _ steady.before) steady.wrapsLater
  obtain rfl : swept = swept' := Option.some.inj (returned.symm.trans returned')
  have recent : ∀ id ∈ swept.sessions.callers, ∃ earlier ∈ ticks, ∃ frame,
      earlier.popped = some frame ∧ frame.hdr.sessionId = id ∧
      tick.loopNs.toNat <
        earlier.dequeueNs.toNat + options.idleNs.toNat + sweepIntervalNs.toNat := by
    intro id caller
    rw [← held.holders] at caller
    obtain ⟨time, heard, young⟩ := kept.recent caller
    obtain ⟨earlier, member, frame, popped, same, rfl⟩ := heard_of_act heard
    exact ⟨earlier, member, frame, popped, same, young⟩
  refine ⟨fun session member active => ?_, fun frame popped refused => ?_⟩
  · obtain ⟨i, here⟩ := List.mem_iff_getElem?.mp member
    exact recent session.id (SessionTable.mem_callers.mpr ⟨i, session, here, active, rfl⟩)
  · rcases held.ok.served_or_refused frame tick.dequeueNs with ⟨feed, fed, -⟩ |
      ⟨-, stranger, crowded⟩
    · exact absurd (framesRefused_of_fed fed) refused
    · exact ⟨swept.sessions.callers, crowded.trans held.capacity, stranger, recent⟩

end

section

open Scenario

/-- The second call finds the only session taken, until a sweep has closed it. -/
def crowdedTicks : List Tick :=
  [tick 10000000 7 0, tick 15000000 9 0, tick 30000000 7 1, tick 260000000 9 1]

theorem enforces_leases_crowded :
    ∃ loop ledger, HotLoop.iterateAll (fun _ => false) ⟨20000000, 100000000⟩
        (HotLoop.start 1 shortConfig 0) crowdedTicks = some loop ∧
      ledger = (firstLedger 0).run (LoopOptions.terms ⟨20000000, 100000000⟩ 1)
        (Tick.allActs crowdedTicks) ∧
      (∀ id, id ∈ ledger.holders ↔
        ∃ session ∈ loop.sessions.sessions, session.active = true ∧ session.id = id) ∧
      (∀ session ∈ loop.sessions.sessions, session.active = true →
        session.lastFrameNs.toNat = ledger.renewed session.id) ∧
      loop.sessions.live = ledger.holders.card ∧
      loop.nextSweepNs.toNat = ledger.nextCheck ∧
      loop.metrics.framesRefused = UInt64.ofNat ((firstLedger 0).refusals
        (LoopOptions.terms ⟨20000000, 100000000⟩ 1) (Tick.allActs crowdedTicks)) ∧
      ledger.holders = {9} ∧ ledger.nextCheck = 510000000 ∧
      (firstLedger 0).refusals (LoopOptions.terms ⟨20000000, 100000000⟩ 1)
        (Tick.allActs crowdedTicks) = 1 := by
  obtain ⟨loop, ledger, ran, rfl, callers, stamps, live, sweeps, refused⟩ :=
    @HotLoop.enforces_leases ℚ _ 1 shortConfig (fun _ => false) ⟨20000000, 100000000⟩ 0 crowdedTicks
      (by decide) ⟨by decide, by decide⟩
  exact ⟨loop, _, ran, rfl, callers, stamps, live, sweeps, refused, by decide +kernel,
    by decide +kernel, by decide +kernel⟩

theorem refused_only_when_busy_crowded :
    ∃ loop swept, HotLoop.iterateAll (fun _ => false) ⟨20000000, 100000000⟩
        (HotLoop.start 1 shortConfig 0) [tick 10000000 7 0] = some loop ∧
      loop.sweep (fun _ => false) ⟨20000000, 100000000⟩ 15000000 = some swept ∧
      ∃ calls : Finset UInt32, calls.card = 1 ∧ 9 ∉ calls ∧
        ∀ id ∈ calls, ∃ earlier ∈ [tick 10000000 7 0], ∃ other, earlier.popped = some other ∧
          other.hdr.sessionId = id ∧
          15000000 < earlier.dequeueNs.toNat + 100000000 + sweepIntervalNs.toNat := by
  have returned : ((HotLoop.iterateAll (fun _ => false) ⟨20000000, 100000000⟩
      (HotLoop.start 1 shortConfig 0) [tick 10000000 7 0]).any fun loop =>
        (loop.sweep (fun _ => false) ⟨20000000, 100000000⟩ 15000000).any fun swept =>
          (swept.serve (fun _ => false) ⟨20000000, 100000000⟩
              { toneFrame 0 with hdr := { (toneFrame 0).hdr with sessionId := 9 } }
              15000000).metrics.framesRefused != swept.metrics.framesRefused) = true := by
    decide +kernel
  obtain ⟨loop, ran, later⟩ := (Option.any_eq_true _ _).mp returned
  obtain ⟨swept, same, refused⟩ := (Option.any_eq_true _ _).mp later
  have steady : Steady 0 ([tick 10000000 7 0] ++ [tick 15000000 9 0]) :=
    ⟨by decide, by decide⟩
  exact ⟨loop, swept, ran, same, (HotLoop.refused_only_when_busy (by decide) steady ran
    same).2 _ rfl (bne_iff_ne.mp refused)⟩

end

end VoiceHotPath
