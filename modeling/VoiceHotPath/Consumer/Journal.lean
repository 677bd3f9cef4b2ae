import VoiceHotPath.Consumer.HotLoop
import VoiceHotPath.Session.Isolation
import VoiceHotPath.Vad.Partition

/-!
# The frames a session has received

An iteration feeds at most one frame to one session.  The journal of a run holds,
for each storage slot, the frames received since its present session was opened.
What opening, serving and closing preserve of a session and its frames holds of
every session in every run.
-/

namespace VoiceHotPath

open ChunkAssembler

/-- A frame that reaches a session: the storage, whether the frame opens the session
there, and the session as `acquire` returns it. -/
structure Feed (D : Type) where
  storage : Nat
  opens : Bool
  session : Session D
  frame : AudioFrame
  nowNs : UInt64

/-- For each storage slot, the frames of its session with their dequeue times. -/
abbrev Journal := Nat → Stream

namespace Feed

variable {D : Type}

/-- The journal with the frame noted. -/
def noted (feed : Feed D) (journal : Journal) : Journal :=
  Function.update journal feed.storage
    ((if feed.opens then [] else journal feed.storage) ++ [(feed.frame, feed.nowNs)])

variable [Double D]

/-- The session after the iteration. -/
def served (feed : Feed D) : Session D :=
  feed.session.served feed.frame feed.nowNs

/-- What `on_frame` returns, under the id of the session. -/
def closes (feed : Feed D) : Option ChunkEvent :=
  (feed.session.assembler.onFrame feed.frame feed.nowNs).2.map fun event =>
    { event with sessionId := feed.session.id }

/-- The metrics of the iteration, its events apart. -/
def observed (options : LoopOptions) (metrics : HotPathMetrics) (feed : Feed D) :
    HotPathMetrics :=
  let metrics := (metrics.observeTransport feed.frame feed.nowNs).observeArrival
    options.nominalNs feed.frame feed.nowNs feed.session
  match feed.closes with
  | none => metrics
  | some event => metrics.observeEndpoint event feed.served

end Feed

namespace SessionTable

variable {D : Type} {table : SessionTable D}

/-- The session a frame is fed to; nothing if the frame is refused. -/
def feedOf (table : SessionTable D) (frame : AudioFrame) (nowNs : UInt64) : Option (Feed D) :=
  let (next, found) := table.acquire frame.hdr.sessionId nowNs
  found.bind fun i => next.sessions[i]?.map fun session =>
    { storage := i
      opens := !table.serves frame.hdr.sessionId i
      session := session
      frame := frame
      nowNs := nowNs }

/-- Refused, fed to the session that serves the call, or fed to one opened for it. -/
theorem feedOf_cases (table : SessionTable D) (frame : AudioFrame) (nowNs : UInt64) :
    (table.feedOf frame nowNs = none ∧
      (table.acquire frame.hdr.sessionId nowNs).1.sessions = table.sessions) ∨
    (∃ i session, table.sessions[i]? = some session ∧ session.active = true ∧
      table.feedOf frame nowNs = some ⟨i, false, session.stamp nowNs, frame, nowNs⟩ ∧
      (table.acquire frame.hdr.sessionId nowNs).1.sessions =
        table.sessions.modify i (Session.stamp nowNs)) ∨
    ∃ i session opens, table.sessions[i]? = some session ∧ i ∈ table.freeList ∧
      opens = (!table.serves frame.hdr.sessionId i) ∧
      table.feedOf frame nowNs =
        some ⟨i, opens, session.openFor frame.hdr.sessionId nowNs, frame, nowNs⟩ ∧
      (table.acquire frame.hdr.sessionId nowNs).1.sessions =
        table.sessions.modify i (Session.openFor frame.hdr.sessionId nowNs) := by
  unfold feedOf
  rcases table.acquire_cases frame.hdr.sessionId nowNs with
    ⟨i, serving, same⟩ | same | ⟨p, i, rest, free, same⟩
  · obtain ⟨session, here, active⟩ := (Option.any_eq_true _ _).mp serving
    rw [same]
    refine .inr (.inl ⟨i, session, here, (Bool.and_eq_true_iff.mp active).1, ?_, rfl⟩)
    simp [modifySession, here, serving]
  · rw [same]
    exact .inl ⟨rfl, rfl⟩
  · have edited : (table.openSession frame.hdr.sessionId nowNs p i rest).sessions =
        table.sessions.modify i (Session.openFor frame.hdr.sessionId nowNs) := rfl
    rw [same]
    cases here : table.sessions[i]? with
    | none =>
        refine .inl ⟨?_, ?_⟩
        · simp [edited, here]
        · rw [edited]
          exact List.modify_eq_self (List.getElem?_eq_none_iff.mp here)
    | some session =>
        refine .inr (.inr ⟨i, session, _, here, ?_, rfl, ?_, edited⟩)
        · rw [free]
          exact List.mem_cons_self ..
        · simp [edited, here]

/-- The three outcomes of a frame, under the invariant of the table. -/
theorem Ok.feedOf_cases (ok : table.Ok) (frame : AudioFrame) (nowNs : UInt64) :
    (∃ i session, table.sessions[i]? = some session ∧ session.active = true ∧
      session.id = frame.hdr.sessionId ∧
      table.feedOf frame nowNs = some ⟨i, false, session.stamp nowNs, frame, nowNs⟩) ∨
    ((∀ i ∈ table.openStorage, table.idAt i ≠ frame.hdr.sessionId) ∧
      table.openStorage.card = table.maxSessions ∧ table.feedOf frame nowNs = none) ∨
    ((∀ i ∈ table.openStorage, table.idAt i ≠ frame.hdr.sessionId) ∧
      ∃ i session, table.sessions[i]? = some session ∧ session.active = false ∧
      table.feedOf frame nowNs =
        some ⟨i, true, session.openFor frame.hdr.sessionId nowNs, frame, nowNs⟩) := by
  rcases ok.acquire_cases frame.hdr.sessionId nowNs with
    ⟨i, opened, served, same⟩ | ⟨unserved, crowded, same⟩ | ⟨unserved, -, p, i, rest, free, -, same⟩
  · obtain ⟨session, here, active⟩ := mem_openStorage.mp opened
    have serving := serves_eq_true.mpr ⟨opened, served⟩
    rw [idAt_of_getElem? here] at served
    refine .inl ⟨i, session, here, active, served, ?_⟩
    have edited : (table.modifySession i (Session.stamp nowNs)).sessions =
        table.sessions.modify i (Session.stamp nowNs) := rfl
    rw [feedOf, same]
    simp [edited, here, serving]
  · refine .inr (.inl ⟨unserved, crowded, ?_⟩)
    rw [feedOf, same]
    rfl
  · obtain ⟨inside, closed⟩ := (ok.free i).mp (by rw [free]; exact List.mem_cons_self ..)
    rw [← ok.sessionsLength] at inside
    have here := List.getElem?_eq_getElem inside
    have inactive : table.sessions[i].active = false := by
      cases active : table.sessions[i].active with
      | false => rfl
      | true => exact absurd (mem_openStorage.mpr ⟨_, here, active⟩) closed
    have idle : table.serves frame.hdr.sessionId i = false := by
      rw [serves, here, Option.any_some, inactive]
      rfl
    have edited : (table.openSession frame.hdr.sessionId nowNs p i rest).sessions =
        table.sessions.modify i (Session.openFor frame.hdr.sessionId nowNs) := rfl
    refine .inr (.inr ⟨unserved, i, _, here, inactive, ?_⟩)
    rw [feedOf, same]
    simp [edited, here, idle]

/-- A refused frame leaves the sessions as they are. -/
theorem sessions_of_refused {frame : AudioFrame} {nowNs : UInt64}
    (refused : table.feedOf frame nowNs = none) :
    (table.acquire frame.hdr.sessionId nowNs).1.sessions = table.sessions := by
  rcases table.feedOf_cases frame nowNs with ⟨-, same⟩ | ⟨i, session, -, -, fed, -⟩ |
    ⟨i, session, opens, -, -, -, fed, -⟩
  · exact same
  · rw [refused] at fed
    cases fed
  · rw [refused] at fed
    cases fed

/-- The session fed is the one `acquire` returns. -/
theorem feedOf_eq_some {frame : AudioFrame} {nowNs : UInt64} {feed : Feed D}
    (fed : table.feedOf frame nowNs = some feed) : feed.frame = frame ∧ feed.nowNs = nowNs ∧
      (table.acquire frame.hdr.sessionId nowNs).1.sessions[feed.storage]? = some feed.session := by
  obtain ⟨i, -, there⟩ := Option.bind_eq_some_iff.mp fed
  obtain ⟨session, here, rfl⟩ := Option.map_eq_some_iff.mp there
  exact ⟨rfl, rfl, here⟩

/-- After a sweep, a session is what it was, or it is closed. -/
theorem swept_cases {due : Session D → Bool} {nowNs : UInt64} {next : SessionTable D}
    {tails : List ChunkEvent} (returned : sweepAll due table nowNs = some (next, tails)) {i : Nat}
    {session' : Session D} (found : next.sessions[i]? = some session') :
    ∃ session, table.sessions[i]? = some session ∧
      (session' = session ∨ session.active = true ∧ session' = session.closed nowNs) := by
  rw [(leaves_of_sweepAll returned).sessions] at found
  obtain ⟨session, here, rfl⟩ := Option.map_eq_some_iff.mp found
  refine ⟨session, here, ?_⟩
  split
  · cases isDue : session.active && due session with
    | false => exact .inl (Session.swept_of_not_due isDue nowNs)
    | true => exact .inr ⟨(Bool.and_eq_true_iff.mp isDue).1, Session.swept_of_due isDue nowNs⟩
  · exact .inl rfl

/-- A frame is fed to the session that serves its call, or to one it opens. -/
theorem Pooled.fed_cases [Double D] {config : ChunkerConfig D} (pooled : Pooled config table)
    {frame : AudioFrame} {nowNs : UInt64} {feed : Feed D}
    (fed : table.feedOf frame nowNs = some feed) :
    ∃ session, table.sessions[feed.storage]? = some session ∧
      ((feed.opens = false ∧ session.active = true ∧ session.id = frame.hdr.sessionId ∧
          feed.session = session.stamp nowNs) ∨
        (feed.opens = true ∧ session.active = false ∧
          feed.session = session.openFor frame.hdr.sessionId nowNs)) := by
  unfold feedOf at fed
  rcases table.acquire_cases frame.hdr.sessionId nowNs with
    ⟨i, serving, same⟩ | same | ⟨p, i, rest, free, same⟩
  · obtain ⟨session, here, serves⟩ := (Option.any_eq_true _ _).mp serving
    obtain ⟨active, id⟩ := Bool.and_eq_true_iff.mp serves
    have edited : (table.modifySession i (Session.stamp nowNs)).sessions[i]? =
        some (session.stamp nowNs) := by
      rw [SessionTable.modifySession, List.getElem?_modify, here]
      simp
    rw [same] at fed
    simp only [Option.bind_some, edited, Option.map_some, serving] at fed
    cases fed
    exact ⟨session, here, .inl ⟨rfl, active, beq_iff_eq.mp id, rfl⟩⟩
  · rw [same] at fed
    cases fed
  · have edited : (table.openSession frame.hdr.sessionId nowNs p i rest).sessions =
        table.sessions.modify i (Session.openFor frame.hdr.sessionId nowNs) := rfl
    have inactive := pooled.free i (by rw [free]; exact List.mem_cons_self ..)
    rw [same] at fed
    cases here : table.sessions[i]? with
    | none => simp [edited, here] at fed
    | some session =>
        rw [activeAt, here, Option.any_some] at inactive
        have unserved : table.serves frame.hdr.sessionId i = false := by
          rw [serves, here, Option.any_some, inactive]
          rfl
        have opened : (table.openSession frame.hdr.sessionId nowNs p i rest).sessions[i]? =
            some (session.openFor frame.hdr.sessionId nowNs) := by
          rw [edited, List.getElem?_modify, here]
          simp
        simp only [Option.bind_some, opened, Option.map_some, unserved] at fed
        cases fed
        exact ⟨session, here, .inr ⟨rfl, inactive, rfl⟩⟩

/-- A fed frame changes the session it reaches, and no other. -/
theorem sessions_served [Double D] {frame : AudioFrame} {nowNs : UInt64} {feed : Feed D}
    (fed : table.feedOf frame nowNs = some feed) (j : Nat) :
    ((table.acquire frame.hdr.sessionId nowNs).1.modifySession feed.storage
      (Session.served frame nowNs)).sessions[j]? =
      if feed.storage = j then some feed.served else table.sessions[j]? := by
  rcases table.feedOf_cases frame nowNs with ⟨refused, -⟩ | ⟨i, session, here, -, same, edited⟩ |
    ⟨i, session, opens, here, -, -, same, edited⟩
  · rw [refused] at fed
    cases fed
  · rw [same] at fed
    cases fed
    rw [modifySession, edited, List.getElem?_modify, List.getElem?_modify]
    split
    · rename_i at_i
      subst at_i
      rw [here]
      rfl
    · cases table.sessions[j]? <;> rfl
  · rw [same] at fed
    cases fed
    rw [modifySession, edited, List.getElem?_modify, List.getElem?_modify]
    split
    · rename_i at_i
      subst at_i
      rw [here]
      rfl
    · cases table.sessions[j]? <;> rfl

end SessionTable

namespace HotLoop

section

variable {D : Type} [Double D] {full : Nat → Bool} {options : LoopOptions} {loop : HotLoop D}

/-- Serving a refused frame. -/
theorem serve_of_refused {frame : AudioFrame} {nowNs : UInt64}
    (refused : loop.sessions.feedOf frame nowNs = none) :
    loop.serve full options frame nowNs =
      { loop with
        sessions := (loop.sessions.acquire frame.hdr.sessionId nowNs).1
        metrics := { loop.metrics.observeTransport frame nowNs with
          framesRefused := (loop.metrics.observeTransport frame nowNs).framesRefused + 1 } } := by
  unfold SessionTable.feedOf at refused
  unfold serve
  cases outcome : loop.sessions.acquire frame.hdr.sessionId nowNs with
  | mk next found =>
      rw [outcome] at refused
      cases found with
      | none => rfl
      | some i =>
          have absent : next.sessions[i]? = none := Option.map_eq_none_iff.mp refused
          simp [absent]

/-- Serving a frame that reaches a session. -/
theorem serve_of_fed {frame : AudioFrame} {nowNs : UInt64} {feed : Feed D}
    (fed : loop.sessions.feedOf frame nowNs = some feed) :
    loop.serve full options frame nowNs =
      emitAll full
        { loop with
          sessions := (loop.sessions.acquire frame.hdr.sessionId nowNs).1.modifySession
            feed.storage (Session.served frame nowNs)
          metrics := feed.observed options loop.metrics }
        feed.closes.toList := by
  unfold SessionTable.feedOf at fed
  unfold serve
  cases outcome : loop.sessions.acquire frame.hdr.sessionId nowNs with
  | mk next found =>
      rw [outcome] at fed
      obtain ⟨i, rfl, there⟩ := Option.bind_eq_some_iff.mp fed
      obtain ⟨session, here, rfl⟩ := Option.map_eq_some_iff.mp there
      have step : (some i).bind (fun index => next.sessions[index]?.map fun session =>
          (index, session)) = some (i, session) := by
        rw [Option.bind_some, here]
        rfl
      simp only [step, Feed.observed, Feed.closes, Feed.served]
      cases (session.assembler.onFrame frame nowNs).2 <;> rfl

/-- The frame an iteration feeds to a session. -/
def feed (full : Nat → Bool) (options : LoopOptions) (loop : HotLoop D) (tick : Tick) :
    Option (Feed D) :=
  (loop.sweep full options tick.loopNs).bind fun swept => tick.popped.bind fun frame =>
    swept.sessions.feedOf frame tick.dequeueNs

/-- The frames a run feeds to sessions. -/
def feeds (full : Nat → Bool) (options : LoopOptions) : HotLoop D → List Tick → List (Feed D)
  | _, [] => []
  | loop, tick :: ticks =>
      (loop.feed full options tick).toList ++
        (loop.iterate full options tick).elim [] fun next => feeds full options next ticks

variable {next : HotLoop D} {tick : Tick} {feed : Feed D}

/-- What an iteration that feeds a frame leaves, once the sweep is done. -/
theorem iterate_of_fed (stepped : loop.iterate full options tick = some next)
    (fed : loop.feed full options tick = some feed) :
    ∃ swept, loop.sweep full options tick.loopNs = some swept ∧
      swept.sessions.feedOf feed.frame feed.nowNs = some feed ∧
      next = emitAll full
        { swept with
          sessions := (swept.sessions.acquire feed.frame.hdr.sessionId feed.nowNs).1.modifySession
            feed.storage (Session.served feed.frame feed.nowNs)
          metrics := feed.observed options swept.metrics }
        feed.closes.toList := by
  obtain ⟨swept, returned, ⟨popped, -⟩ | ⟨frame, popped, rfl⟩⟩ := iterate_cases stepped
  · rw [HotLoop.feed, returned, popped] at fed
    cases fed
  · rw [HotLoop.feed, returned, popped] at fed
    have there : swept.sessions.feedOf frame tick.dequeueNs = some feed := fed
    obtain ⟨sameFrame, sameNs, -⟩ := SessionTable.feedOf_eq_some there
    rw [sameFrame, sameNs]
    exact ⟨swept, returned, there, serve_of_fed there⟩

/-- The session an iteration has fed is in its storage afterwards. -/
theorem session_iterate (stepped : loop.iterate full options tick = some next)
    (fed : loop.feed full options tick = some feed) :
    next.sessions.sessions[feed.storage]? = some feed.served := by
  obtain ⟨swept, -, there, rfl⟩ := iterate_of_fed stepped fed
  rw [(emitAll_keeps _ _ _).1, SessionTable.sessions_served there, if_pos rfl]

/-- The journal after an iteration. -/
def note (full : Nat → Bool) (options : LoopOptions) (loop : HotLoop D) (journal : Journal)
    (tick : Tick) : Journal :=
  (loop.feed full options tick).elim journal fun feed => feed.noted journal

/-- The journal of a run. -/
def heard (full : Nat → Bool) (options : LoopOptions) :
    HotLoop D → Journal → List Tick → Journal
  | _, journal, [] => journal
  | loop, journal, tick :: ticks =>
      (loop.iterate full options tick).elim journal fun next =>
        heard full options next (loop.note full options journal tick) ticks

end

end HotLoop

/-! ## Invariants of a session and the frames it has received -/

/-- What opening, serving and closing preserve. -/
structure SessionInvariant {D : Type} [Double D] (config : ChunkerConfig D) where
  opened : Stream → Session D → Prop
  idle : Session D → Prop
  fresh : idle (Session.make config)
  openFor : ∀ session id nowNs, idle session → opened [] (session.openFor id nowNs)
  stamp : ∀ heard session nowNs, opened heard session → opened heard (session.stamp nowNs)
  served : ∀ heard session frame nowNs, opened heard session →
    opened (heard ++ [(frame, nowNs)]) (session.served frame nowNs)
  closed : ∀ heard session nowNs, opened heard session → idle (session.closed nowNs)

section

variable {D : Type} [Double D] {config : ChunkerConfig D} (invariant : SessionInvariant config)

/-- The invariant holds of every session of a table. -/
structure Journaled (table : SessionTable D) (journal : Journal) : Prop where
  pooled : SessionTable.Pooled config table
  opened : ∀ (i : Nat) session, table.sessions[i]? = some session → session.active = true →
    invariant.opened (journal i) session
  idle : ∀ (i : Nat) session, table.sessions[i]? = some session → session.active = false →
    invariant.idle session

theorem Journaled.make (maxSessions : Nat) :
    Journaled invariant (SessionTable.make maxSessions config) fun _ => [] := by
  refine ⟨.make maxSessions config, fun i session here active => ?_, fun i session here _ => ?_⟩
  · rw [SessionTable.inactive_of_make here] at active
    cases active
  · rw [SessionTable.eq_make_of_getElem? here]
    exact invariant.fresh

variable {invariant} {table : SessionTable D} {journal : Journal}

/-- A sweep with its rebuild keeps the invariant; the journal is not touched. -/
theorem Journaled.sweepAll (journaled : Journaled invariant table journal)
    {due : Session D → Bool} {nowNs : UInt64} {next : SessionTable D} {tails : List ChunkEvent}
    (returned : SessionTable.sweepAll due table nowNs = some (next, tails)) :
    Journaled invariant next journal := by
  refine ⟨journaled.pooled.sweepAll returned, fun i session' found active => ?_,
    fun i session' found inactive => ?_⟩
  · obtain ⟨session, here, rfl | ⟨-, rfl⟩⟩ := SessionTable.swept_cases returned found
    · exact journaled.opened i _ here active
    · cases active
  · obtain ⟨session, here, rfl | ⟨active, rfl⟩⟩ := SessionTable.swept_cases returned found
    · exact journaled.idle i _ here inactive
    · exact invariant.closed _ _ _ (journaled.opened i session here active)

/-- What holds of the session a frame is fed to, before the frame. -/
theorem Journaled.fed (journaled : Journaled invariant table journal) {frame : AudioFrame}
    {nowNs : UInt64} {feed : Feed D} (fed : table.feedOf frame nowNs = some feed) :
    feed.session.active = true ∧
      invariant.opened (if feed.opens then [] else journal feed.storage) feed.session := by
  obtain ⟨session, here, ⟨found, active, -, same⟩ | ⟨opens, inactive, same⟩⟩ :=
    journaled.pooled.fed_cases fed
  · rw [found, same]
    exact ⟨active, invariant.stamp _ _ _ (journaled.opened _ session here active)⟩
  · rw [opens, same]
    exact ⟨rfl, invariant.openFor _ _ _ (journaled.idle _ session here inactive)⟩

/-- Feeding a frame keeps the storage pooled. -/
theorem SessionTable.Pooled.serve {table : SessionTable D} (pooled : Pooled config table)
    {frame : AudioFrame} {nowNs : UInt64} {feed : Feed D}
    (fed : table.feedOf frame nowNs = some feed) :
    Pooled config ((table.acquire frame.hdr.sessionId nowNs).1.modifySession feed.storage
      (Session.served frame nowNs)) := by
  have active : feed.session.active = true := by
    obtain ⟨session, -, ⟨-, active, -, same⟩ | ⟨-, -, same⟩⟩ := pooled.fed_cases fed
    · rw [same]
      exact active
    · rw [same]
      rfl
  obtain ⟨-, -, acquired⟩ := SessionTable.feedOf_eq_some fed
  have stepped : table.step (.acquire frame.hdr.sessionId nowNs) =
      some ((table.acquire frame.hdr.sessionId nowNs).1,
        .session (table.acquire frame.hdr.sessionId nowNs).2) := rfl
  have keeps := fun session : Session D => session.served_keeps frame nowNs
  refine (pooled.step stepped).modifySession _ _ (fun session => (keeps session).2.1) ?_
  intro session here reachable
  rw [acquired] at here
  cases here
  refine reachable.call (.frame frame nowNs) (keeps feed.session).2.2 fun closed => ?_
  rw [(keeps feed.session).2.1, active] at closed
  cases closed

/-- Feeding a frame keeps the invariant, with the frame noted. -/
theorem Journaled.serve (journaled : Journaled invariant table journal) {frame : AudioFrame}
    {nowNs : UInt64} {feed : Feed D} (fed : table.feedOf frame nowNs = some feed) :
    Journaled invariant ((table.acquire frame.hdr.sessionId nowNs).1.modifySession feed.storage
      (Session.served frame nowNs)) (feed.noted journal) := by
  obtain ⟨active, before⟩ := journaled.fed fed
  have stillActive : feed.served.active = true :=
    (Session.served_keeps feed.frame feed.nowNs feed.session).2.1.trans active
  refine ⟨journaled.pooled.serve fed, fun j session found _ => ?_,
    fun j session found inactive => ?_⟩
  · rw [SessionTable.sessions_served fed] at found
    rw [Feed.noted, Function.update_apply]
    split at found
    · rename_i here
      cases found
      rw [if_pos here.symm, Feed.served]
      exact invariant.served _ _ _ _ before
    · rename_i apart
      rw [if_neg (Ne.symm apart)]
      exact journaled.opened j session found ‹_›
  · rw [SessionTable.sessions_served fed] at found
    split at found
    · cases found
      rw [stillActive] at inactive
      cases inactive
    · exact journaled.idle j session found inactive

variable {full : Nat → Bool} {options : LoopOptions} {loop : HotLoop D}

theorem Journaled.refused (journaled : Journaled invariant table journal) {frame : AudioFrame}
    {nowNs : UInt64} (refused : table.feedOf frame nowNs = none) :
    Journaled invariant (table.acquire frame.hdr.sessionId nowNs).1 journal := by
  have stepped : table.step (.acquire frame.hdr.sessionId nowNs) =
      some ((table.acquire frame.hdr.sessionId nowNs).1,
        .session (table.acquire frame.hdr.sessionId nowNs).2) := rfl
  have same := SessionTable.sessions_of_refused refused
  refine ⟨journaled.pooled.step stepped, ?_, ?_⟩
  · rw [same]
    exact journaled.opened
  · rw [same]
    exact journaled.idle

theorem Journaled.sweep (journaled : Journaled invariant loop.sessions journal)
    {loopNs : UInt64} {swept : HotLoop D}
    (returned : loop.sweep full options loopNs = some swept) :
    Journaled invariant swept.sessions journal := by
  rcases HotLoop.sweep_cases returned with ⟨-, sessions, tails, expired, rfl⟩ | ⟨-, rfl⟩
  · rw [(HotLoop.emitAll_keeps _ _ _).1]
    exact journaled.sweepAll expired
  · exact journaled

/-- Step lemma: an iteration keeps the invariant. -/
theorem Journaled.iterate (journaled : Journaled invariant loop.sessions journal) {tick : Tick}
    {next : HotLoop D} (stepped : loop.iterate full options tick = some next) :
    Journaled invariant next.sessions (loop.note full options journal tick) := by
  obtain ⟨swept, returned, ⟨popped, rfl⟩ | ⟨frame, popped, rfl⟩⟩ := HotLoop.iterate_cases stepped
  · have unfed : loop.feed full options tick = none := by
      rw [HotLoop.feed, returned, popped]
      rfl
    rw [HotLoop.note, unfed]
    exact journaled.sweep returned
  · have kept := journaled.sweep returned
    have same : loop.feed full options tick = swept.sessions.feedOf frame tick.dequeueNs := by
      rw [HotLoop.feed, returned, popped]
      rfl
    rw [HotLoop.note, same]
    cases fed : swept.sessions.feedOf frame tick.dequeueNs with
    | none =>
        rw [HotLoop.serve_of_refused fed]
        exact kept.refused fed
    | some feed =>
        rw [HotLoop.serve_of_fed fed, (HotLoop.emitAll_keeps _ _ _).1]
        exact kept.serve fed

/-- Run lemma: a run keeps the invariant. -/
theorem Journaled.iterateAll (journaled : Journaled invariant loop.sessions journal)
    {ticks : List Tick} {final : HotLoop D}
    (ran : HotLoop.iterateAll full options loop ticks = some final) :
    Journaled invariant final.sessions (loop.heard full options journal ticks) := by
  induction ticks generalizing loop journal with
  | nil =>
      cases ran
      exact journaled
  | cons tick ticks ih =>
      obtain ⟨next, stepped, rest⟩ := Option.bind_eq_some_iff.mp ran
      rw [HotLoop.heard, stepped]
      exact ih (journaled.iterate stepped) rest

end

end VoiceHotPath
