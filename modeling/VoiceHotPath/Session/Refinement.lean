import VoiceHotPath.Session.CallMap
import VoiceHotPath.Session.Sweep

/-!
# The session table refines a bounded finite map

Every run of the table is a run of the map it represents, answer for answer,
as long as sweeps are not run before the time of a frame.  In particular no
call of the table ever hangs in the rebuild.
-/

namespace VoiceHotPath

namespace SessionTable

section

variable {D : Type} [Double D]

def step (table : SessionTable D) : TableOp → Option (SessionTable D × Response)
  | .acquire id nowNs =>
      let (table, index) := table.acquire id nowNs
      some (table, .session index)
  | .onFrame index frame nowNs =>
      let (table, event) := table.feed index frame nowNs
      some (table, .event event)
  | .expireIdle nowNs idleNs =>
      (table.expireIdle nowNs idleNs).map fun (table, tails) => (table, .tails tails)
  | .flushAll nowNs => (table.flushAll nowNs).map fun (table, tails) => (table, .tails tails)

/-- A run with its answers, or nothing if one of its calls does not return. -/
def run : SessionTable D → List TableOp → Option (SessionTable D × List Response)
  | table, [] => some (table, [])
  | table, op :: ops =>
      (table.step op).bind fun (next, response) =>
        (run next ops).map fun (final, responses) => (final, response :: responses)

theorem run_cons {table next final : SessionTable D} {op : TableOp} {response : Response}
    {ops : List TableOp} {responses : List Response}
    (stepped : table.step op = some (next, response))
    (ran : next.run ops = some (final, responses)) :
    table.run (op :: ops) = some (final, response :: responses) := by
  simp [run, stepped, ran]

/-- No sweep is stamped earlier than the last frame of an open session. -/
def timely (table : SessionTable D) : TableOp → Bool
  | .expireIdle nowNs _ =>
      table.sessions.all fun session => !session.active || decide (session.lastFrameNs ≤ nowNs)
  | _ => true

def timelyRun : SessionTable D → List TableOp → Bool
  | _, [] => true
  | table, op :: ops =>
      table.timely op && (table.step op).all fun (next, _) => timelyRun next ops

end

section

variable {D : Type}

/-- The map a table represents. -/
structure Represents (table : SessionTable D) (map : CallMap D) : Prop where
  bound : map.bound = table.maxSessions
  calls : map.calls = table.openStorage.image fun i => (table.idAt i, i)
  contents : ∀ i, map.contents i = table.sessions[i]?
  peak : table.peakLive = map.peak
  opened : table.opened = UInt64.ofNat map.opens

section

variable {table : SessionTable D} {map : CallMap D}

theorem Represents.mem_calls (represents : Represents table map) {id : UInt32} {i : Nat} :
    (id, i) ∈ map.calls ↔ i ∈ table.openStorage ∧ table.idAt i = id := by
  rw [represents.calls, Finset.mem_image]
  constructor
  · rintro ⟨j, opened, same⟩
    obtain ⟨rfl, rfl⟩ := Prod.mk.inj same
    exact ⟨opened, rfl⟩
  · rintro ⟨opened, rfl⟩
    exact ⟨i, opened, rfl⟩

theorem Represents.mem_storage (represents : Represents table map) {i : Nat} :
    i ∈ map.storage ↔ i ∈ table.openStorage := by
  rw [CallMap.mem_storage]
  constructor
  · rintro ⟨id, here⟩
    exact (represents.mem_calls.mp here).1
  · intro opened
    exact ⟨_, represents.mem_calls.mpr ⟨opened, rfl⟩⟩

theorem Represents.card_calls (represents : Represents table map) :
    map.calls.card = table.openStorage.card := by
  rw [← CallMap.card_storage]
  congr 1
  ext i
  exact represents.mem_storage

/-- Serving a call only through the sessions its table has open. -/
theorem Represents.unserved (represents : Represents table map) {id : UInt32}
    (absent : ∀ i ∈ table.openStorage, table.idAt i ≠ id) : ∀ j, (id, j) ∉ map.calls := by
  intro j here
  obtain ⟨opened, same⟩ := represents.mem_calls.mp here
  exact absent j opened same

/-- An edit of one session is represented by the edit of its contents. -/
theorem Represents.modifySession (represents : Represents table map) (ok : table.Ok) (i : Nat)
    (change : Session D → Session D) (sameId : ∀ session, (change session).id = session.id)
    (sameActive : ∀ session, (change session).active = session.active) :
    Represents (table.modifySession i change) (map.edit i change sameId sameActive) := by
  obtain ⟨-, storage, ids⟩ := ok.modifySession i change sameId sameActive
  refine ⟨represents.bound, ?_, fun j => ?_, represents.peak, represents.opened⟩
  · rw [storage, ids]
    exact represents.calls
  · change Function.update map.contents i ((map.contents i).map change) j =
      (table.sessions.modify i change)[j]?
    rw [List.getElem?_modify]
    by_cases same : i = j
    · subst same
      rw [Function.update_self, represents.contents]
      simp
    · rw [Function.update_of_ne (Ne.symm same), represents.contents]
      simp [same]

theorem Represents.reject (represents : Represents table map) :
    Represents table.reject map :=
  ⟨represents.bound, represents.calls, represents.contents, represents.peak, represents.opened⟩

/-- An opened session is represented by a call the map serves. -/
theorem Represents.openSession (represents : Represents table map) (ok : table.Ok)
    {id : UInt32} (nowNs : UInt64) {p i : Nat} {rest : List Nat} {session : Session D}
    (free : table.freeList = i :: rest) (here : table.sessions[i]? = some session)
    (unserved : ∀ j, (id, j) ∉ map.calls) (vacant : ∀ other, (other, i) ∉ map.calls)
    (inside : i < map.bound) :
    Represents (table.openSession id nowNs p i rest)
      (map.serve id i session unserved vacant inside nowNs) := by
  have opening : (table.openSession id nowNs p i rest).openStorage =
        insert i table.openStorage ∧
      (table.openSession id nowNs p i rest).idAt = Function.update table.idAt i id :=
    openStorage_openSession ok free
  obtain ⟨storage, ids⟩ := opening
  have fresh := ((ok.free i).mp (by simp [free])).2
  refine ⟨represents.bound, ?_, fun j => ?_, ?_, ?_⟩
  · rw [storage, ids, Finset.image_insert, Function.update_self]
    change insert (id, i) map.calls = _
    rw [represents.calls]
    congr 1
    apply Finset.image_congr
    intro j opened
    have apart : j ≠ i := fun same => fresh (same ▸ opened)
    simp only [Function.update_of_ne apart]
  · change Function.update map.contents i (some (session.openFor id nowNs)) j =
      (table.sessions.modify i (Session.openFor id nowNs))[j]?
    rw [List.getElem?_modify]
    by_cases same : i = j
    · subst same
      rw [Function.update_self, here]
      simp
    · rw [Function.update_of_ne (Ne.symm same), represents.contents]
      simp [same]
  · change (if table.peakLive < table.live + 1 then table.live + 1 else table.peakLive) =
      max map.peak (map.calls.card + 1)
    rw [represents.card_calls, ← ok.live, ← represents.peak]
    split <;> omega
  · change table.opened + 1 = UInt64.ofNat (map.opens + 1)
    rw [represents.opened, UInt64.ofNat_add]
    rfl

/-- A sweep closes the storage of the open sessions that are due. -/
theorem Represents.closes_eq (represents : Represents table map) (due : Session D → Bool)
    {i : Nat} {session : Session D} (here : table.sessions[i]? = some session) :
    map.closes due i = (session.active && due session) := by
  have opened : decide (i ∈ map.storage) = session.active := by
    rw [Bool.eq_iff_iff, decide_eq_true_iff, represents.mem_storage, mem_openStorage]
    constructor
    · rintro ⟨session', found, active⟩
      rw [here] at found
      cases found
      exact active
    · intro active
      exact ⟨session, here, active⟩
  rw [CallMap.closes, opened, represents.contents, here]
  rfl

/-- What a sweep of all storage leaves of one session. -/
theorem Swept.session_eq {due : Session D → Bool} {nowNs : UInt64} {swept : SessionTable D}
    {events : List ChunkEvent} (ok : table.Ok)
    (done : Swept due nowNs (List.range table.maxSessions) table swept events) {i : Nat}
    {session : Session D} (here : table.sessions[i]? = some session) :
    swept.sessions[i]? = some (session.swept due nowNs) := by
  have inside : i ∈ List.range table.maxSessions := by
    rw [List.mem_range, ← ok.sessionsLength]
    exact (List.getElem?_eq_some_iff.mp here).1
  rw [done.sessions, here, Option.map_some, if_pos inside]

theorem Swept.none_eq {due : Session D → Bool} {nowNs : UInt64} {swept : SessionTable D}
    {storage : List Nat} {events : List ChunkEvent}
    (done : Swept due nowNs storage table swept events) {i : Nat}
    (here : table.sessions[i]? = none) : swept.sessions[i]? = none := by
  rw [done.sessions, here]
  rfl

/-- A sweep is represented by closing the due calls, one tail for each chunk cut off. -/
theorem Represents.swept (represents : Represents table map) (ok : table.Ok)
    {due due' : Session D → Bool} {nowNs : UInt64} {swept : SessionTable D}
    {events : List ChunkEvent}
    (done : Swept due nowNs (List.range table.maxSessions) table swept events)
    (agree : ∀ (i : Nat) (session : Session D), table.sessions[i]? = some session →
      session.active = true → due session = due' session) :
    Represents swept (map.close due' nowNs) ∧
      List.Forall₂ (Session.EndsIn nowNs) (map.cutOff due') events := by
  have isDue : ∀ (i : Nat) (session : Session D), table.sessions[i]? = some session →
      map.closes due' i = (session.active && due session) := by
    intro i session here
    rw [represents.closes_eq due' here]
    cases active : session.active with
    | false => rfl
    | true => rw [agree i session here active]
  have ids : swept.idAt = table.idAt := by
    funext i
    cases here : table.sessions[i]? with
    | none => rw [idAt, idAt, done.none_eq here, here]
    | some session =>
        rw [idAt_of_getElem? (done.session_eq ok here), idAt_of_getElem? here,
          Session.id_swept]
  have left : ∀ i, i ∈ swept.openStorage ↔
      i ∈ table.openStorage ∧ map.closes due' i = false := by
    intro i
    rw [mem_openStorage, mem_openStorage]
    cases here : table.sessions[i]? with
    | none => simp [done.none_eq here]
    | some session =>
        rw [done.session_eq ok here, isDue i session here]
        simp only [Option.some.injEq, exists_eq_left', Session.active_swept]
        cases session.active <;> cases due session <;> simp
  refine ⟨⟨?_, ?_, ?_, ?_, ?_⟩, ?_⟩
  · exact represents.bound.trans done.maxSessions.symm
  · ext ⟨id, i⟩
    rw [ids, Finset.mem_image, CallMap.mem_close, represents.mem_calls]
    constructor
    · rintro ⟨⟨opened, rfl⟩, kept⟩
      exact ⟨i, (left i).mpr ⟨opened, kept⟩, rfl⟩
    · rintro ⟨j, opened, same⟩
      obtain ⟨rfl, rfl⟩ := Prod.mk.inj same
      obtain ⟨before, kept⟩ := (left j).mp opened
      exact ⟨⟨before, rfl⟩, kept⟩
  · intro i
    rw [CallMap.contents_close, represents.contents]
    cases here : table.sessions[i]? with
    | none => simp [done.none_eq here]
    | some session =>
        rw [done.session_eq ok here, isDue i session here, Session.swept]
        split <;> rfl
  · exact done.peakLive.trans represents.peak
  · exact done.opened.trans represents.opened
  · rw [done.events_eq, CallMap.cutOff, represents.bound]
    refine List.rel_filterMap (R := Eq) ?_ (List.forall₂_eq_eq_eq ▸ rfl)
    rintro i - rfl
    dsimp only
    rw [represents.contents]
    cases here : table.sessions[i]? with
    | none => simp
    | some session =>
        rw [isDue i session here, Option.bind_some, Session.sweptTail]
        split
        · exact Session.tail_rel nowNs session
        · exact .none

/-- A sweep with its rebuild returns, and does what the map does. -/
theorem Represents.sweepAll (represents : Represents table map) (ok : table.Ok)
    {due due' : Session D → Bool} (nowNs : UInt64)
    (agree : ∀ (i : Nat) (session : Session D), table.sessions[i]? = some session →
      session.active = true → due session = due' session) :
    ∃ next events, sweepAll due table nowNs = some (next, events) ∧ next.Ok ∧
      Represents next (map.close due' nowNs) ∧
      List.Forall₂ (Session.EndsIn nowNs) (map.cutOff due') events := by
  obtain ⟨next, events, returned, done⟩ := ok.sweepAll due nowNs
  obtain ⟨closed, tails⟩ := represents.swept ok done agree
  exact ⟨next, events, returned, done.ok, closed, tails⟩

end

end

/-- The wrapping idle test, for a stamp that is not in the future. -/
theorem isIdle_eq_idleFor {D : Type} {nowNs idleNs : UInt64} {session : Session D}
    (stamped : session.lastFrameNs ≤ nowNs) :
    isIdle nowNs idleNs session = CallMap.idleFor nowNs idleNs session := by
  have apart : (nowNs - session.lastFrameNs).toNat =
      nowNs.toNat - session.lastFrameNs.toNat := UInt64.toNat_sub_of_le _ _ stamped
  rw [Bool.eq_iff_iff, isIdle, CallMap.idleFor, Bool.not_eq_true', decide_eq_false_iff_not,
    UInt64.not_lt, UInt64.le_iff_toNat_le, apart, decide_eq_true_iff]

section

variable {D : Type} [Double D] {table : SessionTable D} {map : CallMap D}

/-- Simulation: what the table answers to one call, its map may answer. -/
theorem Represents.step (represents : Represents table map) (ok : table.Ok) (op : TableOp)
    (timely : table.timely op = true) :
    ∃ next response nextMap, table.step op = some (next, response) ∧ next.Ok ∧
      CallMap.Step map op response nextMap ∧ Represents next nextMap := by
  cases op with
  | acquire id nowNs =>
      have kept := ok.acquire id nowNs
      rcases ok.acquire_cases id nowNs with ⟨i, opened, same, outcome⟩ |
        ⟨absent, full, outcome⟩ | ⟨absent, -, p, i, rest, free, -, outcome⟩
      · rw [outcome] at kept
        refine ⟨_, _, _, by rw [SessionTable.step, outcome], kept,
          .found nowNs (represents.mem_calls.mpr ⟨opened, same⟩), ?_⟩
        exact represents.modifySession ok i (Session.stamp nowNs) (fun _ => rfl) (fun _ => rfl)
      · rw [outcome] at kept
        refine ⟨_, _, map, by rw [SessionTable.step, outcome], kept,
          .refused nowNs (represents.unserved absent) ?_, represents.reject⟩
        rw [represents.card_calls, full, represents.bound]
      · rw [outcome] at kept
        obtain ⟨inside, fresh⟩ := (ok.free i).mp (by simp [free])
        have here := List.getElem?_eq_getElem (ok.sessionsLength.symm ▸ inside)
        have vacant : ∀ other, (other, i) ∉ map.calls := fun other member =>
          fresh (represents.mem_calls.mp member).1
        refine ⟨_, _, _, by rw [SessionTable.step, outcome], kept,
          .opened nowNs (represents.unserved absent) vacant (represents.bound.symm ▸ inside)
            ((represents.contents i).trans here), ?_⟩
        exact represents.openSession ok nowNs free here _ _ _
  | onFrame i frame nowNs =>
      have unchanged : i ∉ table.openStorage → table.feed i frame nowNs = (table, none) := by
        intro closed
        rw [feed]
        cases here : table.sessions[i]? with
        | none => rfl
        | some session =>
            refine if_neg fun active => ?_
            exact closed (mem_openStorage.mpr ⟨session, here, active⟩)
      by_cases opened : i ∈ table.openStorage
      · obtain ⟨session, here, active⟩ := mem_openStorage.mp opened
        have fed : table.feed i frame nowNs = (table.modifySession i (Session.fed frame nowNs),
            (session.assembler.onFrame frame nowNs).2) := by
          rw [feed, here]
          exact if_pos active
        obtain ⟨kept, -, -⟩ :=
          ok.modifySession i (Session.fed frame nowNs) (fun _ => rfl) (fun _ => rfl)
        refine ⟨_, _, _, by rw [SessionTable.step, fed], kept,
          .fed frame nowNs (represents.mem_storage.mpr opened)
            ((represents.contents i).trans here), ?_⟩
        exact represents.modifySession ok i (Session.fed frame nowNs) (fun _ => rfl) (fun _ => rfl)
      · refine ⟨table, _, map, by rw [SessionTable.step, unchanged opened], ok,
          .ignored frame nowNs fun member => ?_, represents⟩
        exact opened (represents.mem_storage.mp member)
  | expireIdle nowNs idleNs =>
      have agree : ∀ (i : Nat) (session : Session D), table.sessions[i]? = some session →
          session.active = true →
            isIdle nowNs idleNs session = CallMap.idleFor nowNs idleNs session := by
        intro i session here active
        have stamped := List.all_eq_true.mp timely session (List.mem_of_getElem? here)
        rw [active] at stamped
        exact isIdle_eq_idleFor (by simpa using stamped)
      obtain ⟨next, events, returned, nextOk, closed, tails⟩ :=
        represents.sweepAll ok nowNs agree
      refine ⟨next, _, _, ?_, nextOk, .expired tails, closed⟩
      rw [SessionTable.step, expireIdle, returned]
      rfl
  | flushAll nowNs =>
      have agree : ∀ (i : Nat) (session : Session D), table.sessions[i]? = some session →
          session.active = true → (fun _ => true) session = (fun _ => true) session :=
        fun _ _ _ _ => rfl
      obtain ⟨next, events, returned, nextOk, closed, tails⟩ :=
        represents.sweepAll ok nowNs agree
      refine ⟨next, _, _, ?_, nextOk, .flushed tails, closed⟩
      rw [SessionTable.step, flushAll, returned]
      rfl

end

end SessionTable

end VoiceHotPath
