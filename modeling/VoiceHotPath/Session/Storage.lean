import VoiceHotPath.Session.Isolation

/-!
# The calls each assembler gets

An operation on the table makes at most one call on the assembler of each
storage slot.  Over a run the assembler of a slot is the one its own calls
lead to, and every event published is the answer to one of these calls.
-/

namespace VoiceHotPath

open ChunkAssembler

/-- The events an operation publishes. -/
def Response.events : Response → List ChunkEvent
  | .session _ => []
  | .event published => published.toList
  | .tails published => published

namespace Session

section

variable {D : Type}

/-- The call a sweep makes on the assembler of a session. -/
def sweptCall (due : Session D → Bool) (nowNs : UInt64) (session : Session D) : Option Call :=
  if session.active && due session then some (.flush nowNs) else none

variable [Double D]

theorem assembler_swept (due : Session D → Bool) (nowNs : UInt64) (session : Session D) :
    (session.swept due nowNs).assembler =
      Machine.final call session.assembler (session.sweptCall due nowNs).toList := by
  unfold swept sweptCall
  split <;> rfl

theorem sweptTail_eq_some {due : Session D → Bool} {nowNs : UInt64} {session : Session D}
    {event : ChunkEvent} :
    session.sweptTail due nowNs = some event ↔
      ∃ next closed, session.sweptCall due nowNs = some next ∧
        (session.assembler.call next).2 = some closed ∧
        event = { closed with sessionId := session.id } := by
  unfold sweptTail sweptCall
  split
  · constructor
    · intro tail
      obtain ⟨closed, flushed, same⟩ := Option.map_eq_some_iff.mp tail
      exact ⟨.flush nowNs, closed, rfl, flushed, same.symm⟩
    · rintro ⟨next, closed, swept, answered, same⟩
      cases swept
      exact Option.map_eq_some_iff.mpr ⟨closed, answered, same.symm⟩
  · constructor
    · intro absent
      cases absent
    · rintro ⟨next, closed, absent, -⟩
      cases absent

end

end Session

namespace SessionTable

section

variable {D : Type}

def assemblerAt (table : SessionTable D) (i : Nat) : Option (ChunkAssembler D) :=
  table.sessions[i]?.map Session.assembler

/-- The call an operation makes on the assembler of a storage slot. -/
def callOn (table : SessionTable D) (op : TableOp) (i : Nat) : Option Call :=
  match op with
  | .acquire _ _ => none
  | .onFrame j frame nowNs =>
      if i = j ∧ table.activeAt i = true then some (.frame frame nowNs) else none
  | .expireIdle nowNs idleNs =>
      if i < table.maxSessions then
        table.sessions[i]?.bind (Session.sweptCall (isIdle nowNs idleNs) nowNs)
      else none
  | .flushAll nowNs =>
      if i < table.maxSessions then
        table.sessions[i]?.bind (Session.sweptCall (fun _ => true) nowNs)
      else none

variable {table : SessionTable D}

/-- Only a storage slot that exists gets a call. -/
theorem assemblerAt_of_callOn {op : TableOp} {i : Nat} {made : Call}
    (called : table.callOn op i = some made) :
    ∃ assembler, table.assemblerAt i = some assembler := by
  have found : ∃ session, table.sessions[i]? = some session := by
    cases op with
    | acquire id nowNs => cases called
    | onFrame j frame nowNs =>
        obtain ⟨⟨-, active⟩, -⟩ := Option.ite_none_right_eq_some.mp called
        obtain ⟨session, here, -⟩ := (Option.any_eq_true _ _).mp active
        exact ⟨session, here⟩
    | expireIdle nowNs idleNs =>
        obtain ⟨-, swept⟩ := Option.ite_none_right_eq_some.mp called
        obtain ⟨session, here, -⟩ := Option.bind_eq_some_iff.mp swept
        exact ⟨session, here⟩
    | flushAll nowNs =>
        obtain ⟨-, swept⟩ := Option.ite_none_right_eq_some.mp called
        obtain ⟨session, here, -⟩ := Option.bind_eq_some_iff.mp swept
        exact ⟨session, here⟩
  obtain ⟨session, here⟩ := found
  exact ⟨session.assembler, by rw [assemblerAt, here]; rfl⟩

theorem assemblerAt_modify {next : SessionTable D} {j : Nat} {edit : Session D → Session D}
    (edited : next.sessions = table.sessions.modify j edit) (i : Nat) :
    next.assemblerAt i =
      if j = i then table.sessions[i]?.map fun session => (edit session).assembler
      else table.assemblerAt i := by
  rw [assemblerAt, assemblerAt, edited, List.getElem?_modify]
  split <;> cases table.sessions[i]? <;> rfl

/-- An edit that leaves the assembler alone. -/
theorem assemblerAt_modify_keeps {next : SessionTable D} {j : Nat}
    (edit : Session D → Session D) (edited : next.sessions = table.sessions.modify j edit)
    (keeps : ∀ session, (edit session).assembler = session.assembler) (i : Nat) :
    next.assemblerAt i = table.assemblerAt i := by
  rw [assemblerAt_modify edited]
  simp only [keeps]
  split <;> rfl

variable [Double D]

theorem assemblerAt_sweepAll {due : Session D → Bool} {nowNs : UInt64} {next : SessionTable D}
    {events : List ChunkEvent} (returned : sweepAll due table nowNs = some (next, events))
    (i : Nat) :
    next.assemblerAt i = (table.assemblerAt i).map fun assembler =>
      Machine.final call assembler
        (if i < table.maxSessions then
          table.sessions[i]?.bind (Session.sweptCall due nowNs) else none).toList := by
  rw [assemblerAt, assemblerAt, (leaves_of_sweepAll returned).sessions]
  cases table.sessions[i]? with
  | none => rfl
  | some session =>
      simp only [List.mem_range, Option.map_some, Option.bind_some]
      split
      · exact congrArg some (session.assembler_swept due nowNs)
      · rfl

/-- The event is the answer of the assembler of a storage slot to an operation. -/
def Answers (table : SessionTable D) (op : TableOp) (i : Nat) (event : ChunkEvent) : Prop :=
  ∃ assembler made closed, table.assemblerAt i = some assembler ∧
    table.callOn op i = some made ∧ (assembler.call made).2 = some closed ∧
    event = { closed with sessionId := event.sessionId }

/-- The tails of a sweep are the answers to its flushes. -/
theorem mem_sweepAll {due : Session D → Bool} {nowNs : UInt64} {next : SessionTable D}
    {events : List ChunkEvent} (returned : sweepAll due table nowNs = some (next, events))
    (event : ChunkEvent) :
    event ∈ events ↔ ∃ i session made closed, table.sessions[i]? = some session ∧
      (if i < table.maxSessions then
        table.sessions[i]?.bind (Session.sweptCall due nowNs) else none) = some made ∧
      (session.assembler.call made).2 = some closed ∧
      event = { closed with sessionId := session.id } := by
  rw [(leaves_of_sweepAll returned).events_eq, List.mem_filterMap]
  constructor
  · rintro ⟨i, inside, found⟩
    obtain ⟨session, here, tail⟩ := Option.bind_eq_some_iff.mp found
    obtain ⟨made, closed, swept, answered, same⟩ := Session.sweptTail_eq_some.mp tail
    refine ⟨i, session, made, closed, here, ?_, answered, same⟩
    rw [if_pos (List.mem_range.mp inside), here]
    exact swept
  · rintro ⟨i, session, made, closed, here, called, answered, same⟩
    split at called
    · rename_i inside
      rw [here] at called
      refine ⟨i, List.mem_range.mpr inside, Option.bind_eq_some_iff.mpr ⟨session, here, ?_⟩⟩
      exact Session.sweptTail_eq_some.mpr ⟨made, closed, called, answered, same⟩
    · cases called

/-- The two outcomes of feeding a frame, guards included. -/
theorem feed_cases (table : SessionTable D) (j : Nat) (frame : AudioFrame) (nowNs : UInt64) :
    (table.activeAt j = false ∧ table.feed j frame nowNs = (table, none)) ∨
      ∃ session, table.sessions[j]? = some session ∧ table.activeAt j = true ∧
        table.feed j frame nowNs = (table.modifySession j (Session.fed frame nowNs),
          (session.assembler.onFrame frame nowNs).2) := by
  unfold feed activeAt
  cases here : table.sessions[j]? with
  | none => exact .inl ⟨rfl, rfl⟩
  | some session =>
      rw [Option.any_some]
      dsimp only
      cases session.active with
      | false => exact .inl ⟨rfl, rfl⟩
      | true => exact .inr ⟨session, rfl, rfl, rfl⟩

theorem assemblerAt_feed (table : SessionTable D) (j : Nat) (frame : AudioFrame)
    (nowNs : UInt64) (i : Nat) :
    (table.feed j frame nowNs).1.assemblerAt i = (table.assemblerAt i).map fun assembler =>
      Machine.final call assembler (table.callOn (.onFrame j frame nowNs) i).toList := by
  rcases table.feed_cases j frame nowNs with ⟨closed, same⟩ | ⟨session, here, active, same⟩
  · have quiet : table.callOn (.onFrame j frame nowNs) i = none := by
      refine if_neg fun fed => ?_
      rw [fed.1, closed] at fed
      cases fed.2
    rw [same, quiet]
    exact (Option.map_id' (x := table.assemblerAt i)).symm
  · rw [same, assemblerAt_modify rfl]
    by_cases fed : j = i
    · subst fed
      rw [if_pos rfl, callOn, if_pos ⟨rfl, active⟩, assemblerAt, here]
      rfl
    · have quiet : table.callOn (.onFrame j frame nowNs) i = none :=
        if_neg fun fed' => fed fed'.1.symm
      rw [if_neg fed, quiet]
      exact (Option.map_id' (x := table.assemblerAt i)).symm

/-- Step lemma: an operation moves each assembler by the call it makes on it. -/
theorem assemblerAt_step {op : TableOp} {next : SessionTable D} {response : Response}
    (stepped : table.step op = some (next, response)) (i : Nat) :
    next.assemblerAt i = (table.assemblerAt i).map fun assembler =>
      Machine.final call assembler (table.callOn op i).toList := by
  cases op with
  | acquire id nowNs =>
      have acquired : (table.acquire id nowNs).1 = next :=
        congrArg Prod.fst (Option.some.inj stepped)
      subst acquired
      have kept : (table.acquire id nowNs).1.assemblerAt i = table.assemblerAt i := by
        rcases table.acquire_cases id nowNs with ⟨j, -, same⟩ | same | ⟨p, j, rest, free, same⟩
        · rw [same]
          exact assemblerAt_modify_keeps (Session.stamp nowNs) rfl (fun _ => rfl) i
        · rw [same]
          rfl
        · rw [same]
          exact assemblerAt_modify_keeps (Session.openFor id nowNs) rfl (fun _ => rfl) i
      rw [kept]
      exact (Option.map_id' (x := table.assemblerAt i)).symm
  | onFrame j frame nowNs =>
      have fed : (table.feed j frame nowNs).1 = next :=
        congrArg Prod.fst (Option.some.inj stepped)
      subst fed
      exact table.assemblerAt_feed j frame nowNs i
  | expireIdle nowNs idleNs =>
      obtain ⟨⟨swept, events⟩, same, pair⟩ := Option.map_eq_some_iff.mp stepped
      cases pair
      exact assemblerAt_sweepAll same i
  | flushAll nowNs =>
      obtain ⟨⟨swept, events⟩, same, pair⟩ := Option.map_eq_some_iff.mp stepped
      cases pair
      exact assemblerAt_sweepAll same i

theorem answers_sweepAll {op : TableOp} {due : Session D → Bool} {nowNs : UInt64}
    {next : SessionTable D} {events : List ChunkEvent}
    (returned : sweepAll due table nowNs = some (next, events))
    (calls : ∀ i, table.callOn op i = if i < table.maxSessions then
      table.sessions[i]?.bind (Session.sweptCall due nowNs) else none)
    {event : ChunkEvent} (member : event ∈ events) : ∃ i, table.Answers op i event := by
  obtain ⟨i, session, made, closed, here, called, answered, rfl⟩ :=
    (mem_sweepAll returned event).mp member
  refine ⟨i, session.assembler, made, closed, ?_, (calls i).trans called, answered, rfl⟩
  rw [assemblerAt, here]
  rfl

/-- Every event published is the answer of some assembler. -/
theorem answers_step {op : TableOp} {next : SessionTable D} {response : Response}
    (stepped : table.step op = some (next, response)) {event : ChunkEvent}
    (member : event ∈ response.events) : ∃ i, table.Answers op i event := by
  cases op with
  | acquire id nowNs =>
      have answered : .session (table.acquire id nowNs).2 = response :=
        congrArg Prod.snd (Option.some.inj stepped)
      subst answered
      cases member
  | onFrame j frame nowNs =>
      have answered : .event (table.feed j frame nowNs).2 = response :=
        congrArg Prod.snd (Option.some.inj stepped)
      subst answered
      rcases table.feed_cases j frame nowNs with ⟨-, same⟩ | ⟨session, here, active, same⟩
      · rw [same] at member
        cases member
      · rw [same] at member
        refine ⟨j, session.assembler, .frame frame nowNs, event, ?_, if_pos ⟨rfl, active⟩,
          Option.mem_toList.mp member, rfl⟩
        rw [assemblerAt, here]
        rfl
  | expireIdle nowNs idleNs =>
      obtain ⟨⟨swept, events⟩, same, pair⟩ := Option.map_eq_some_iff.mp stepped
      cases pair
      exact answers_sweepAll same (fun _ => rfl) member
  | flushAll nowNs =>
      obtain ⟨⟨swept, events⟩, same, pair⟩ := Option.map_eq_some_iff.mp stepped
      cases pair
      exact answers_sweepAll same (fun _ => rfl) member

theorem mem_sweepAll_of_closes {op : TableOp} {due : Session D → Bool} {nowNs : UInt64}
    {next : SessionTable D} {events : List ChunkEvent}
    (returned : sweepAll due table nowNs = some (next, events))
    (calls : ∀ i, table.callOn op i = if i < table.maxSessions then
      table.sessions[i]?.bind (Session.sweptCall due nowNs) else none)
    {i : Nat} {assembler : ChunkAssembler D} {made : Call} {closed : ChunkEvent}
    (here : table.assemblerAt i = some assembler) (called : table.callOn op i = some made)
    (answered : (assembler.call made).2 = some closed) :
    ∃ event ∈ events, event = { closed with sessionId := event.sessionId } := by
  obtain ⟨session, found, rfl⟩ := Option.map_eq_some_iff.mp here
  rw [calls] at called
  exact ⟨_, (mem_sweepAll returned _).mpr ⟨i, session, made, closed, found, called, answered, rfl⟩,
    rfl⟩

/-- Every chunk an assembler closes is published, under the id of its session. -/
theorem published_step {op : TableOp} {next : SessionTable D} {response : Response}
    (stepped : table.step op = some (next, response)) {i : Nat} {assembler : ChunkAssembler D}
    {made : Call} {closed : ChunkEvent} (here : table.assemblerAt i = some assembler)
    (called : table.callOn op i = some made) (answered : (assembler.call made).2 = some closed) :
    ∃ event ∈ response.events, event = { closed with sessionId := event.sessionId } := by
  cases op with
  | acquire id nowNs => cases called
  | onFrame j frame nowNs =>
      have published : .event (table.feed j frame nowNs).2 = response :=
        congrArg Prod.snd (Option.some.inj stepped)
      subst published
      obtain ⟨⟨rfl, active⟩, fed⟩ := Option.ite_none_right_eq_some.mp called
      cases fed
      obtain ⟨session, found, rfl⟩ := Option.map_eq_some_iff.mp here
      rcases table.feed_cases i frame nowNs with ⟨closed, -⟩ | ⟨session', here', -, same⟩
      · rw [closed] at active
        cases active
      · rw [found] at here'
        cases here'
        refine ⟨closed, ?_, rfl⟩
        rw [same]
        exact Option.mem_toList.mpr answered
  | expireIdle nowNs idleNs =>
      obtain ⟨⟨swept, events⟩, same, pair⟩ := Option.map_eq_some_iff.mp stepped
      cases pair
      exact mem_sweepAll_of_closes same (fun _ => rfl) here called answered
  | flushAll nowNs =>
      obtain ⟨⟨swept, events⟩, same, pair⟩ := Option.map_eq_some_iff.mp stepped
      cases pair
      exact mem_sweepAll_of_closes same (fun _ => rfl) here called answered

/-- The calls a history makes on the assembler of a storage slot. -/
def storageCalls (table : SessionTable D) : List TableOp → Nat → List Call
  | [], _ => []
  | op :: ops, i =>
      (table.callOn op i).toList ++
        (table.step op).elim [] fun (next, _) => storageCalls next ops i

/-- Run lemma: after any history each assembler is where its own calls lead. -/
theorem assemblerAt_run {ops : List TableOp} {final : SessionTable D}
    {responses : List Response} (ran : table.run ops = some (final, responses)) (i : Nat) :
    final.assemblerAt i = (table.assemblerAt i).map fun assembler =>
      Machine.final call assembler (table.storageCalls ops i) := by
  induction ops generalizing table responses with
  | nil =>
      cases ran
      exact (Option.map_id' (x := final.assemblerAt i)).symm
  | cons op ops ih =>
      obtain ⟨⟨next, response⟩, stepped, rest⟩ := Option.bind_eq_some_iff.mp ran
      obtain ⟨⟨last, responses'⟩, same, pair⟩ := Option.map_eq_some_iff.mp rest
      cases pair
      rw [ih same, assemblerAt_step stepped, storageCalls, stepped, Option.map_map]
      congr 1
      funext assembler
      exact (Machine.final_append call _ _ _).symm

theorem storageCalls_append {ops : List TableOp} {final : SessionTable D}
    {responses : List Response} (ran : table.run ops = some (final, responses))
    (rest : List TableOp) (i : Nat) :
    table.storageCalls (ops ++ rest) i =
      table.storageCalls ops i ++ final.storageCalls rest i := by
  induction ops generalizing table responses with
  | nil =>
      cases ran
      rfl
  | cons op ops ih =>
      obtain ⟨⟨next, response⟩, stepped, later⟩ := Option.bind_eq_some_iff.mp ran
      obtain ⟨⟨last, responses'⟩, same, pair⟩ := Option.map_eq_some_iff.mp later
      cases pair
      rw [List.cons_append, storageCalls, storageCalls, stepped]
      simp only [Option.elim_some, List.append_assoc]
      rw [ih same]

theorem storageCalls_snoc {ops : List TableOp} {final : SessionTable D}
    {responses : List Response} (ran : table.run ops = some (final, responses))
    (op : TableOp) (i : Nat) :
    table.storageCalls (ops ++ [op]) i =
      table.storageCalls ops i ++ (final.callOn op i).toList := by
  rw [storageCalls_append ran, storageCalls]
  cases final.step op <;> simp [storageCalls]

/-- A call an assembler gets comes from one operation of the history. -/
theorem storageCalls_split {ops : List TableOp} {final : SessionTable D}
    {responses : List Response} (ran : table.run ops = some (final, responses)) {i : Nat}
    {past rest : List Call} {made : Call}
    (split : table.storageCalls ops i = past ++ made :: rest) :
    ∃ before op after between answers next response, ops = before ++ op :: after ∧
      table.run before = some (between, answers) ∧ between.step op = some (next, response) ∧
      table.storageCalls before i = past ∧ between.callOn op i = some made := by
  induction ops generalizing table responses past with
  | nil =>
      cases past <;> cases split
  | cons op ops ih =>
      obtain ⟨⟨next, response⟩, stepped, later⟩ := Option.bind_eq_some_iff.mp ran
      obtain ⟨⟨last, responses'⟩, same, pair⟩ := Option.map_eq_some_iff.mp later
      cases pair
      rw [storageCalls, stepped] at split
      -- Either the first operation makes the call, or the call is found in the rest.
      have found : (past = [] ∧ table.callOn op i = some made) ∨
          ∃ past', past = (table.callOn op i).toList ++ past' ∧
            next.storageCalls ops i = past' ++ made :: rest := by
        cases called : table.callOn op i with
        | none =>
            rw [called] at split
            exact .inr ⟨past, rfl, split⟩
        | some first =>
            rw [called] at split
            cases past with
            | nil =>
                cases split
                exact .inl ⟨rfl, rfl⟩
            | cons head past =>
                obtain ⟨rfl, tail⟩ := List.cons.inj split
                exact .inr ⟨past, rfl, tail⟩
      rcases found with ⟨rfl, called⟩ | ⟨past', rfl, later⟩
      · exact ⟨[], op, ops, table, [], next, response, rfl, rfl, stepped, rfl, called⟩
      · obtain ⟨before, other, after, between, answers, next', response', rfl, ran', stepped',
          rfl, called⟩ := ih same later
        refine ⟨op :: before, other, after, between, response :: answers, next', response', rfl,
          run_cons stepped ran', stepped', ?_, called⟩
        rw [storageCalls, stepped]
        rfl

/-- On a fresh table the assembler of every storage slot has the history of its calls. -/
theorem assemblerAt_history {maxSessions : Nat} {config : ChunkerConfig D} {ops : List TableOp}
    {responses : List Response}
    (ran : (make maxSessions config).run ops = some (table, responses)) {i : Nat}
    {assembler : ChunkAssembler D} (here : table.assemblerAt i = some assembler) :
    assembler = after config ((make maxSessions config).storageCalls ops i) := by
  have moved := assemblerAt_run ran i
  rw [here] at moved
  obtain ⟨first, start, led⟩ := Option.map_eq_some_iff.mp moved.symm
  obtain ⟨session, found, rfl⟩ := Option.map_eq_some_iff.mp start
  rw [← led, eq_make_of_getElem? found]
  rfl

end

end SessionTable

end VoiceHotPath
