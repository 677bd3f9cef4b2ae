import VoiceHotPath.Session.Histories
import VoiceHotPath.Vad.Isolation

/-!
# Isolation between calls on one storage

Opening a session resets the fields of the session but not its assembler, so a
call is isolated from the earlier calls on its storage exactly when those left
the assembler neutral.
-/

namespace VoiceHotPath

open ChunkAssembler

theorem mem_modify {α : Type} {xs : List α} {i : Nat} {edit : α → α} {y : α}
    (member : y ∈ xs.modify i edit) : y ∈ xs ∨ ∃ x, xs[i]? = some x ∧ y = edit x := by
  obtain ⟨j, here⟩ := List.mem_iff_getElem?.mp member
  rw [List.getElem?_modify] at here
  obtain ⟨x, found, rfl⟩ := Option.map_eq_some_iff.mp here
  split
  · rename_i same
    exact .inr ⟨x, same ▸ found, rfl⟩
  · exact .inl (List.mem_of_getElem? found)

namespace SessionTable

section

variable {D : Type} {table : SessionTable D}

theorem activeAt_of_sessions {next : SessionTable D} {i : Nat} {edit : Session D → Session D}
    (edited : next.sessions = table.sessions.modify i edit) (j : Nat) :
    next.activeAt j =
      if i = j then table.sessions[j]?.any fun session => (edit session).active
      else table.activeAt j := by
  rw [activeAt, edited, List.getElem?_modify]
  split
  · cases table.sessions[j]? <;> rfl
  · rw [activeAt]
    cases table.sessions[j]? <;> rfl

/-- Opening is the only way an acquire counts an opened session. -/
theorem acquire_opens {id : UInt32} {nowNs : UInt64} {next : SessionTable D} {i : Nat}
    (acquired : table.acquire id nowNs = (next, some i))
    (opened : next.opened = table.opened + 1) :
    ∃ p rest, table.freeList = i :: rest ∧ next = table.openSession id nowNs p i rest := by
  rcases table.acquire_cases id nowNs with ⟨j, -, outcome⟩ | outcome | ⟨p, j, rest, free, outcome⟩
  · rw [outcome] at acquired
    cases acquired
    have same : table.opened = table.opened + 1 := opened
    simp at same
  · rw [outcome] at acquired
    cases acquired
  · rw [outcome] at acquired
    cases acquired
    exact ⟨p, rest, free, rfl⟩

end

end SessionTable

theorem ChunkAssembler.inactive_flush {D : Type} (assembler : ChunkAssembler D)
    (nowNs : UInt64) : (assembler.flush nowNs).1.active = false := by
  rw [flush]
  cases active : assembler.active with
  | false => exact active
  | true => rfl

section

variable {D : Type} [Double D] {config : ChunkerConfig D}

/-- The assembler of a session has a history, and no open chunk unless the session is open. -/
structure Session.Reachable (config : ChunkerConfig D) (session : Session D) : Prop where
  history : ∃ calls, session.assembler = after config calls
  active : session.active = false → session.assembler.active = false

theorem Session.Reachable.call {session next : Session D} (reachable : session.Reachable config)
    (input : Call) (stepped : next.assembler = (session.assembler.call input).1)
    (active : next.active = false → next.assembler.active = false) :
    next.Reachable config := by
  obtain ⟨calls, history⟩ := reachable.history
  refine ⟨⟨calls ++ [input], ?_⟩, active⟩
  rw [after_snoc, ← history, stepped]

theorem Session.Reachable.closed {session : Session D} (reachable : session.Reachable config)
    (nowNs : UInt64) : (session.closed nowNs).Reachable config :=
  reachable.call (.flush nowNs) rfl fun _ => session.assembler.inactive_flush nowNs

namespace SessionTable

/-- The free storage is that of closed sessions, each listed once. -/
structure Pooled (config : ChunkerConfig D) (table : SessionTable D) : Prop where
  nodup : table.freeList.Nodup
  free : ∀ i ∈ table.freeList, table.activeAt i = false
  sessions : ∀ session ∈ table.sessions, session.Reachable config

variable {table : SessionTable D}

theorem Pooled.congr {next : SessionTable D} (pooled : Pooled config table)
    (sessions : next.sessions = table.sessions) (freeList : next.freeList = table.freeList) :
    Pooled config next := by
  refine ⟨freeList ▸ pooled.nodup, fun i member => ?_, sessions ▸ pooled.sessions⟩
  rw [activeAt, sessions]
  exact pooled.free i (freeList ▸ member)

theorem Pooled.make (maxSessions : Nat) (config : ChunkerConfig D) :
    Pooled config (make maxSessions config) := by
  refine ⟨List.nodup_range, fun i _ => ?_, fun session member => ?_⟩
  · rw [activeAt]
    cases here : (SessionTable.make maxSessions config).sessions[i]? with
    | none => rfl
    | some session => exact inactive_of_make here
  · rw [eq_make_of_mem member]
    exact ⟨⟨[], rfl⟩, fun _ => rfl⟩

theorem Pooled.modifySession (pooled : Pooled config table) (i : Nat)
    (edit : Session D → Session D)
    (sameActive : ∀ session, (edit session).active = session.active)
    (reachable : ∀ session, table.sessions[i]? = some session →
      session.Reachable config → (edit session).Reachable config) :
    Pooled config (table.modifySession i edit) := by
  have edited : (table.modifySession i edit).sessions = table.sessions.modify i edit := rfl
  refine ⟨pooled.nodup, fun j member => ?_, fun session member => ?_⟩
  · have inactive := pooled.free j member
    rw [activeAt_of_sessions edited]
    simp only [sameActive]
    rw [activeAt] at inactive ⊢
    rw [inactive, ite_self]
  · rcases mem_modify member with kept | ⟨before, here, rfl⟩
    · exact pooled.sessions session kept
    · exact reachable before here (pooled.sessions before (List.mem_of_getElem? here))

/-- Opening a session takes its storage off the free list. -/
theorem Pooled.openSession (pooled : Pooled config table) (id : UInt32) (nowNs : UInt64)
    {p i : Nat} {rest : List Nat} (free : table.freeList = i :: rest) :
    Pooled config (table.openSession id nowNs p i rest) := by
  have nodup := pooled.nodup
  rw [free, List.nodup_cons] at nodup
  have edited : (table.openSession id nowNs p i rest).sessions =
      table.sessions.modify i (Session.openFor id nowNs) := rfl
  refine ⟨nodup.2, fun j member => ?_, fun session member => ?_⟩
  · have apart : i ≠ j := fun same => nodup.1 (same ▸ member)
    rw [activeAt_of_sessions edited, if_neg apart]
    exact pooled.free j (by rw [free]; exact List.mem_cons_of_mem _ member)
  · rcases mem_modify member with kept | ⟨before, here, rfl⟩
    · exact pooled.sessions session kept
    · have history := (pooled.sessions before (List.mem_of_getElem? here)).history
      exact ⟨history, fun closed => by cases closed⟩

/-- Closing an open session puts its storage on the free list. -/
theorem Pooled.closeSession (pooled : Pooled config table) {i : Nat} {session : Session D}
    (here : table.sessions[i]? = some session) (active : session.active = true)
    (nowNs : UInt64) : Pooled config (table.closeSession i session nowNs).1 := by
  obtain ⟨edited, freeList⟩ := table.closeSession_keeps i session nowNs
  refine ⟨?_, fun j member => ?_, fun next member => ?_⟩
  · rw [freeList, List.nodup_cons]
    refine ⟨fun listed => ?_, pooled.nodup⟩
    have inactive := pooled.free i listed
    rw [activeAt, here, Option.any_some, active] at inactive
    cases inactive
  · rw [activeAt_of_sessions edited]
    split
    · cases table.sessions[j]? <;> rfl
    · rename_i apart
      rw [freeList, List.mem_cons] at member
      exact pooled.free j (member.resolve_left (Ne.symm apart))
  · rw [edited] at member
    rcases mem_modify member with kept | ⟨before, found, rfl⟩
    · exact pooled.sessions next kept
    · exact (pooled.sessions before (List.mem_of_getElem? found)).closed nowNs

theorem Pooled.sweep (pooled : Pooled config table) (due : Session D → Bool) (nowNs : UInt64)
    (storage : List Nat) : Pooled config (sweep due nowNs storage table).1 := by
  induction storage generalizing table with
  | nil => exact pooled
  | cons i rest ih =>
      unfold SessionTable.sweep
      cases here : table.sessions[i]? with
      | none => exact ih pooled
      | some session =>
          cases active : session.active with
          | false =>
              simp only [active, Bool.not_false, Bool.true_or, if_true]
              exact ih pooled
          | true =>
              dsimp only
              split
              · exact ih pooled
              · exact ih (pooled.closeSession here active nowNs)

theorem Pooled.sweepAll (pooled : Pooled config table) {due : Session D → Bool}
    {nowNs : UInt64} {next : SessionTable D} {events : List ChunkEvent}
    (swept : sweepAll due table nowNs = some (next, events)) : Pooled config next := by
  unfold SessionTable.sweepAll at swept
  dsimp only at swept
  obtain ⟨rebuilt, same, pair⟩ := Option.map_eq_some_iff.mp swept
  cases pair
  obtain ⟨sessions, freeList, -⟩ := maybeRebuild_keeps same
  exact (pooled.sweep due nowNs _).congr sessions freeList

/-- Step lemma: every operation keeps the pool. -/
theorem Pooled.step (pooled : Pooled config table) {op : TableOp} {next : SessionTable D}
    {response : Response} (stepped : table.step op = some (next, response)) :
    Pooled config next := by
  cases op with
  | acquire id nowNs =>
      have acquired : (table.acquire id nowNs).1 = next :=
        congrArg Prod.fst (Option.some.inj stepped)
      subst acquired
      rcases table.acquire_cases id nowNs with ⟨i, -, same⟩ | same | ⟨p, i, rest, free, same⟩
      · rw [same]
        exact pooled.modifySession i (Session.stamp nowNs) (fun _ => rfl)
          fun session _ reachable => ⟨reachable.history, reachable.active⟩
      · rw [same]
        exact pooled.congr rfl rfl
      · rw [same]
        exact pooled.openSession id nowNs free
  | onFrame i frame nowNs =>
      have fed : (table.feed i frame nowNs).1 = next :=
        congrArg Prod.fst (Option.some.inj stepped)
      subst fed
      unfold feed
      cases here : table.sessions[i]? with
      | none => exact pooled
      | some session =>
          dsimp only
          split
          · rename_i active
            refine pooled.modifySession i (Session.fed frame nowNs) (fun _ => rfl) ?_
            intro session' found reachable
            rw [here] at found
            cases found
            refine reachable.call (.frame frame nowNs) rfl fun closed => ?_
            rw [show (Session.fed frame nowNs session).active = session.active from rfl,
              active] at closed
            cases closed
          · exact pooled
  | expireIdle nowNs idleNs =>
      obtain ⟨⟨swept, events⟩, same, pair⟩ := Option.map_eq_some_iff.mp stepped
      cases pair
      exact pooled.sweepAll same
  | flushAll nowNs =>
      obtain ⟨⟨swept, events⟩, same, pair⟩ := Option.map_eq_some_iff.mp stepped
      cases pair
      exact pooled.sweepAll same

/-- Run lemma: every history keeps the pool. -/
theorem Pooled.run (pooled : Pooled config table) {ops : List TableOp} {final : SessionTable D}
    {responses : List Response} (ran : table.run ops = some (final, responses)) :
    Pooled config final := by
  induction ops generalizing table responses with
  | nil =>
      cases ran
      exact pooled
  | cons op ops ih =>
      obtain ⟨⟨next, response⟩, stepped, rest⟩ := Option.bind_eq_some_iff.mp ran
      obtain ⟨⟨last, responses'⟩, same, pair⟩ := Option.map_eq_some_iff.mp rest
      cases pair
      exact ih (pooled.step stepped) same

/-- A call that opens a session is isolated from the earlier calls on its storage
exactly when they left its assembler neutral, or no frame opens a chunk at all. -/
theorem reuse_isolated_iff {maxSessions : Nat} {history : List TableOp}
    {table next : SessionTable D} {responses : List Response}
    (ran : (SessionTable.make maxSessions config).run history = some (table, responses))
    {id : UInt32} {nowNs : UInt64} {i : Nat}
    (acquired : table.acquire id nowNs = (next, some i))
    (opened : next.opened = table.opened + 1) {before session : Session D}
    (was : table.sessions[i]? = some before) (now : next.sessions[i]? = some session) :
    Isolated config session.assembler ↔ Deaf config ∨ before.assembler.Neutral := by
  have pooled := (Pooled.make maxSessions config).run ran
  obtain ⟨p, rest, free, rfl⟩ := acquire_opens acquired opened
  have same : session = before.openFor id nowNs := by
    have edited : (table.openSession id nowNs p i rest).sessions =
        table.sessions.modify i (Session.openFor id nowNs) := rfl
    exact Option.some.inj (now.symm.trans (getElem?_of_modify edited was))
  have inactive := pooled.free i (by rw [free]; exact List.mem_cons_self ..)
  rw [activeAt, was, Option.any_some] at inactive
  have reachable := pooled.sessions before (List.mem_of_getElem? was)
  obtain ⟨calls, past⟩ := reachable.history
  have rested : Rested config before.assembler := by
    rw [past]
    exact rested_after config calls (past ▸ reachable.active inactive)
  rw [same]
  exact rested.isolated_iff

end SessionTable

end

namespace SessionTable

open Scenario ChunkAssembler

theorem reuse_isolated_iff_afterQuietCall :
    ∃ table responses next before session,
      (make 1 shortConfig).run [.acquire 7 0, .onFrame 0 (silentFrame 0) 0, .expireIdle 100 50] =
        some (table, responses) ∧
      table.acquire 9 200 = (next, some 0) ∧ next.opened = table.opened + 1 ∧
      table.sessions[0]? = some before ∧ next.sessions[0]? = some session ∧
      (Isolated shortConfig session.assembler ↔
        Deaf shortConfig ∨ before.assembler.Neutral) := by
  have returned : ((make 1 shortConfig).run
      [.acquire 7 0, .onFrame 0 (silentFrame 0) 0, .expireIdle 100 50]).any (fun (table, _) =>
        (table.acquire 9 200).2 == some 0 &&
          (table.acquire 9 200).1.opened == table.opened + 1 &&
          table.sessions[0]?.isSome && (table.acquire 9 200).1.sessions[0]?.isSome) = true := by
    decide +kernel
  obtain ⟨⟨table, responses⟩, ran, facts⟩ := (Option.any_eq_true _ _).mp returned
  simp only [Bool.and_eq_true, beq_iff_eq, Option.isSome_iff_exists] at facts
  obtain ⟨⟨⟨index, opened⟩, before, was⟩, session, now⟩ := facts
  have acquired : table.acquire 9 200 = ((table.acquire 9 200).1, some 0) := Prod.ext rfl index
  exact ⟨table, responses, _, before, session, ran, acquired, opened, was, now,
    reuse_isolated_iff ran acquired opened was now⟩

/-- The silence of the first call is counted and published in the second one. -/
theorem isolation_fails_after_quietCall :
    ∃ table responses next session,
      (make 1 shortConfig).run [.acquire 7 0, .onFrame 0 (silentFrame 0) 0, .expireIdle 100 50] =
        some (table, responses) ∧
      table.acquire 9 200 = (next, some 0) ∧ next.opened = table.opened + 1 ∧
      next.sessions[0]? = some session ∧ ¬ Isolated shortConfig session.assembler := by
  have returned : ((make 1 shortConfig).run
      [.acquire 7 0, .onFrame 0 (silentFrame 0) 0, .expireIdle 100 50]).any (fun (table, _) =>
        (table.acquire 9 200).2 == some 0 &&
          (table.acquire 9 200).1.opened == table.opened + 1 &&
          (table.acquire 9 200).1.sessions[0]?.any fun session =>
            Machine.outputs publish session.assembler
                [.frame (toneFrame 0) 200, .frame (toneFrame 1) 300, .flush 400] !=
              Machine.outputs publish (ChunkAssembler.make shortConfig)
                [.frame (toneFrame 0) 200, .frame (toneFrame 1) 300, .flush 400]) = true := by
    decide +kernel
  obtain ⟨⟨table, responses⟩, ran, facts⟩ := (Option.any_eq_true _ _).mp returned
  simp only [Bool.and_eq_true, beq_iff_eq] at facts
  obtain ⟨⟨index, opened⟩, told⟩ := facts
  obtain ⟨session, now, apart⟩ := (Option.any_eq_true _ _).mp told
  have acquired : table.acquire 9 200 = ((table.acquire 9 200).1, some 0) := Prod.ext rfl index
  refine ⟨table, responses, _, session, ran, acquired, opened, now, fun isolated => ?_⟩
  exact bne_iff_ne.mp apart (isolated _)

end SessionTable

end VoiceHotPath
