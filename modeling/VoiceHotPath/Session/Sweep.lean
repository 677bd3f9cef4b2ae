import VoiceHotPath.Session.Release

/-!
# Sweeps and rebuilds

A sweep closes every due session once, in storage order.  The rebuild that may
follow finds an empty slot for every session that is left, and moves nothing
but slots.
-/

namespace VoiceHotPath

open LinearProbing

namespace SessionTable

section

variable {D : Type} {table : SessionTable D}

/-- What a sweep of the given storage leaves of the sessions, and the events it emits. -/
structure Leaves (due : Session D → Bool) (nowNs : UInt64) (storage : List Nat)
    (before after : List (Session D)) (events : List ChunkEvent) : Prop where
  sessions : ∀ j : Nat, after[j]? = before[j]?.map fun session =>
    if j ∈ storage then session.swept due nowNs else session
  events_eq : events =
    storage.filterMap fun i => before[i]?.bind (Session.sweptTail due nowNs)

section

variable {due : Session D → Bool} {nowNs : UInt64} {i : Nat} {rest : List Nat}
  {before after : List (Session D)} {events : List ChunkEvent}

/-- Passing over storage that holds no due session changes nothing. -/
theorem Leaves.pass (leaves : Leaves due nowNs rest before after events)
    (notDue : ∀ session, before[i]? = some session → (session.active && due session) = false) :
    Leaves due nowNs (i :: rest) before after events := by
  refine ⟨?_, ?_⟩
  · intro j
    rw [leaves.sessions]
    cases here : before[j]? with
    | none => rfl
    | some session =>
        by_cases same : j = i
        · subst same
          simp [Session.swept_of_not_due (notDue session here)]
        · simp [same]
  · rw [leaves.events_eq, List.filterMap_cons]
    cases here : before[i]? with
    | none => rfl
    | some session => simp [Session.sweptTail, notDue session here]

/-- Closing a due session and sweeping the rest. -/
theorem Leaves.close {session : Session D} (here : before[i]? = some session)
    (isDue : (session.active && due session) = true) (fresh : i ∉ rest)
    (leaves : Leaves due nowNs rest (before.modify i (Session.closed nowNs)) after events) :
    Leaves due nowNs (i :: rest) before after ((session.tail nowNs).toList ++ events) := by
  refine ⟨?_, ?_⟩
  · intro j
    rw [leaves.sessions, List.getElem?_modify]
    by_cases same : i = j
    · subst same
      simp [here, fresh, Session.swept_of_due isDue]
    · simp [same, Ne.symm same]
  · have others : ∀ j ∈ rest,
        (before.modify i (Session.closed nowNs))[j]?.bind (Session.sweptTail due nowNs) =
          before[j]?.bind (Session.sweptTail due nowNs) := by
      intro j listed
      have apart : i ≠ j := fun same => fresh (same ▸ listed)
      rw [List.getElem?_modify_ne _ _ apart]
    rw [leaves.events_eq, List.filterMap_congr others, List.filterMap_cons, here]
    simp only [Option.bind_some, Session.sweptTail, isDue, if_true]
    cases session.tail nowNs <;> rfl

end

/-- Whatever the slots hold, a sweep closes each due session of its storage once. -/
theorem sweep_leaves (table : SessionTable D) (due : Session D → Bool) (nowNs : UInt64)
    {storage : List Nat} (nodup : storage.Nodup) :
    Leaves due nowNs storage table.sessions (sweep due nowNs storage table).1.sessions
      (sweep due nowNs storage table).2 := by
  induction storage generalizing table with
  | nil =>
      refine ⟨fun j => ?_, rfl⟩
      simp [SessionTable.sweep]
  | cons i rest ih =>
      obtain ⟨fresh, restNodup⟩ := List.nodup_cons.mp nodup
      unfold SessionTable.sweep
      cases here : table.sessions[i]? with
      | none =>
          exact (ih table restNodup).pass fun session found => by
            rw [here] at found
            cases found
      | some session =>
          cases isDue : session.active && due session with
          | false =>
              have skip : (!session.active || !due session) = true := by
                rw [← Bool.not_and, isDue]
                rfl
              simp only [skip, if_true]
              refine (ih table restNodup).pass fun session' found => ?_
              rw [here] at found
              cases found
              exact isDue
          | true =>
              have take : (!session.active || !due session) = false := by
                rw [← Bool.not_and, isDue]
                rfl
              have closed := (table.closeSession_keeps i session nowNs).1
              simp only [take, Bool.false_eq_true, if_false]
              have later := ih (table.closeSession i session nowNs).1 restNodup
              rw [closed] at later
              exact later.close here isDue fresh

/-- What a sweep of the given storage does. -/
structure Swept (due : Session D → Bool) (nowNs : UInt64) (storage : List Nat)
    (table swept : SessionTable D) (events : List ChunkEvent) : Prop where
  ok : swept.Ok
  sessions : ∀ j, swept.sessions[j]? = table.sessions[j]?.map fun session =>
    if j ∈ storage then session.swept due nowNs else session
  events_eq : events =
    storage.filterMap fun i => table.sessions[i]?.bind (Session.sweptTail due nowNs)
  maxSessions : swept.maxSessions = table.maxSessions
  peakLive : swept.peakLive = table.peakLive
  opened : swept.opened = table.opened
  rejected : swept.rejected = table.rejected

/-- A sweep keeps the invariant and the counters. -/
theorem Ok.sweep_keeps (ok : table.Ok) (due : Session D → Bool) (nowNs : UInt64)
    (storage : List Nat) :
    (SessionTable.sweep due nowNs storage table).1.Ok ∧
      (SessionTable.sweep due nowNs storage table).1.maxSessions = table.maxSessions ∧
      (SessionTable.sweep due nowNs storage table).1.peakLive = table.peakLive ∧
      (SessionTable.sweep due nowNs storage table).1.opened = table.opened ∧
      (SessionTable.sweep due nowNs storage table).1.rejected = table.rejected := by
  induction storage generalizing table with
  | nil => exact ⟨ok, rfl, rfl, rfl, rfl⟩
  | cons i rest ih =>
      unfold SessionTable.sweep
      cases here : table.sessions[i]? with
      | none => exact ih ok
      | some session =>
          cases active : session.active with
          | false =>
              simp only [active, Bool.not_false, Bool.true_or, if_true]
              exact ih ok
          | true =>
              dsimp only
              split
              · exact ih ok
              · obtain ⟨closed, step, closedOk, -, maxSessions, peakLive, opened, rejected⟩ :=
                  ok.closeSession here active nowNs
                rw [step, ← maxSessions, ← peakLive, ← opened, ← rejected]
                exact ih closedOk

/-- Run lemma: a sweep closes each due session of its storage once. -/
theorem Ok.sweep (ok : table.Ok) (due : Session D → Bool) (nowNs : UInt64) {storage : List Nat}
    (nodup : storage.Nodup) :
    Swept due nowNs storage table (sweep due nowNs storage table).1
      (sweep due nowNs storage table).2 := by
  obtain ⟨sweptOk, maxSessions, peakLive, opened, rejected⟩ := ok.sweep_keeps due nowNs storage
  have leaves := table.sweep_leaves due nowNs nodup
  exact ⟨sweptOk, leaves.sessions, leaves.events_eq, maxSessions, peakLive, opened, rejected⟩

/-! ## Rebuilding -/

/-- The table with other slots, as a rebuild leaves it. -/
def withSlots (table : SessionTable D) (slots : List Nat) : SessionTable D :=
  { table with slots := slots, tombstones := 0 }

/-- What holds while a rebuild has entered the storage `done`. -/
structure Rebuilding (table : SessionTable D) (slots : List Nat) (done : Finset Nat) : Prop where
  length : slots.length = table.slotMask + 1
  linked : Linked (table.slotMask + 1) (table.withSlots slots).view table.home done
  noTombstone : kTombstone ∉ slots
  within : done ⊆ table.openStorage

theorem Ok.rebuilding_cleared (ok : table.Ok) :
    Rebuilding table (List.replicate table.slots.length kEmpty) ∅ := by
  refine ⟨?_, ?_, ?_, Finset.empty_subset _⟩
  · rw [List.length_replicate, ok.slotsLength]
  · refine (linked_empty (table.slotMask + 1) table.home).congr_slots fun p inside => ?_
    have blank : (List.replicate table.slots.length kEmpty)[p]? = some kEmpty := by
      rw [List.getElem?_replicate, if_pos (by rw [ok.slotsLength]; exact inside)]
    simp only [view, slotAt, withSlots, blank]
    rfl
  · intro member
    have contrary := List.eq_of_mem_replicate member
    cases contrary

section

variable {slots : List Nat} {done : Finset Nat}

/-- A rebuild always has an empty slot left for the next session. -/
theorem Rebuilding.exists_empty (rebuilding : Rebuilding table slots done) (ok : table.Ok) :
    ∃ p < table.slotMask + 1, (table.withSlots slots).view p = .empty := by
  have few : done.card < table.slotMask + 1 := by
    have within := Finset.card_le_card rebuilding.within
    have bound := ok.card_le
    have roomy := ok.roomy
    have positive := ok.positive
    omega
  obtain ⟨p, inside, vacant⟩ := rebuilding.linked.exists_vacant few
  refine ⟨p, inside, ?_⟩
  have present : p < slots.length := by
    rw [rebuilding.length]
    exact inside
  have word : (table.withSlots slots).slotAt p = slots[p] := by
    simp [slotAt, withSlots, present]
  rw [view, word] at vacant ⊢
  by_cases empty : slots[p] = kEmpty
  · rw [empty]
    rfl
  · by_cases tombstone : slots[p] = kTombstone
    · exact absurd (tombstone ▸ List.getElem_mem present) rebuilding.noTombstone
    · exact absurd (by simp [slotOfWord, empty, tombstone]) (vacant slots[p])

theorem probeStart_withSlots (id : UInt32) :
    (table.withSlots slots).probeStart id = table.probeStart id :=
  rfl

/-- The inner loop of a rebuild terminates, at an empty slot within reach. -/
theorem Rebuilding.placeSlot (rebuilding : Rebuilding table slots done) (ok : table.Ok)
    {i : Nat} (opened : i ∈ table.openStorage) (fresh : i ∉ done) :
    ∃ p, (table.withSlots slots).placeSlot (table.idAt i) = some p ∧
      Rebuilding table (slots.set p i) (insert i done) := by
  have inside := ok.lt_max opened
  obtain ⟨p, pInside, empty⟩ := rebuilding.exists_empty ok
  obtain ⟨k, short, here, crossed⟩ := exists_first_empty pInside empty (table.home i)
  have wraps : ∀ p < table.slotMask + 1,
      (table.withSlots slots).nextSlot p = (p + 1) % (table.slotMask + 1) :=
    fun p _ => ok.nextSlot_eq p
  have passed : ∀ j < k,
      (table.withSlots slots).placeTest ((table.home i + j) % (table.slotMask + 1)) = none := by
    intro j before
    exact if_neg fun same => crossed j before (slotOfWord_eq_empty.mpr same)
  have stop : (table.withSlots slots).placeTest ((table.home i + k) % (table.slotMask + 1)) =
      some ((table.home i + k) % (table.slotMask + 1)) :=
    if_pos (slotOfWord_eq_empty.mp here)
  have found := scan_spec wraps (table.home_lt i) short passed stop
  have slotInside : (table.home i + k) % (table.slotMask + 1) < slots.length := by
    rw [rebuilding.length]
    exact Nat.mod_lt _ (Nat.succ_pos _)
  refine ⟨(table.home i + k) % (table.slotMask + 1), ?_, ?_, ?_, ?_, ?_⟩
  · rw [SessionTable.placeSlot, probeStart_withSlots, ← home]
    exact found
  · rw [List.length_set, rebuilding.length]
  · have written :
        (table.withSlots (slots.set ((table.home i + k) % (table.slotMask + 1)) i)).slots =
        (table.withSlots slots).slots.set ((table.home i + k) % (table.slotMask + 1)) i := rfl
    rw [view_of_set written slotInside, ok.view_index inside]
    exact rebuilding.linked.insert fresh short crossed (by simp [here])
  · intro member
    rcases List.mem_or_eq_of_mem_set member with old | new
    · exact rebuilding.noTombstone old
    · exact ok.ne_kTombstone inside new.symm
  · exact Finset.insert_subset opened rebuilding.within

/-- Storage that is not open is not among what is left to enter. -/
theorem filter_of_closed {storage : Finset Nat} {i : Nat} {rest : List Nat} (closed : i ∉ storage) :
    storage.filter (· ∈ i :: rest) = storage.filter (· ∈ rest) := by
  ext j
  rw [Finset.mem_filter, Finset.mem_filter, List.mem_cons]
  constructor
  · rintro ⟨opened, rfl | listed⟩
    · exact absurd opened closed
    · exact ⟨opened, listed⟩
  · rintro ⟨opened, listed⟩
    exact ⟨opened, Or.inr listed⟩

theorem union_filter_of_open {storage done : Finset Nat} {i : Nat} {rest : List Nat}
    (opened : i ∈ storage) :
    done ∪ storage.filter (· ∈ i :: rest) = insert i done ∪ storage.filter (· ∈ rest) := by
  ext j
  simp only [Finset.mem_union, Finset.mem_filter, List.mem_cons, Finset.mem_insert]
  constructor
  · rintro (old | ⟨jOpen, rfl | listed⟩)
    · exact Or.inl (Or.inr old)
    · exact Or.inl (Or.inl rfl)
    · exact Or.inr ⟨jOpen, listed⟩
  · rintro ((rfl | old) | ⟨jOpen, listed⟩)
    · exact Or.inr ⟨opened, Or.inl rfl⟩
    · exact Or.inl old
    · exact Or.inr ⟨jOpen, Or.inr listed⟩

/-- The outer loop of a rebuild enters every session that is left. -/
theorem Rebuilding.rebuildFrom (rebuilding : Rebuilding table slots done) (ok : table.Ok)
    {storage : List Nat} (nodup : storage.Nodup) (fresh : ∀ i ∈ storage, i ∉ done) :
    ∃ slots', rebuildFrom storage (table.withSlots slots) = some (table.withSlots slots') ∧
      Rebuilding table slots' (done ∪ table.openStorage.filter (· ∈ storage)) := by
  induction storage generalizing slots done with
  | nil => exact ⟨slots, rfl, by simpa using rebuilding⟩
  | cons i rest ih =>
      obtain ⟨iFresh, restNodup⟩ := List.nodup_cons.mp nodup
      have restFresh : ∀ j ∈ rest, j ∉ done := fun j listed =>
        fresh j (List.mem_cons_of_mem i listed)
      have skipped : i ∉ table.openStorage → ∃ slots',
          SessionTable.rebuildFrom rest (table.withSlots slots) =
            some (table.withSlots slots') ∧
          Rebuilding table slots' (done ∪ table.openStorage.filter (· ∈ i :: rest)) := by
        intro closed
        rw [filter_of_closed closed]
        exact ih rebuilding restNodup restFresh
      unfold SessionTable.rebuildFrom
      have sessions : (table.withSlots slots).sessions = table.sessions := rfl
      rw [sessions]
      cases here : table.sessions[i]? with
      | none =>
          refine skipped fun opened => ?_
          obtain ⟨session, found, -⟩ := mem_openStorage.mp opened
          rw [here] at found
          cases found
      | some session =>
          cases active : session.active with
          | false =>
              simp only [active, Bool.false_eq_true, if_false]
              refine skipped fun opened => ?_
              obtain ⟨session', found, active'⟩ := mem_openStorage.mp opened
              rw [here] at found
              cases found
              rw [active] at active'
              cases active'
          | true =>
              have opened := mem_openStorage.mpr ⟨session, here, active⟩
              obtain ⟨p, placed, entered⟩ := rebuilding.placeSlot ok opened
                (fresh i (List.mem_cons_self ..))
              rw [idAt_of_getElem? here] at placed
              have stillFresh : ∀ j ∈ rest, j ∉ insert i done := by
                intro j listed member
                rcases Finset.mem_insert.mp member with rfl | old
                · exact iFresh listed
                · exact restFresh j listed old
              simp only [active, if_true, placed]
              rw [union_filter_of_open opened]
              exact ih entered restNodup stillFresh

end

theorem rebuildFrom_keeps {storage : List Nat} {next : SessionTable D}
    (rebuilt : rebuildFrom storage table = some next) :
    next.sessions = table.sessions ∧ next.freeList = table.freeList ∧
      next.maxSessions = table.maxSessions ∧ next.tombstones = table.tombstones := by
  induction storage generalizing table with
  | nil =>
      cases rebuilt
      exact ⟨rfl, rfl, rfl, rfl⟩
  | cons i rest ih =>
      unfold rebuildFrom at rebuilt
      split at rebuilt
      · exact ih rebuilt
      · split at rebuilt
        · split at rebuilt
          · cases rebuilt
          · have kept := ih rebuilt
            exact kept
        · exact ih rebuilt

theorem maybeRebuild_keeps {next : SessionTable D} (rebuilt : table.maybeRebuild = some next) :
    next.sessions = table.sessions ∧ next.freeList = table.freeList ∧
      next.maxSessions = table.maxSessions := by
  unfold maybeRebuild at rebuilt
  split at rebuilt
  · cases rebuilt
    exact ⟨rfl, rfl, rfl⟩
  · obtain ⟨sessions, freeList, maxSessions, -⟩ := rebuildFrom_keeps rebuilt
    exact ⟨sessions, freeList, maxSessions⟩

/-- What a sweep with its rebuild leaves of the sessions. -/
theorem leaves_of_sweepAll {due : Session D → Bool} {nowNs : UInt64} {next : SessionTable D}
    {events : List ChunkEvent} (returned : sweepAll due table nowNs = some (next, events)) :
    Leaves due nowNs (List.range table.maxSessions) table.sessions next.sessions events := by
  obtain ⟨rebuilt, same, pair⟩ := Option.map_eq_some_iff.mp returned
  cases pair
  have kept := (maybeRebuild_keeps same).1
  rw [kept]
  exact table.sweep_leaves due nowNs List.nodup_range

theorem maxSessions_sweep (due : Session D → Bool) (nowNs : UInt64) (storage : List Nat)
    (table : SessionTable D) :
    (sweep due nowNs storage table).1.maxSessions = table.maxSessions := by
  induction storage generalizing table with
  | nil => rfl
  | cons i rest ih =>
      unfold SessionTable.sweep
      cases table.sessions[i]? with
      | none => exact ih table
      | some session =>
          dsimp only
          split
          · exact ih table
          · refine (ih _).trans ?_
            unfold closeSession release
            dsimp only
            split <;> rfl

theorem maxSessions_sweepAll {due : Session D → Bool} {nowNs : UInt64} {next : SessionTable D}
    {events : List ChunkEvent} (returned : sweepAll due table nowNs = some (next, events)) :
    next.maxSessions = table.maxSessions := by
  obtain ⟨rebuilt, same, pair⟩ := Option.map_eq_some_iff.mp returned
  cases pair
  exact (maybeRebuild_keeps same).2.2.trans (maxSessions_sweep due nowNs _ table)

/-- A rebuild, if one is due, terminates and moves only slots. -/
theorem Ok.maybeRebuild (ok : table.Ok) :
    ∃ slots tombstones, table.maybeRebuild =
        some { table with slots := slots, tombstones := tombstones } ∧
      ({ table with slots := slots, tombstones := tombstones } : SessionTable D).Ok := by
  unfold SessionTable.maybeRebuild
  by_cases few : table.tombstones * 4 ≤ table.slots.length
  · rw [if_pos few]
    exact ⟨table.slots, table.tombstones, rfl, ok⟩
  · rw [if_neg few]
    obtain ⟨slots, run, rebuilt⟩ := ok.rebuilding_cleared.rebuildFrom ok
      List.nodup_range (fun _ _ absent => by simp at absent)
    have all : (∅ : Finset Nat) ∪ table.openStorage.filter (· ∈ List.range table.maxSessions) =
        table.openStorage := by
      rw [Finset.empty_union, Finset.filter_eq_self]
      intro i opened
      exact List.mem_range.mpr (ok.lt_max opened)
    rw [all] at rebuilt
    refine ⟨slots, 0, run, ok.positive, ok.small, ok.power, ok.roomy, rebuilt.length,
      ok.sessionsLength, rebuilt.linked, ok.ids, ok.freeNodup, ok.free, ?_, ok.live⟩
    exact (List.count_eq_zero.mpr rebuilt.noTombstone).symm

/-- A sweep with its rebuild returns, and the rebuild changes nothing that the sweep leaves. -/
theorem Ok.sweepAll (ok : table.Ok) (due : Session D → Bool) (nowNs : UInt64) :
    ∃ next events, SessionTable.sweepAll due table nowNs = some (next, events) ∧
      Swept due nowNs (List.range table.maxSessions) table next events := by
  have done := ok.sweep due nowNs (List.nodup_range (n := table.maxSessions))
  obtain ⟨slots, tombstones, rebuilt, rebuiltOk⟩ := done.ok.maybeRebuild
  refine ⟨_, _, ?_, rebuiltOk, done.sessions, done.events_eq, done.maxSessions, done.peakLive,
    done.opened, done.rejected⟩
  unfold SessionTable.sweepAll
  dsimp only
  rw [rebuilt]
  rfl

end

end SessionTable

end VoiceHotPath
