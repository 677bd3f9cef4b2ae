import VoiceHotPath.Session.Acquire

/-!
# Releasing sessions and rebuilding the table

A release finds the slot of its storage and leaves a tombstone.  A sweep closes
every due session once, in storage order, and the rebuild that may follow only
moves the storage that is left to other slots.
-/

namespace VoiceHotPath

open LinearProbing

namespace Session

section

variable {D : Type}

/-- A session after its chunk is flushed and its storage released. -/
def closed (nowNs : UInt64) (session : Session D) : Session D :=
  { session.flushed nowNs with active := false }

/-- The event of the chunk that a closing session had open, if it had one. -/
def tail (nowNs : UInt64) (session : Session D) : Option ChunkEvent :=
  (session.assembler.flush nowNs).2.map fun event => { event with sessionId := session.id }

/-- A session after a sweep has passed it. -/
def swept (due : Session D → Bool) (nowNs : UInt64) (session : Session D) : Session D :=
  if session.active && due session then session.closed nowNs else session

/-- The event a sweep emits for a session. -/
def sweptTail (due : Session D → Bool) (nowNs : UInt64) (session : Session D) :
    Option ChunkEvent :=
  if session.active && due session then session.tail nowNs else none

theorem swept_of_due {due : Session D → Bool} {session : Session D}
    (isDue : (session.active && due session) = true) (nowNs : UInt64) :
    session.swept due nowNs = session.closed nowNs := by
  rw [swept, if_pos isDue]

theorem swept_of_not_due {due : Session D → Bool} {session : Session D}
    (notDue : (session.active && due session) = false) (nowNs : UInt64) :
    session.swept due nowNs = session := by
  rw [swept, notDue]
  rfl

theorem id_swept (due : Session D → Bool) (nowNs : UInt64) (session : Session D) :
    (session.swept due nowNs).id = session.id := by
  unfold Session.swept
  split <;> rfl

theorem active_swept (due : Session D → Bool) (nowNs : UInt64) (session : Session D) :
    (session.swept due nowNs).active = (session.active && !due session) := by
  unfold Session.swept
  cases active : session.active <;> cases isDue : due session <;> simp [Session.closed, active]

end

end Session

namespace SessionTable

section

variable {D : Type} {table : SessionTable D}

/-- Whatever slot it finds, a release closes the session and frees its storage. -/
theorem release_keeps (table : SessionTable D) (i : Nat) (id : UInt32) :
    (table.release i id).sessions =
        table.sessions.modify i (fun session => { session with active := false }) ∧
      (table.release i id).freeList = i :: table.freeList := by
  unfold release
  cases table.releaseSlot i id <;> exact ⟨rfl, rfl⟩

theorem closeSession_keeps (table : SessionTable D) (i : Nat) (session : Session D)
    (nowNs : UInt64) :
    (table.closeSession i session nowNs).1.sessions =
        table.sessions.modify i (Session.closed nowNs) ∧
      (table.closeSession i session nowNs).1.freeList = i :: table.freeList := by
  obtain ⟨sessions, freeList⟩ :=
    (table.modifySession i (Session.flushed nowNs)).release_keeps i session.id
  exact ⟨sessions.trans (List.modify_modify_eq ..), freeList⟩

/-- The probe of `release` ends at the slot of its storage. -/
theorem Ok.releaseSlot_eq (ok : table.Ok) {i : Nat} (opened : i ∈ table.openStorage) :
    ∃ p < table.slots.length, table.slotAt p = i ∧
      table.releaseSlot i (table.idAt i) = some p := by
  have wraps : ∀ p < table.slotMask + 1, table.nextSlot p = (p + 1) % (table.slotMask + 1) :=
    fun p _ => ok.nextSlot_eq p
  have inside := ok.lt_max opened
  obtain ⟨k, short, here, crossed⟩ := ok.linked.placed i opened
  have word : table.slotAt ((table.home i + k) % (table.slotMask + 1)) = i :=
    slotOfWord_eq_full here
  have passed : ∀ j < k,
      table.releaseTest i ((table.home i + j) % (table.slotMask + 1)) = none := by
    intro j before
    have notEmpty : table.slotAt ((table.home i + j) % (table.slotMask + 1)) ≠ kEmpty :=
      fun empty => crossed j before (slotOfWord_eq_empty.mpr empty)
    have notHere : table.slotAt ((table.home i + j) % (table.slotMask + 1)) ≠ i := by
      intro same
      have there : table.view ((table.home i + j) % (table.slotMask + 1)) = .full i := by
        rw [view, same, ok.view_index inside]
      have step := ok.linked.once _ (Nat.mod_lt _ (Nat.succ_pos _)) _
        (Nat.mod_lt _ (Nat.succ_pos _)) i there here
      have equal := step_injective (Nat.lt_trans before short) short step
      omega
    simp [releaseTest, notEmpty, notHere]
  have stop : table.releaseTest i ((table.home i + k) % (table.slotMask + 1)) =
      some (some ((table.home i + k) % (table.slotMask + 1))) := by
    simp [releaseTest, word]
  have found := scan_spec wraps (table.home_lt i) short passed stop
  refine ⟨_, ?_, word, ?_⟩
  · rw [ok.slotsLength]
    exact Nat.mod_lt _ (Nat.succ_pos _)
  · rw [releaseSlot, ← home, found, Option.join_some]

/-- The table after a tombstone in `slot` and the return of storage `index`. -/
def freed (table : SessionTable D) (slot index : Nat) : SessionTable D :=
  { table with
    slots := table.slots.set slot kTombstone
    tombstones := table.tombstones + 1
    sessions := table.sessions.modify index fun session => { session with active := false }
    freeList := index :: table.freeList
    live := table.live - 1 }

theorem Ok.release_eq (ok : table.Ok) {i : Nat} (opened : i ∈ table.openStorage) :
    ∃ p < table.slots.length, table.slotAt p = i ∧
      table.release i (table.idAt i) = table.freed p i := by
  obtain ⟨p, inside, word, found⟩ := ok.releaseSlot_eq opened
  refine ⟨p, inside, word, ?_⟩
  rw [release, found]
  rfl

/-- What freeing storage does to the sessions. -/
theorem openStorage_freed {i : Nat} (opened : i ∈ table.openStorage) (p : Nat) :
    (table.freed p i).openStorage = table.openStorage.erase i ∧
      (table.freed p i).idAt = table.idAt := by
  obtain ⟨session, before, -⟩ := mem_openStorage.mp opened
  have edited : (table.freed p i).sessions =
      table.sessions.modify i fun session => { session with active := false } := rfl
  have after := getElem?_of_modify edited before
  constructor
  · ext j
    rw [Finset.mem_erase]
    by_cases same : j = i
    · subst same
      simp only [ne_eq, not_true_eq_false, false_and, iff_false]
      intro contrary
      obtain ⟨session', here, active⟩ := mem_openStorage.mp contrary
      rw [after] at here
      cases here
      cases active
    · rw [activeAt_of_modify edited same]
      simp [same]
  · funext j
    by_cases same : j = i
    · subst same
      rw [idAt_of_getElem? after, idAt_of_getElem? before]
    · exact idAt_of_modify edited same

/-- Freeing open storage in its slot keeps the invariant. -/
theorem Ok.freed (ok : table.Ok) {p i : Nat} (opened : i ∈ table.openStorage)
    (slotInside : p < table.slots.length) (word : table.slotAt p = i) :
    (table.freed p i).Ok := by
  obtain ⟨storage, ids⟩ := openStorage_freed opened p
  have inside := ok.lt_max opened
  have written : (table.freed p i).slots = table.slots.set p kTombstone := rfl
  have view : (table.freed p i).view = Function.update table.view p .tombstone :=
    view_of_set written slotInside
  have homes : (table.freed p i).home = table.home := by
    funext j
    rw [home, ids]
    rfl
  refine ⟨ok.positive, ok.small, ok.power, ok.roomy, ?_, ?_, ?_, ?_, ?_, ?_, ?_, ?_⟩
  · exact (List.length_set ..).trans ok.slotsLength
  · exact (List.length_modify ..).trans ok.sessionsLength
  · rw [storage, view, homes]
    refine ok.linked.erase ?_ ?_
    · exact Nat.lt_of_lt_of_eq slotInside ok.slotsLength
    · rw [SessionTable.view, word, ok.view_index inside]
  · rw [storage, ids]
    intro j jOpen l lOpen same
    exact ok.ids j (Finset.mem_of_mem_erase jOpen) l (Finset.mem_of_mem_erase lOpen) same
  · refine List.nodup_cons.mpr ⟨fun listed => ?_, ok.freeNodup⟩
    exact ((ok.free i).mp listed).2 opened
  · intro j
    change j ∈ i :: table.freeList ↔ j < table.maxSessions ∧ _
    rw [storage, List.mem_cons, ok.free, Finset.mem_erase]
    by_cases same : j = i
    · subst same
      simp [inside]
    · simp [same]
  · change table.tombstones + 1 = (table.slots.set p kTombstone).count kTombstone
    have index : (i == kTombstone) = false := beq_false_of_ne (ok.ne_kTombstone inside)
    rw [List.count_set slotInside, slotAt_eq slotInside, word, index, ok.tombstones]
    simp
  · rw [storage, Finset.card_erase_of_mem opened]
    exact congrArg (· - 1) ok.live

/-! ## Closing one session -/

/-- What closing an open session does. -/
theorem Ok.closeSession (ok : table.Ok) {i : Nat} {session : Session D}
    (here : table.sessions[i]? = some session) (active : session.active = true)
    (nowNs : UInt64) :
    ∃ closed, table.closeSession i session nowNs =
        (closed, (session.tail nowNs).toList) ∧ closed.Ok ∧
      closed.sessions = table.sessions.modify i (Session.closed nowNs) ∧
      closed.maxSessions = table.maxSessions ∧ closed.peakLive = table.peakLive ∧
      closed.opened = table.opened ∧ closed.rejected = table.rejected := by
  have opened := mem_openStorage.mpr ⟨session, here, active⟩
  obtain ⟨kept, storage, ids⟩ :=
    ok.modifySession i (Session.flushed nowNs) (fun _ => rfl) (fun _ => rfl)
  have still : i ∈ (table.modifySession i (Session.flushed nowNs)).openStorage :=
    storage.symm ▸ opened
  obtain ⟨p, inside, word, released⟩ := kept.release_eq still
  rw [ids, idAt_of_getElem? here] at released
  refine ⟨(table.modifySession i (Session.flushed nowNs)).freed p i, ?_,
    kept.freed still inside word, ?_, rfl, rfl, rfl, rfl⟩
  · rw [SessionTable.closeSession, released]
    rfl
  · exact List.modify_modify_eq ..

end

end SessionTable

end VoiceHotPath
