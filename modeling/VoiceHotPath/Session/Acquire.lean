import VoiceHotPath.Session.Invariant

/-!
# Acquiring a session

Acquiring returns the session open for the call, or opens one on storage from
the free list, or refuses when all storage is taken.  Each outcome keeps the
invariant.
-/

namespace VoiceHotPath

open LinearProbing

namespace SessionTable

section

variable {D : Type} {table : SessionTable D}

/-- Storage that the probe loop finds serves the call. -/
theorem serves_of_found {id : UInt32} {fuel slot i : Nat} {firstTomb : Option Nat}
    (found : table.acquireLoop id fuel slot firstTomb = .found i) : table.serves id i = true := by
  induction fuel generalizing slot firstTomb with
  | zero => cases found
  | succ fuel ih =>
      rw [acquireLoop] at found
      split at found
      · cases found
      · split at found
        · exact ih found
        · split at found
          · cases found
            assumption
          · exact ih found

/-- The three outcomes of an acquire, guards included. -/
theorem acquire_cases (table : SessionTable D) (id : UInt32) (nowNs : UInt64) :
    (∃ i, table.serves id i = true ∧
        table.acquire id nowNs = (table.modifySession i (Session.stamp nowNs), some i)) ∨
      table.acquire id nowNs = (table.reject, none) ∨
      ∃ p i rest, table.freeList = i :: rest ∧
        table.acquire id nowNs = (table.openSession id nowNs p i rest, some i) := by
  unfold acquire
  split
  · exact .inl ⟨_, serves_of_found ‹_›, rfl⟩
  · exact .inr (.inl rfl)
  · split
    · exact .inr (.inl rfl)
    · rename_i i rest free
      exact .inr (.inr ⟨_, i, rest, free, rfl⟩)

theorem maxSessions_acquire (table : SessionTable D) (id : UInt32) (nowNs : UInt64) :
    (table.acquire id nowNs).1.maxSessions = table.maxSessions := by
  rcases table.acquire_cases id nowNs with ⟨i, -, same⟩ | same | ⟨p, i, rest, -, same⟩
  · rw [same]
    rfl
  · rw [same]
    rfl
  · rw [same]
    rfl

theorem Ok.reject (ok : table.Ok) : table.reject.Ok :=
  ⟨ok.positive, ok.small, ok.power, ok.roomy, ok.slotsLength, ok.sessionsLength, ok.linked,
    ok.ids, ok.freeNodup, ok.free, ok.tombstones, ok.live⟩

/-- The table never runs out of slots: all of them full would exceed the storage. -/
theorem Ok.not_crowded (ok : table.Ok) :
    ¬ ∀ p < table.slotMask + 1, ∃ i, table.view p = .full i := by
  intro crowded
  have few : table.openStorage.card < table.slotMask + 1 := by
    have bound := ok.card_le
    have roomy := ok.roomy
    have positive := ok.positive
    omega
  obtain ⟨p, inside, vacant⟩ := ok.linked.exists_vacant few
  obtain ⟨i, full⟩ := crowded p inside
  exact vacant i full

/-- The three outcomes of `acquire`, guards included. -/
theorem Ok.acquire_cases (ok : table.Ok) (id : UInt32) (nowNs : UInt64) :
    (∃ i ∈ table.openStorage, table.idAt i = id ∧
      table.acquire id nowNs = (table.modifySession i (Session.stamp nowNs), some i)) ∨
    ((∀ i ∈ table.openStorage, table.idAt i ≠ id) ∧
      table.openStorage.card = table.maxSessions ∧
      table.acquire id nowNs = (table.reject, none)) ∨
    ((∀ i ∈ table.openStorage, table.idAt i ≠ id) ∧
      table.openStorage.card < table.maxSessions ∧
      ∃ p i rest, table.freeList = i :: rest ∧
        Reached (table.slotMask + 1) table.view (table.probeStart id) p ∧
        table.acquire id nowNs = (table.openSession id nowNs p i rest, some i)) := by
  have wraps : ∀ p < table.slotMask + 1, table.nextSlot p = (p + 1) % (table.slotMask + 1) :=
    fun p _ => ok.nextSlot_eq p
  have probed : Probed (table.slotMask + 1) table.view (table.serves id) (table.probeStart id)
      (probe table.nextSlot table.view (table.serves id) (table.slotMask + 1)
        (table.probeStart id) none) := probe_spec wraps (table.probeStart_lt id)
  have absent : Missed (table.slotMask + 1) table.view (table.serves id) (table.probeStart id) →
      ∀ i ∈ table.openStorage, table.idAt i ≠ id := by
    intro missed i opened same
    have home : table.home i = table.probeStart id := by rw [home, same]
    have unserved := ok.linked.missed missed opened home
    rw [serves_eq_true.mpr ⟨opened, same⟩] at unserved
    cases unserved
  have length := ok.length_freeList
  unfold acquire
  rw [acquireLoop_eq_probe]
  cases outcome : probe table.nextSlot table.view (table.serves id) (table.slotMask + 1)
      (table.probeStart id) none with
  | found i =>
      rw [outcome] at probed
      obtain ⟨opened, same⟩ := serves_eq_true.mp probed.1
      exact Or.inl ⟨i, opened, same, rfl⟩
  | vacant slot =>
      rw [outcome] at probed
      cases slot with
      | none => exact absurd probed.1 ok.not_crowded
      | some p =>
          cases free : table.freeList with
          | nil =>
              rw [free, List.length_nil, Nat.zero_add] at length
              exact Or.inr (Or.inl ⟨absent probed.2, length, rfl⟩)
          | cons i rest =>
              rw [free, List.length_cons] at length
              exact Or.inr (Or.inr ⟨absent probed.2, by omega, p, i, rest, rfl, probed.1, rfl⟩)

theorem Ok.stamp (ok : table.Ok) (index : Nat) (nowNs : UInt64) :
    (table.modifySession index (Session.stamp nowNs)).Ok :=
  (ok.modifySession index (Session.stamp nowNs) (fun _ => rfl) (fun _ => rfl)).1

/-- What opening a session does to the storage. -/
theorem openStorage_openSession (ok : table.Ok) {id : UInt32} {nowNs : UInt64} {p i : Nat}
    {rest : List Nat} (free : table.freeList = i :: rest) :
    (table.openSession id nowNs p i rest).openStorage = insert i table.openStorage ∧
      (table.openSession id nowNs p i rest).idAt = Function.update table.idAt i id := by
  have edited : (table.openSession id nowNs p i rest).sessions =
      table.sessions.modify i (Session.openFor id nowNs) := rfl
  have inside : i < table.sessions.length := by
    rw [ok.sessionsLength]
    exact ((ok.free i).mp (by simp [free])).1
  have here := getElem?_of_modify edited (List.getElem?_eq_getElem inside)
  constructor
  · ext j
    rw [Finset.mem_insert]
    by_cases same : j = i
    · subst same
      simp only [true_or, iff_true]
      exact mem_openStorage.mpr ⟨_, here, rfl⟩
    · rw [activeAt_of_modify edited same]
      simp [same]
  · funext j
    by_cases same : j = i
    · subst same
      rw [Function.update_self, idAt_of_getElem? here]
      rfl
    · rw [Function.update_of_ne same, idAt_of_modify edited same]

/-- Opening a session in a reached slot keeps the invariant. -/
theorem Ok.openSession (ok : table.Ok) {id : UInt32} (nowNs : UInt64) {p i : Nat}
    {rest : List Nat} (unserved : ∀ j ∈ table.openStorage, table.idAt j ≠ id)
    (free : table.freeList = i :: rest)
    (reached : Reached (table.slotMask + 1) table.view (table.probeStart id) p) :
    (table.openSession id nowNs p i rest).Ok := by
  have opening : (table.openSession id nowNs p i rest).openStorage =
        insert i table.openStorage ∧
      (table.openSession id nowNs p i rest).idAt = Function.update table.idAt i id :=
    openStorage_openSession ok free
  obtain ⟨storage, ids⟩ := opening
  obtain ⟨k, short, here, crossed, vacant⟩ := reached
  obtain ⟨inside, fresh⟩ := (ok.free i).mp (by simp [free])
  have nodup := ok.freeNodup
  rw [free] at nodup
  obtain ⟨notRest, restNodup⟩ := List.nodup_cons.mp nodup
  have slotInside : p < table.slots.length := by
    rw [ok.slotsLength, here]
    exact Nat.mod_lt _ (Nat.succ_pos _)
  have view : (table.openSession id nowNs p i rest).view =
      Function.update table.view p (.full i) := by
    rw [← ok.view_index inside]
    exact view_of_set rfl slotInside
  have homeNew : (table.openSession id nowNs p i rest).home i = table.probeStart id := by
    rw [home, ids, Function.update_self]
    rfl
  have homes : ∀ j ∈ table.openStorage,
      (table.openSession id nowNs p i rest).home j = table.home j := by
    intro j opened
    have apart : j ≠ i := fun same => fresh (same ▸ opened)
    rw [home, ids, Function.update_of_ne apart]
    rfl
  refine ⟨ok.positive, ok.small, ok.power, ok.roomy, ?_, ?_, ?_, ?_, restNodup, ?_, ?_, ?_⟩
  · exact (List.length_set ..).trans ok.slotsLength
  · exact (List.length_modify ..).trans ok.sessionsLength
  · rw [storage, view]
    have linked := (ok.linked.congr_home homes).insert fresh short
    rw [homeNew, ← here] at linked
    exact linked crossed vacant
  · rw [storage, ids]
    intro j jOpen l lOpen same
    rcases Finset.mem_insert.mp jOpen with rfl | jOld
    · rcases Finset.mem_insert.mp lOpen with rfl | lOld
      · rfl
      · have apart : l ≠ j := fun same => fresh (same ▸ lOld)
        rw [Function.update_self, Function.update_of_ne apart] at same
        exact absurd same.symm (unserved l lOld)
    · have jApart : j ≠ i := fun same => fresh (same ▸ jOld)
      rcases Finset.mem_insert.mp lOpen with rfl | lOld
      · rw [Function.update_self, Function.update_of_ne jApart] at same
        exact absurd same (unserved j jOld)
      · have lApart : l ≠ i := fun same => fresh (same ▸ lOld)
        rw [Function.update_of_ne jApart, Function.update_of_ne lApart] at same
        exact ok.ids j jOld l lOld same
  · intro j
    have before := ok.free j
    rw [free, List.mem_cons] at before
    rw [storage, Finset.mem_insert]
    change j ∈ rest ↔ j < table.maxSessions ∧ _
    by_cases same : j = i
    · subst same
      simp [notRest]
    · simpa [same] using before
  · change (if table.slotAt p = kTombstone then table.tombstones - 1 else table.tombstones) =
      (table.slots.set p i).count kTombstone
    have index : (i == kTombstone) = false := beq_false_of_ne (ok.ne_kTombstone inside)
    rw [List.count_set slotInside, slotAt_eq slotInside, ok.tombstones, index]
    by_cases tombstone : table.slotAt p = kTombstone <;> simp [tombstone]
  · rw [storage, Finset.card_insert_of_notMem fresh]
    exact congrArg (· + 1) ok.live

/-- Step lemma: `acquire` keeps the invariant. -/
theorem Ok.acquire (ok : table.Ok) (id : UInt32) (nowNs : UInt64) :
    (table.acquire id nowNs).1.Ok := by
  rcases ok.acquire_cases id nowNs with
    ⟨i, -, -, same⟩ | ⟨-, -, same⟩ | ⟨unserved, -, p, i, rest, free, reached, same⟩
  · rw [same]
    exact ok.stamp i nowNs
  · rw [same]
    exact ok.reject
  · rw [same]
    exact ok.openSession nowNs unserved free reached

end

end SessionTable

end VoiceHotPath
