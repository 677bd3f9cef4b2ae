import Mathlib.Algebra.Order.Group.Nat
import Mathlib.Data.Finset.Range
import Mathlib.Data.List.Count
import VoiceHotPath.Session.Table

/-!
# The invariant of the session table

Read as a linear-probing table, the slots store every active storage index once
and within reach of the hash of its call, no two active sessions serve one call,
and the free list is the rest of the storage.
-/

namespace VoiceHotPath

open LinearProbing

theorem doubleUntil_isPow (value fuel : Nat) {result : Nat} (power : ∃ k, result = 2 ^ k) :
    ∃ k, doubleUntil value fuel result = 2 ^ k := by
  induction fuel generalizing result with
  | zero => exact power
  | succ fuel ih =>
      unfold doubleUntil
      split
      · obtain ⟨k, rfl⟩ := power
        exact ih ⟨k + 1, (Nat.pow_succ').symm⟩
      · exact power

theorem le_doubleUntil (value fuel : Nat) {result : Nat} (enough : value ≤ 2 ^ fuel * result) :
    value ≤ doubleUntil value fuel result := by
  induction fuel generalizing result with
  | zero => simpa [doubleUntil] using enough
  | succ fuel ih =>
      unfold doubleUntil
      split
      · apply ih
        rw [Nat.pow_succ, Nat.mul_assoc] at enough
        exact enough
      · omega

theorem nextPow2_isPow (value : Nat) : ∃ k, nextPow2 value = 2 ^ k :=
  doubleUntil_isPow value value ⟨0, rfl⟩

theorem le_nextPow2 (value : Nat) : value ≤ nextPow2 value := by
  apply le_doubleUntil
  rw [Nat.mul_one]
  exact Nat.le_of_lt Nat.lt_two_pow_self

/-- The slot a word stands for. -/
def slotOfWord (word : Nat) : Slot Nat :=
  if word = kEmpty then .empty else if word = kTombstone then .tombstone else .full word

@[simp] theorem slotOfWord_kEmpty : slotOfWord kEmpty = .empty := rfl

@[simp] theorem slotOfWord_kTombstone : slotOfWord kTombstone = .tombstone := rfl

/-- Storage indices are below both marks. -/
theorem slotOfWord_index {index : Nat} (small : index < kTombstone) :
    slotOfWord index = .full index := by
  have notTombstone := Nat.ne_of_lt small
  have notEmpty : index ≠ kEmpty := Nat.ne_of_lt (Nat.lt_trans small (by decide))
  simp [slotOfWord, notEmpty, notTombstone]

theorem slotOfWord_eq_empty {word : Nat} : slotOfWord word = .empty ↔ word = kEmpty := by
  unfold slotOfWord
  split
  · simp_all
  · split <;> simp_all

theorem slotOfWord_eq_full {word index : Nat} (here : slotOfWord word = .full index) :
    word = index := by
  unfold slotOfWord at here
  split at here
  · cases here
  · split at here
    · cases here
    · cases here
      rfl

namespace SessionTable

section

variable {D : Type}

def activeAt (table : SessionTable D) (index : Nat) : Bool :=
  table.sessions[index]?.any Session.active

def idAt (table : SessionTable D) (index : Nat) : UInt32 :=
  (table.sessions[index]?.map Session.id).getD 0

/-- The storage of the open sessions. -/
def openStorage (table : SessionTable D) : Finset Nat :=
  (Finset.range table.sessions.length).filter fun index => table.activeAt index = true

/-- The slots as a linear-probing table. -/
def view (table : SessionTable D) (slot : Nat) : Slot Nat :=
  slotOfWord (table.slotAt slot)

/-- Where the probe for a storage index starts. -/
def home (table : SessionTable D) (index : Nat) : Nat :=
  table.probeStart (table.idAt index)

/-- What every operation keeps. -/
structure Ok (table : SessionTable D) : Prop where
  positive : 0 < table.maxSessions
  small : table.maxSessions ≤ kTombstone
  power : ∃ k, table.slotMask + 1 = 2 ^ k
  roomy : 2 * table.maxSessions ≤ table.slotMask + 1
  slotsLength : table.slots.length = table.slotMask + 1
  sessionsLength : table.sessions.length = table.maxSessions
  linked : Linked (table.slotMask + 1) table.view table.home table.openStorage
  ids : ∀ i ∈ table.openStorage, ∀ j ∈ table.openStorage, table.idAt i = table.idAt j → i = j
  freeNodup : table.freeList.Nodup
  free : ∀ i, i ∈ table.freeList ↔ i < table.maxSessions ∧ i ∉ table.openStorage
  tombstones : table.tombstones = table.slots.count kTombstone
  live : table.live = table.openStorage.card

theorem mem_openStorage {table : SessionTable D} {index : Nat} :
    index ∈ table.openStorage ↔
      ∃ session, table.sessions[index]? = some session ∧ session.active = true := by
  unfold openStorage activeAt
  rw [Finset.mem_filter, Finset.mem_range]
  constructor
  · rintro ⟨-, active⟩
    exact Option.any_eq_true _ _ |>.mp active
  · rintro ⟨session, here, active⟩
    refine ⟨(List.getElem?_eq_some_iff.mp here).1, ?_⟩
    rw [here]
    exact active

theorem idAt_of_getElem? {table : SessionTable D} {index : Nat} {session : Session D}
    (here : table.sessions[index]? = some session) : table.idAt index = session.id := by
  simp [idAt, here]

section

variable {table : SessionTable D}

theorem Ok.lt_max (ok : table.Ok) {index : Nat} (opened : index ∈ table.openStorage) :
    index < table.maxSessions := by
  obtain ⟨session, here, -⟩ := mem_openStorage.mp opened
  rw [← ok.sessionsLength]
  exact (List.getElem?_eq_some_iff.mp here).1

theorem Ok.view_index (ok : table.Ok) {index : Nat} (inside : index < table.maxSessions) :
    slotOfWord index = .full index :=
  slotOfWord_index (Nat.lt_of_lt_of_le inside ok.small)

theorem Ok.ne_kTombstone (ok : table.Ok) {index : Nat} (inside : index < table.maxSessions) :
    index ≠ kTombstone :=
  Nat.ne_of_lt (Nat.lt_of_lt_of_le inside ok.small)

theorem Ok.nextSlot_eq (ok : table.Ok) (slot : Nat) :
    table.nextSlot slot = (slot + 1) % (table.slotMask + 1) := by
  obtain ⟨k, power⟩ := ok.power
  have mask : table.slotMask = 2 ^ k - 1 := by omega
  rw [nextSlot, power, mask, Nat.and_two_pow_sub_one_eq_mod]

theorem probeStart_lt (table : SessionTable D) (id : UInt32) :
    table.probeStart id < table.slotMask + 1 :=
  Nat.lt_succ_of_le Nat.and_le_right

theorem home_lt (table : SessionTable D) (index : Nat) :
    table.home index < table.slotMask + 1 :=
  table.probeStart_lt (table.idAt index)

theorem Ok.card_le (ok : table.Ok) : table.openStorage.card ≤ table.maxSessions := by
  have within : table.openStorage ⊆ Finset.range table.maxSessions := by
    intro index opened
    exact Finset.mem_range.mpr (ok.lt_max opened)
  simpa using Finset.card_le_card within

/-- The free list is as long as there is storage left. -/
theorem Ok.length_freeList (ok : table.Ok) :
    table.freeList.length + table.openStorage.card = table.maxSessions := by
  have split : table.freeList.toFinset = Finset.range table.maxSessions \ table.openStorage := by
    ext index
    simp [ok.free]
  have within : table.openStorage ⊆ Finset.range table.maxSessions := by
    intro index opened
    exact Finset.mem_range.mpr (ok.lt_max opened)
  have length := List.toFinset_card_of_nodup ok.freeNodup
  rw [split, Finset.card_sdiff_of_subset within, Finset.card_range] at length
  have bound := ok.card_le
  omega

theorem serves_eq_true {id : UInt32} {index : Nat} :
    table.serves id index = true ↔ index ∈ table.openStorage ∧ table.idAt index = id := by
  unfold serves
  rw [mem_openStorage]
  cases here : table.sessions[index]? with
  | none => simp
  | some session => simp [idAt, here]

/-- The code's probe loop is the library's probe of the slots. -/
theorem acquireLoop_eq_probe (table : SessionTable D) (id : UInt32) (fuel slot : Nat)
    (tomb : Option Nat) :
    table.acquireLoop id fuel slot tomb =
      probe table.nextSlot table.view (table.serves id) fuel slot tomb := by
  induction fuel generalizing slot tomb with
  | zero => rfl
  | succ fuel ih =>
      unfold acquireLoop probe view slotOfWord
      dsimp only
      by_cases empty : table.slotAt slot = kEmpty
      · simp [empty]
      · by_cases tombstone : table.slotAt slot = kTombstone
        · simp only [tombstone, if_true]
          rw [ih]
          rfl
        · simp only [empty, tombstone, if_false]
          split
          · rfl
          · exact ih _ _

/-! ## Editing one session, writing one slot -/

theorem activeAt_of_modify {table' : SessionTable D} {index : Nat}
    {edit : Session D → Session D} (edited : table'.sessions = table.sessions.modify index edit)
    {other : Nat} (apart : other ≠ index) :
    other ∈ table'.openStorage ↔ other ∈ table.openStorage := by
  rw [mem_openStorage, mem_openStorage, edited, List.getElem?_modify]
  simp [apart.symm]

theorem idAt_of_modify {table' : SessionTable D} {index : Nat}
    {edit : Session D → Session D} (edited : table'.sessions = table.sessions.modify index edit)
    {other : Nat} (apart : other ≠ index) : table'.idAt other = table.idAt other := by
  rw [idAt, idAt, edited, List.getElem?_modify]
  simp [apart.symm]

theorem getElem?_of_modify {table' : SessionTable D} {index : Nat}
    {edit : Session D → Session D} (edited : table'.sessions = table.sessions.modify index edit)
    {session : Session D} (here : table.sessions[index]? = some session) :
    table'.sessions[index]? = some (edit session) := by
  rw [edited, List.getElem?_modify, here]
  simp

/-- Writing a slot updates the view there. -/
theorem view_of_set {table' : SessionTable D} {slot word : Nat}
    (written : table'.slots = table.slots.set slot word) (inside : slot < table.slots.length) :
    table'.view = Function.update table.view slot (slotOfWord word) := by
  funext other
  unfold view slotAt
  rw [written]
  by_cases same : other = slot
  · subst same
    rw [List.getElem?_set_self inside, Function.update_self]
    rfl
  · rw [List.getElem?_set_ne (Ne.symm same), Function.update_of_ne same]

theorem slotAt_eq {slot : Nat} (inside : slot < table.slots.length) :
    table.slots[slot] = table.slotAt slot := by
  simp [slotAt, inside]

/-- An edit that changes neither id nor activity changes nothing the table depends on. -/
theorem Ok.modifySession (ok : table.Ok) (index : Nat) (edit : Session D → Session D)
    (sameId : ∀ session, (edit session).id = session.id)
    (sameActive : ∀ session, (edit session).active = session.active) :
    (table.modifySession index edit).Ok ∧
      (table.modifySession index edit).openStorage = table.openStorage ∧
      (table.modifySession index edit).idAt = table.idAt := by
  have storage : (table.modifySession index edit).openStorage = table.openStorage := by
    ext other
    rw [mem_openStorage, mem_openStorage, SessionTable.modifySession, List.getElem?_modify]
    cases table.sessions[other]? with
    | none => simp
    | some session => by_cases same : index = other <;> simp [same, sameActive]
  have ids : (table.modifySession index edit).idAt = table.idAt := by
    funext other
    rw [idAt, idAt, SessionTable.modifySession, List.getElem?_modify]
    cases table.sessions[other]? with
    | none => simp
    | some session => by_cases same : index = other <;> simp [same, sameId]
  have homes : (table.modifySession index edit).home = table.home := by
    funext other
    rw [home, ids]
    rfl
  refine ⟨⟨ok.positive, ok.small, ok.power, ok.roomy, ok.slotsLength, ?_, ?_, ?_, ok.freeNodup,
    ?_, ok.tombstones, ?_⟩, storage, ids⟩
  · rw [SessionTable.modifySession, List.length_modify]
    exact ok.sessionsLength
  · rw [storage, homes]
    exact ok.linked
  · rw [storage, ids]
    exact ok.ids
  · rw [storage]
    exact ok.free
  · rw [storage]
    exact ok.live

end

end

end SessionTable

end VoiceHotPath
