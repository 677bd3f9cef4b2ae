import VoiceHotPath.Lib.ProbeLoad
import VoiceHotPath.Session.Histories
import VoiceHotPath.Session.Storage

/-!
# Probe chains end

After every call at most a quarter of the slots hold tombstones and at most
half hold sessions, so that every probe meets an empty slot long before it has
passed the whole table.
-/

namespace VoiceHotPath

open LinearProbing

/-- The word of a slot is a storage index, and none of the two marks. -/
def isIndex (word : Nat) : Bool :=
  word != kEmpty && word != kTombstone

theorem isFull_slotOfWord (word : Nat) : (slotOfWord word).isFull = isIndex word := by
  unfold slotOfWord isIndex
  by_cases empty : word = kEmpty
  · simp [empty, Slot.isFull, Slot.member]
  · by_cases tombstone : word = kTombstone
    · rw [if_neg empty, if_pos tombstone, tombstone]
      rfl
    · simp [empty, tombstone, Slot.isFull, Slot.member]

theorem isEmpty_slotOfWord (word : Nat) : (slotOfWord word).isEmpty = (word == kEmpty) := by
  rw [Bool.eq_iff_iff, Slot.isEmpty_iff, slotOfWord_eq_empty, beq_iff_eq]

/-- Every word is an index or one of the two marks. -/
theorem length_eq_counts (words : List Nat) :
    words.length =
      words.countP isIndex + words.count kTombstone + words.count kEmpty := by
  induction words with
  | nil => rfl
  | cons word words ih =>
      rw [List.length_cons, List.countP_cons, List.count_cons, List.count_cons, ih]
      by_cases empty : word = kEmpty
      · subst empty
        simp [isIndex, kEmpty, kTombstone]
        omega
      · by_cases tombstone : word = kTombstone
        · subst tombstone
          simp [isIndex, kEmpty, kTombstone]
          omega
        · simp [isIndex, empty, tombstone]
          omega

namespace SessionTable

section

variable {D : Type}

/-- The slot at which the probe loop of `acquire` is left, by its `break` or its `return`. -/
def acquireTest (table : SessionTable D) (id : UInt32) (slot : Nat) : Option Nat :=
  if table.slotAt slot = kEmpty then some slot
  else if table.slotAt slot = kTombstone then none
  else if table.serves id (table.slotAt slot) then some slot
  else none

/-- Where the probe loop of `acquire` is left within a number of probes, if it is. -/
def acquireStop (table : SessionTable D) (id : UInt32) (probes : Nat) : Option Nat :=
  scan table.nextSlot (table.acquireTest id) probes (table.probeStart id)

/-- The probe loop of `acquire` ends in the given slot with the given outcome: a place to
insert at, on an empty slot, or the session of the call. -/
def LeftAt (table : SessionTable D) (id : UInt32) (slot : Nat) (outcome : Outcome Nat) : Prop :=
  (table.slotAt slot = kEmpty ∧ ∃ insertAt, outcome = .vacant (some insertAt)) ∨
    (table.serves id (table.slotAt slot) = true ∧ outcome = .found (table.slotAt slot))

/-- The probe of `acquire` passes at most three quarters of the slots before it stops. -/
def AcquireEnds (table : SessionTable D) (id : UInt32) : Prop :=
  ∃ passed slot, 4 * passed ≤ 3 * table.slots.length ∧
    table.acquireStop id (passed + 1) = some slot ∧
    table.LeftAt id slot
      (table.acquireLoop id (table.slotMask + 1) (table.probeStart id) none)

/-- The table in which a sweep releases some storage, when it has passed all before it. -/
def releasing (table : SessionTable D) (due : Session D → Bool) (nowNs : UInt64)
    (index : Nat) : SessionTable D :=
  (sweep due nowNs (List.range index) table).1.modifySession index (Session.flushed nowNs)

/-- Every release of a sweep finds the slot of its storage. -/
def ReleasesEnd (table : SessionTable D) (due : Session D → Bool) (nowNs : UInt64) : Prop :=
  ∀ index session,
    (sweep due nowNs (List.range index) table).1.sessions[index]? = some session →
    session.active = true → due session = true →
    ∃ slot, (table.releasing due nowNs index).releaseSlot index session.id = some slot ∧
      (table.releasing due nowNs index).slotAt slot = index

/-- What holds of the slots between calls, and of every probe. -/
structure ProbesEnd (table : SessionTable D) : Prop where
  counted : table.tombstones = table.slots.count kTombstone
  fewTombstones : 4 * table.tombstones ≤ table.slots.length
  occupied : table.slots.countP isIndex = table.live
  halfOpen : 2 * table.live ≤ table.slots.length
  quarterEmpty : table.slots.length ≤ 4 * table.slots.count kEmpty
  acquires : ∀ id, table.AcquireEnds id
  releases : ∀ due nowNs, table.ReleasesEnd due nowNs

variable {table : SessionTable D}

/-- The test of the probe loop answers on a slot only by stopping there. -/
theorem acquireTest_eq_some {id : UInt32} {slot stop : Nat}
    (stops : table.acquireTest id slot = some stop) :
    slot = stop ∧ (table.slotAt slot = kEmpty ∨
      table.slotAt slot ≠ kEmpty ∧ table.slotAt slot ≠ kTombstone ∧
        table.serves id (table.slotAt slot) = true) := by
  unfold acquireTest at stops
  split at stops
  · exact ⟨Option.some.inj stops, .inl ‹_›⟩
  · split at stops
    · cases stops
    · split at stops
      · exact ⟨Option.some.inj stops, .inr ⟨‹_›, ‹_›, ‹_›⟩⟩
      · cases stops

/-- Once its test stops within the bound, the probe loop leaves at that slot. -/
theorem leftAt_of_stop {id : UInt32} {probes fuel slot stop : Nat} {tomb : Option Nat}
    (enough : probes ≤ fuel)
    (stops : scan table.nextSlot (table.acquireTest id) probes slot = some stop) :
    table.LeftAt id stop (table.acquireLoop id fuel slot tomb) := by
  induction probes generalizing fuel slot tomb with
  | zero => cases stops
  | succ probes ih =>
      obtain ⟨fuel, rfl⟩ : ∃ less, fuel = less + 1 := ⟨fuel - 1, by omega⟩
      have further : probes ≤ fuel := Nat.le_of_succ_le_succ enough
      rw [scan] at stops
      unfold acquireLoop
      dsimp only
      cases here : table.acquireTest id slot with
      | some found =>
          rw [here, Option.some_or] at stops
          cases stops
          obtain ⟨rfl, empty | ⟨notEmpty, notTombstone, served⟩⟩ := acquireTest_eq_some here
          · rw [if_pos empty]
            exact .inl ⟨empty, _, rfl⟩
          · rw [if_neg notEmpty, if_neg notTombstone, if_pos served]
            exact .inr ⟨served, rfl⟩
      | none =>
          rw [here, Option.none_or] at stops
          unfold acquireTest at here
          split at here
          · cases here
          · rename_i notEmpty
            rw [if_neg notEmpty]
            split at here
            · rw [if_pos ‹_›]
              exact ih further stops
            · rw [if_neg ‹_›]
              split at here
              · cases here
              · rw [if_neg ‹_›]
                exact ih further stops

section

/-! ## The load of the slots -/

theorem Ok.card_slotsWhere (ok : table.Ok) (test : Slot Nat → Bool) :
    (slotsWhere (table.slotMask + 1) table.view test).card =
      table.slots.countP fun word => test (slotOfWord word) := by
  rw [← ok.slotsLength]
  exact card_places table.slots (fun word => test (slotOfWord word)) kEmpty

/-- Every open session occupies one slot. -/
theorem Ok.occupied (ok : table.Ok) : table.slots.countP isIndex = table.live := by
  have full := ok.linked.card_full
  rw [ok.card_slotsWhere] at full
  simp only [isFull_slotOfWord] at full
  exact full.trans ok.live.symm

theorem Ok.card_empty (ok : table.Ok) :
    (slotsWhere (table.slotMask + 1) table.view Slot.isEmpty).card =
      table.slots.count kEmpty := by
  rw [ok.card_slotsWhere]
  simp only [isEmpty_slotOfWord]
  rfl

theorem Ok.halfOpen (ok : table.Ok) : 2 * table.live ≤ table.slots.length := by
  have few := ok.card_le
  have roomy := ok.roomy
  rw [ok.live, ok.slotsLength]
  omega

/-- A well-formed table with no more tombstones than a rebuild would leave. -/
structure Sparse (table : SessionTable D) : Prop where
  ok : table.Ok
  few : 4 * table.tombstones ≤ table.slots.length

theorem Sparse.quarterEmpty (sparse : table.Sparse) :
    table.slots.length ≤ 4 * table.slots.count kEmpty := by
  have parts := length_eq_counts table.slots
  have half := sparse.ok.halfOpen
  have few := sparse.few
  rw [sparse.ok.occupied, ← sparse.ok.tombstones] at parts
  omega

/-- Every acquire probe is left within three quarters of the slots. -/
theorem Sparse.acquireEnds (sparse : table.Sparse) (id : UInt32) : table.AcquireEnds id := by
  have ok := sparse.ok
  have quarter := sparse.quarterEmpty
  have length := ok.slotsLength
  have wraps : ∀ p < table.slotMask + 1, table.nextSlot p = (p + 1) % (table.slotMask + 1) :=
    fun p _ => ok.nextSlot_eq p
  have answers : ∀ p < table.slotMask + 1, table.view p = .empty →
      (table.acquireTest id p).isSome = true := by
    intro p _ empty
    rw [acquireTest, if_pos (slotOfWord_eq_empty.mp empty)]
    rfl
  have room : 0 < (slotsWhere (table.slotMask + 1) table.view Slot.isEmpty).card := by
    rw [ok.card_empty]
    omega
  obtain ⟨k, short, crossed, slot, -, stop⟩ :=
    scan_ends wraps (table.probeStart_lt id) answers room
  have fits := crossed.add_card_empty (Nat.le_of_lt short)
  rw [ok.card_empty] at fits
  exact ⟨k, slot, by omega, stop, leftAt_of_stop short stop⟩

/-- A release finds the slot of its storage, whatever the sweep has released before it. -/
theorem Ok.releasesEnd (ok : table.Ok) (due : Session D → Bool) (nowNs : UInt64) :
    table.ReleasesEnd due nowNs := by
  intro index session here active _
  obtain ⟨sweptOk, -⟩ := ok.sweep_keeps due nowNs (List.range index)
  obtain ⟨kept, storage, ids⟩ :=
    sweptOk.modifySession index (Session.flushed nowNs) (fun _ => rfl) (fun _ => rfl)
  have opened : index ∈ (table.releasing due nowNs index).openStorage :=
    storage.symm ▸ mem_openStorage.mpr ⟨session, here, active⟩
  obtain ⟨slot, -, word, found⟩ := kept.releaseSlot_eq opened
  rw [ids, idAt_of_getElem? here] at found
  exact ⟨slot, found, word⟩

theorem Sparse.probesEnd (sparse : table.Sparse) : table.ProbesEnd where
  counted := sparse.ok.tombstones
  fewTombstones := sparse.few
  occupied := sparse.ok.occupied
  halfOpen := sparse.ok.halfOpen
  quarterEmpty := sparse.quarterEmpty
  acquires := sparse.acquireEnds
  releases := sparse.ok.releasesEnd

/-! ## Every call keeps the table sparse -/

/-- Opening a session takes no tombstone up that was not there. -/
theorem Sparse.acquire (sparse : table.Sparse) (id : UInt32) (nowNs : UInt64) :
    (table.acquire id nowNs).1.Sparse := by
  refine ⟨sparse.ok.acquire id nowNs, ?_⟩
  have few := sparse.few
  rcases table.acquire_cases id nowNs with ⟨i, -, same⟩ | same | ⟨p, i, rest, -, same⟩
  · rw [same]
    exact few
  · rw [same]
    exact few
  · rw [same]
    change 4 * (if table.slotAt p = kTombstone then table.tombstones - 1 else table.tombstones) ≤
      (table.slots.set p i).length
    rw [List.length_set]
    split <;> omega

/-- However many tombstones a sweep leaves, the rebuild that ends it leaves few. -/
theorem few_of_maybeRebuild {next : SessionTable D} (rebuilt : table.maybeRebuild = some next) :
    4 * next.tombstones ≤ next.slots.length := by
  unfold maybeRebuild at rebuilt
  split at rebuilt
  · cases rebuilt
    omega
  · obtain ⟨-, -, -, cleared⟩ := rebuildFrom_keeps rebuilt
    rw [cleared]
    exact Nat.zero_le _

theorem Sparse.sweepAll (sparse : table.Sparse) (due : Session D → Bool) (nowNs : UInt64) :
    ∃ next events, SessionTable.sweepAll due table nowNs = some (next, events) ∧ next.Sparse := by
  obtain ⟨next, events, returned, done⟩ := sparse.ok.sweepAll due nowNs
  obtain ⟨rebuilt, same, pair⟩ := Option.map_eq_some_iff.mp returned
  cases pair
  exact ⟨_, _, returned, done.ok, few_of_maybeRebuild same⟩

end

section

variable [Double D]

theorem Sparse.feed (sparse : table.Sparse) (index : Nat) (frame : AudioFrame)
    (nowNs : UInt64) : (table.feed index frame nowNs).1.Sparse := by
  rcases table.feed_cases index frame nowNs with ⟨-, same⟩ | ⟨session, -, -, same⟩
  · rw [same]
    exact sparse
  · rw [same]
    have kept := sparse.ok.modifySession index (Session.fed frame nowNs) (fun _ => rfl)
      (fun _ => rfl)
    exact ⟨kept.1, sparse.few⟩

/-- Step lemma: every call returns and leaves the table sparse. -/
theorem Sparse.step (sparse : table.Sparse) (op : TableOp) :
    ∃ next response, table.step op = some (next, response) ∧ next.Sparse := by
  cases op with
  | acquire id nowNs => exact ⟨_, _, rfl, sparse.acquire id nowNs⟩
  | onFrame index frame nowNs => exact ⟨_, _, rfl, sparse.feed index frame nowNs⟩
  | expireIdle nowNs idleNs =>
      obtain ⟨next, events, returned, kept⟩ := sparse.sweepAll (isIdle nowNs idleNs) nowNs
      refine ⟨next, .tails events, ?_, kept⟩
      rw [SessionTable.step, expireIdle, returned]
      rfl
  | flushAll nowNs =>
      obtain ⟨next, events, returned, kept⟩ := sparse.sweepAll (fun _ => true) nowNs
      refine ⟨next, .tails events, ?_, kept⟩
      rw [SessionTable.step, flushAll, returned]
      rfl

/-- Run lemma: every history of calls returns and leaves the table sparse. -/
theorem Sparse.run (sparse : table.Sparse) (ops : List TableOp) :
    ∃ final responses, table.run ops = some (final, responses) ∧ final.Sparse := by
  induction ops generalizing table with
  | nil => exact ⟨table, [], rfl, sparse⟩
  | cons op ops ih =>
      obtain ⟨next, response, stepped, nextSparse⟩ := sparse.step op
      obtain ⟨final, responses, ran, finalSparse⟩ := ih nextSparse
      exact ⟨final, response :: responses, run_cons stepped ran, finalSparse⟩

theorem Sparse.make {maxSessions : Nat} (positive : 0 < maxSessions)
    (small : maxSessions ≤ kTombstone) (config : ChunkerConfig D) :
    (SessionTable.make maxSessions config).Sparse := by
  refine ⟨Ok.make positive small config, ?_⟩
  rw [make_eq positive]
  exact Nat.zero_le _

/-- After every history of calls, few slots hold tombstones and many are empty, so
that no probe of an acquire or of a release runs through the whole table. -/
theorem run_probesEnd {maxSessions : Nat} (positive : 0 < maxSessions)
    (small : maxSessions ≤ 2 ^ 31) (config : ChunkerConfig D) (ops : List TableOp) :
    ∃ table responses,
      (SessionTable.make maxSessions config).run ops = some (table, responses) ∧
      table.ProbesEnd := by
  have fits : maxSessions ≤ kTombstone := Nat.le_trans small (by decide)
  obtain ⟨table, responses, ran, sparse⟩ := (Sparse.make positive fits config).run ops
  exact ⟨table, responses, ran, sparse.probesEnd⟩

end

open Scenario in
theorem run_probesEnd_twoSessions :
    ∃ table responses,
      (SessionTable.make 2 shortConfig).run
        [.acquire 7 0, .acquire 9 0, .expireIdle 50000000 50000000, .acquire 11 60000000,
          .flushAll 70000000] = some (table, responses) ∧
      table.ProbesEnd :=
  run_probesEnd (by decide) (by decide) shortConfig _

end

end SessionTable

end VoiceHotPath
