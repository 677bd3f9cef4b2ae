import VoiceHotPath.Session.Refinement
import VoiceHotPath.Vad.Scenario

/-!
# Histories of the session table

A fresh table represents the empty map, so every history of calls is a run of
the bounded map, with its counters.
-/

namespace VoiceHotPath

open LinearProbing

namespace SessionTable

section

variable {D : Type} [Double D]

theorem make_eq {maxSessions : Nat} (positive : 0 < maxSessions) (config : ChunkerConfig D) :
    make maxSessions config =
      { maxSessions := maxSessions
        slotMask := nextPow2 (maxSessions * 2) - 1
        slots := List.replicate (nextPow2 (maxSessions * 2) - 1 + 1) kEmpty
        sessions := List.replicate maxSessions (Session.make config)
        freeList := List.range maxSessions } := by
  rw [make, if_neg (Nat.pos_iff_ne_zero.mp positive)]

theorem openStorage_make (maxSessions : Nat) (config : ChunkerConfig D) :
    (make maxSessions config).openStorage = ∅ := by
  rw [Finset.eq_empty_iff_forall_notMem]
  intro i opened
  obtain ⟨session, here, active⟩ := mem_openStorage.mp opened
  rw [inactive_of_make here] at active
  cases active

theorem Ok.make {maxSessions : Nat} (positive : 0 < maxSessions)
    (small : maxSessions ≤ kTombstone) (config : ChunkerConfig D) :
    (make maxSessions config).Ok := by
  have none : (SessionTable.make maxSessions config).openStorage = ∅ :=
    openStorage_make maxSessions config
  obtain ⟨k, power⟩ := nextPow2_isPow (maxSessions * 2)
  have enough := le_nextPow2 (maxSessions * 2)
  have size : nextPow2 (maxSessions * 2) - 1 + 1 = nextPow2 (maxSessions * 2) :=
    Nat.sub_add_cancel (by omega)
  refine ⟨?_, ?_, ?_, ?_, ?_, ?_, ?_, ?_, ?_, ?_, ?_, ?_⟩
  · rw [make_eq positive]
    exact positive
  · rw [make_eq positive]
    exact small
  · rw [make_eq positive]
    exact ⟨k, size.trans power⟩
  · rw [make_eq positive]
    dsimp only
    omega
  · rw [make_eq positive]
    exact List.length_replicate
  · rw [make_eq positive]
    exact List.length_replicate
  · rw [none]
    refine (linked_empty _ _).congr_slots fun p inside => ?_
    rw [view, slotAt, make_eq positive, List.getElem?_replicate]
    split <;> rfl
  · rw [none]
    intro i absent
    cases absent
  · rw [make_eq positive]
    exact List.nodup_range
  · intro i
    rw [none, make_eq positive]
    simp
  · rw [make_eq positive]
    refine (List.count_eq_zero.mpr fun member => ?_).symm
    have contrary := List.eq_of_mem_replicate member
    cases contrary
  · rw [none, make_eq positive]
    rfl

/-- The constructor clamps `max_sessions` to at least one. -/
theorem Ok.make_clamped {maxSessions : Nat} (small : maxSessions ≤ kTombstone)
    (config : ChunkerConfig D) : (SessionTable.make maxSessions config).Ok := by
  by_cases zero : maxSessions = 0
  · have one : (SessionTable.make 1 config).Ok := .make Nat.one_pos (by decide) config
    rw [zero]
    exact one
  · exact .make (Nat.pos_of_ne_zero zero) small config

/-- The map of a fresh table. -/
def freshMap (maxSessions : Nat) (config : ChunkerConfig D) : CallMap D :=
  .initial maxSessions fun i => if i < maxSessions then some (Session.make config) else none

theorem Represents.make {maxSessions : Nat} (positive : 0 < maxSessions)
    (config : ChunkerConfig D) :
    Represents (make maxSessions config) (freshMap maxSessions config) := by
  refine ⟨?_, ?_, fun i => ?_, ?_, ?_⟩
  · rw [make_eq positive]
    rfl
  · rw [openStorage_make]
    rfl
  · rw [make_eq positive, List.getElem?_replicate]
    rfl
  · rw [make_eq positive]
    rfl
  · rw [make_eq positive]
    rfl

/-- Simulation: what the table answers to a history of calls, its map may answer. -/
theorem Represents.run {table : SessionTable D} {map : CallMap D}
    (represents : Represents table map) (ok : table.Ok) (ops : List TableOp)
    (timely : table.timelyRun ops = true) :
    ∃ final responses maps, table.run ops = some (final, responses) ∧ final.Ok ∧
      CallMap.Run map ops responses maps ∧ Represents final (maps.getLastD map) := by
  induction ops generalizing table map with
  | nil => exact ⟨table, [], [], rfl, ok, .nil map, represents⟩
  | cons op ops ih =>
      rw [timelyRun, Bool.and_eq_true] at timely
      obtain ⟨now, later⟩ := timely
      obtain ⟨next, response, nextMap, stepped, nextOk, allowed, kept⟩ :=
        represents.step ok op now
      rw [stepped] at later
      obtain ⟨final, responses, maps, ran, finalOk, rest, last⟩ := ih kept nextOk later
      refine ⟨final, response :: responses, nextMap :: maps, run_cons stepped ran, finalOk,
        .cons allowed rest, ?_⟩
      rw [List.getLastD_cons]
      exact last

/-- Every history of a fresh table is a run of the bounded map from call ids to
sessions, ending in the map the table holds, with its size, peak and opens. -/
theorem refines_callMap {maxSessions : Nat} (positive : 0 < maxSessions)
    (small : maxSessions ≤ 2 ^ 31) (config : ChunkerConfig D) (ops : List TableOp)
    (timely : (SessionTable.make maxSessions config).timelyRun ops = true) :
    ∃ table responses maps map,
      (SessionTable.make maxSessions config).run ops = some (table, responses) ∧
      CallMap.Run (freshMap maxSessions config) ops responses maps ∧
      map = maps.getLastD (freshMap maxSessions config) ∧
      (∀ i, table.sessions[i]? = map.contents i) ∧
      (∀ id i, table.serves id i = true ↔ (id, i) ∈ map.calls) ∧
      table.live = map.calls.card ∧
      table.peakLive = CallMap.largest maps ∧
      table.opened = UInt64.ofNat map.opens := by
  obtain ⟨table, responses, maps, ran, ok, allowed, represents⟩ :=
    (Represents.make positive config).run
      (Ok.make positive (Nat.le_trans small (by decide)) config) ops timely
  refine ⟨table, responses, maps, _, ran, allowed, rfl, ?_, ?_, ?_, ?_, represents.opened⟩
  · intro i
    exact (represents.contents i).symm
  · intro id i
    rw [serves_eq_true, represents.mem_calls]
  · rw [represents.card_calls]
    exact ok.live
  · have none : (freshMap maxSessions config).calls.card ≤ (freshMap maxSessions config).peak :=
      Nat.le_refl 0
    rw [represents.peak, allowed.peak none]
    exact Nat.max_eq_right (Nat.zero_le _)

end

open Scenario in
theorem refines_callMap_twoSessions :
    ∃ table responses maps map,
      (SessionTable.make 2 shortConfig).run
        [.acquire 7 0, .onFrame 0 (toneFrame 0) 0, .onFrame 0 (toneFrame 1) 20000000,
          .acquire 9 30000000, .acquire 11 40000000, .expireIdle 50000000 50000000,
          .acquire 11 60000000, .flushAll 70000000] = some (table, responses) ∧
      CallMap.Run (freshMap 2 shortConfig)
        [.acquire 7 0, .onFrame 0 (toneFrame 0) 0, .onFrame 0 (toneFrame 1) 20000000,
          .acquire 9 30000000, .acquire 11 40000000, .expireIdle 50000000 50000000,
          .acquire 11 60000000, .flushAll 70000000] responses maps ∧
      map = maps.getLastD (freshMap 2 shortConfig) ∧
      (∀ i, table.sessions[i]? = map.contents i) ∧
      (∀ id i, table.serves id i = true ↔ (id, i) ∈ map.calls) ∧
      table.live = map.calls.card ∧
      table.peakLive = CallMap.largest maps ∧
      table.opened = UInt64.ofNat map.opens :=
  refines_callMap (by decide) (by decide) shortConfig _ (by decide +kernel)

end SessionTable

end VoiceHotPath
