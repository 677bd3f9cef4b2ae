import Mathlib.Data.Finset.Image
import VoiceHotPath.Session.Release

/-!
# The abstract session table

What the table is for: a finite map from call ids to preallocated storage,
never larger than the storage.  No call is served twice, no storage serves two
calls, and a call keeps its session until it is closed.
-/

namespace VoiceHotPath

/-- The calls a caller can make on the table. -/
inductive TableOp where
  | acquire (id : UInt32) (nowNs : UInt64)
  | onFrame (index : Nat) (frame : AudioFrame) (nowNs : UInt64)
  | expireIdle (nowNs idleNs : UInt64)
  | flushAll (nowNs : UInt64)
  deriving DecidableEq, Repr

inductive Response where
  | session (index : Option Nat)
  | event (event : Option ChunkEvent)
  | tails (events : List ChunkEvent)
  deriving DecidableEq, Repr

/-- The graph of a bounded injective map from call ids to storage, with the sessions in it. -/
structure CallMap (D : Type) where
  bound : Nat
  calls : Finset (UInt32 × Nat)
  contents : Nat → Option (Session D)
  /-- The largest size the map has had, and the number of sessions opened in it. -/
  peak : Nat := 0
  opens : Nat := 0
  single : ∀ id i j, (id, i) ∈ calls → (id, j) ∈ calls → i = j
  exclusive : ∀ id id' i, (id, i) ∈ calls → (id', i) ∈ calls → id = id'
  served : ∀ id i, (id, i) ∈ calls → i < bound ∧
    ∃ session, contents i = some session ∧ session.id = id ∧ session.active = true

/-- The tail event of a session closed in the middle of a chunk. -/
structure Session.EndsIn {D : Type} (nowNs : UInt64) (session : Session D)
    (event : ChunkEvent) : Prop where
  reason : event.reason = .streamEnd
  sessionId : event.sessionId = session.id
  chunk : ∃ closed, (session.assembler.flush nowNs).2 = some closed ∧
    event = { closed with sessionId := session.id }

/-- A closing session has a tail event exactly when it has a chunk open. -/
theorem Session.tail_rel {D : Type} (nowNs : UInt64) (session : Session D) :
    Option.Rel (Session.EndsIn nowNs)
      ((some session).filter fun session => session.assembler.active) (session.tail nowNs) := by
  rw [Option.filter_some]
  cases active : session.assembler.active with
  | false =>
      have quiet : session.tail nowNs = none := by
        simp [Session.tail, ChunkAssembler.flush, active]
      rw [quiet]
      exact .none
  | true =>
      obtain ⟨event, closed, reason⟩ : ∃ event, (session.assembler.flush nowNs).2 = some event ∧
          event.reason = .streamEnd := by
        rw [ChunkAssembler.flush, active]
        exact ⟨_, rfl, rfl⟩
      rw [if_pos rfl, Session.tail, closed]
      exact .some ⟨reason, rfl, event, closed, rfl⟩

namespace CallMap

section

variable {D : Type}

/-- The storage that serves a call. -/
def storage (map : CallMap D) : Finset Nat :=
  map.calls.image Prod.snd

theorem mem_storage {map : CallMap D} {i : Nat} :
    i ∈ map.storage ↔ ∃ id, (id, i) ∈ map.calls := by
  simp [storage]

/-- As many storage slots serve as there are calls. -/
theorem card_storage (map : CallMap D) : map.storage.card = map.calls.card := by
  apply Finset.card_image_of_injOn
  rintro ⟨id, i⟩ here ⟨id', j⟩ there same
  obtain rfl : i = j := same
  rw [map.exclusive id id' i here there]

/-- No calls, on storage with the given contents. -/
def initial (bound : Nat) (contents : Nat → Option (Session D)) : CallMap D where
  bound := bound
  calls := ∅
  contents := contents
  single := fun _ _ _ absent => by cases absent
  exclusive := fun _ _ _ absent => by cases absent
  served := fun _ _ absent => by cases absent

/-- Change a session in place, keeping its call. -/
def edit (map : CallMap D) (i : Nat) (change : Session D → Session D)
    (sameId : ∀ session, (change session).id = session.id)
    (sameActive : ∀ session, (change session).active = session.active) : CallMap D where
  bound := map.bound
  calls := map.calls
  contents := Function.update map.contents i ((map.contents i).map change)
  peak := map.peak
  opens := map.opens
  single := map.single
  exclusive := map.exclusive
  served := by
    intro id j here
    obtain ⟨inside, session, contents, same, active⟩ := map.served id j here
    refine ⟨inside, ?_⟩
    by_cases edited : j = i
    · subst edited
      refine ⟨change session, ?_, (sameId session).trans same, (sameActive session).trans active⟩
      rw [Function.update_self, contents]
      rfl
    · exact ⟨session, by rw [Function.update_of_ne edited, contents], same, active⟩

/-- Serve a new call on storage that serves none. -/
def serve (map : CallMap D) (id : UInt32) (i : Nat) (session : Session D)
    (unserved : ∀ j, (id, j) ∉ map.calls) (vacant : ∀ other, (other, i) ∉ map.calls)
    (inside : i < map.bound) (nowNs : UInt64) : CallMap D where
  bound := map.bound
  calls := insert (id, i) map.calls
  contents := Function.update map.contents i (some (session.openFor id nowNs))
  peak := max map.peak (map.calls.card + 1)
  opens := map.opens + 1
  single := by
    intro other j k here there
    rw [Finset.mem_insert, Prod.mk.injEq] at here there
    rcases here with ⟨rfl, rfl⟩ | here
    · rcases there with ⟨-, rfl⟩ | there
      · rfl
      · exact absurd there (unserved k)
    · rcases there with ⟨rfl, rfl⟩ | there
      · exact absurd here (unserved j)
      · exact map.single other j k here there
  exclusive := by
    intro other other' j here there
    rw [Finset.mem_insert, Prod.mk.injEq] at here there
    rcases here with ⟨rfl, rfl⟩ | here
    · rcases there with ⟨rfl, -⟩ | there
      · rfl
      · exact absurd there (vacant other')
    · rcases there with ⟨rfl, rfl⟩ | there
      · exact absurd here (vacant other)
      · exact map.exclusive other other' j here there
  served := by
    intro other j here
    rw [Finset.mem_insert, Prod.mk.injEq] at here
    rcases here with ⟨rfl, rfl⟩ | here
    · exact ⟨inside, _, Function.update_self .., rfl, rfl⟩
    · obtain ⟨within, kept⟩ := map.served other j here
      have apart : j ≠ i := fun same => vacant other (same ▸ here)
      rw [Function.update_of_ne apart]
      exact ⟨within, kept⟩

/-- The storage a sweep closes: that of the calls whose session is due. -/
def closes (map : CallMap D) (due : Session D → Bool) (i : Nat) : Bool :=
  decide (i ∈ map.storage) && (map.contents i).any due

/-- Close the calls whose session is due, and only those. -/
def close (map : CallMap D) (due : Session D → Bool) (nowNs : UInt64) : CallMap D where
  bound := map.bound
  calls := map.calls.filter fun call => map.closes due call.2 = false
  contents := fun i =>
    if map.closes due i then (map.contents i).map (Session.closed nowNs) else map.contents i
  peak := map.peak
  opens := map.opens
  single := fun id i j here there =>
    map.single id i j (Finset.mem_of_mem_filter _ here) (Finset.mem_of_mem_filter _ there)
  exclusive := fun id id' i here there =>
    map.exclusive id id' i (Finset.mem_of_mem_filter _ here) (Finset.mem_of_mem_filter _ there)
  served := by
    intro id i here
    obtain ⟨member, kept⟩ := Finset.mem_filter.mp here
    rw [kept]
    exact map.served id i member

theorem mem_close {map : CallMap D} {due : Session D → Bool} {nowNs : UInt64} {id : UInt32}
    {i : Nat} : (id, i) ∈ (map.close due nowNs).calls ↔
      (id, i) ∈ map.calls ∧ map.closes due i = false := by
  rw [close, Finset.mem_filter]

theorem contents_close (map : CallMap D) (due : Session D → Bool) (nowNs : UInt64) (i : Nat) :
    (map.close due nowNs).contents i =
      if map.closes due i then (map.contents i).map (Session.closed nowNs)
      else map.contents i := rfl

/-- The sessions a sweep closes in the middle of a chunk, in storage order. -/
def cutOff (map : CallMap D) (due : Session D → Bool) : List (Session D) :=
  (List.range map.bound).filterMap fun i =>
    if map.closes due i then (map.contents i).filter fun session => session.assembler.active
    else none

/-- Idle for at least the given time; the stamps are not in the future. -/
def idleFor (nowNs idleNs : UInt64) (session : Session D) : Bool :=
  idleNs.toNat ≤ nowNs.toNat - session.lastFrameNs.toNat

section

variable [Double D]

/-- What each call may do, and what it answers. -/
inductive Step : CallMap D → TableOp → Response → CallMap D → Prop where
  | found {map : CallMap D} {id : UInt32} {i : Nat} (nowNs : UInt64) :
      (id, i) ∈ map.calls →
        Step map (.acquire id nowNs) (.session (some i))
          (map.edit i (Session.stamp nowNs) (fun _ => rfl) (fun _ => rfl))
  | opened {map : CallMap D} {id : UInt32} {i : Nat} {session : Session D} (nowNs : UInt64)
      (unserved : ∀ j, (id, j) ∉ map.calls) (vacant : ∀ other, (other, i) ∉ map.calls)
      (inside : i < map.bound) : map.contents i = some session →
        Step map (.acquire id nowNs) (.session (some i))
          (map.serve id i session unserved vacant inside nowNs)
  | refused {map : CallMap D} {id : UInt32} (nowNs : UInt64) :
      (∀ j, (id, j) ∉ map.calls) → map.calls.card = map.bound →
        Step map (.acquire id nowNs) (.session none) map
  | fed {map : CallMap D} {i : Nat} {session : Session D} (frame : AudioFrame)
      (nowNs : UInt64) : i ∈ map.storage → map.contents i = some session →
        Step map (.onFrame i frame nowNs) (.event (session.assembler.onFrame frame nowNs).2)
          (map.edit i (Session.fed frame nowNs) (fun _ => rfl) (fun _ => rfl))
  | ignored {map : CallMap D} {i : Nat} (frame : AudioFrame) (nowNs : UInt64) :
      i ∉ map.storage → Step map (.onFrame i frame nowNs) (.event none) map
  | expired {map : CallMap D} {nowNs idleNs : UInt64} {events : List ChunkEvent} :
      List.Forall₂ (Session.EndsIn nowNs) (map.cutOff (idleFor nowNs idleNs)) events →
        Step map (.expireIdle nowNs idleNs) (.tails events)
          (map.close (idleFor nowNs idleNs) nowNs)
  | flushed {map : CallMap D} {nowNs : UInt64} {events : List ChunkEvent} :
      List.Forall₂ (Session.EndsIn nowNs) (map.cutOff fun _ => true) events →
        Step map (.flushAll nowNs) (.tails events) (map.close (fun _ => true) nowNs)

/-- A run, with the map after each call. -/
inductive Run : CallMap D → List TableOp → List Response → List (CallMap D) → Prop where
  | nil (map : CallMap D) : Run map [] [] []
  | cons {map next : CallMap D} {op : TableOp} {response : Response} {ops : List TableOp}
      {responses : List Response} {maps : List (CallMap D)} :
      Step map op response next → Run next ops responses maps →
        Run map (op :: ops) (response :: responses) (next :: maps)

/-- The largest of the given maps. -/
def largest (maps : List (CallMap D)) : Nat :=
  (maps.map fun map => map.calls.card).foldr max 0

/-- Only a call that opens a session makes the map grow. -/
theorem Step.peak {map next : CallMap D} {op : TableOp} {response : Response}
    (step : Step map op response next) (below : map.calls.card ≤ map.peak) :
    next.peak = max map.peak next.calls.card := by
  have closing : ∀ (due : Session D → Bool) (nowNs : UInt64),
      map.peak = max map.peak (map.close due nowNs).calls.card := fun due nowNs => by
    have fewer : (map.close due nowNs).calls.card ≤ map.calls.card :=
      Finset.card_filter_le _ _
    exact (Nat.max_eq_left (Nat.le_trans fewer below)).symm
  cases step with
  | found _ _ => exact (Nat.max_eq_left below).symm
  | @opened id i _ _ unserved _ _ _ =>
      have grown : (insert (id, i) map.calls).card = map.calls.card + 1 :=
        Finset.card_insert_of_notMem (unserved i)
      exact congrArg (max map.peak) grown.symm
  | refused _ _ _ => exact (Nat.max_eq_left below).symm
  | fed _ _ _ _ => exact (Nat.max_eq_left below).symm
  | ignored _ _ _ => exact (Nat.max_eq_left below).symm
  | expired _ => exact closing _ _
  | flushed _ => exact closing _ _

/-- The recorded peak is the largest size of the run. -/
theorem Run.peak {map : CallMap D} {ops : List TableOp} {responses : List Response}
    {maps : List (CallMap D)} (run : Run map ops responses maps)
    (below : map.calls.card ≤ map.peak) :
    (maps.getLastD map).peak = max map.peak (largest maps) := by
  induction run with
  | nil map => exact (Nat.max_eq_left (Nat.zero_le _)).symm
  | @cons map next op response ops responses maps step rest ih =>
      have grown := step.peak below
      rw [List.getLastD_cons, ih (grown.symm ▸ Nat.le_max_right _ _), grown, Nat.max_assoc]
      rfl

end

end

end CallMap

end VoiceHotPath
