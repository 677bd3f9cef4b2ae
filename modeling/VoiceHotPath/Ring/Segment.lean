import Mathlib.Logic.Function.Basic
import Mathlib.Tactic.IntervalCases
import VoiceHotPath.Lib.Publication
import VoiceHotPath.Ring.Spsc

/-!
# The shared-memory segment

`ShmRing::create`, `attach` and the destructor, of any number of rings under any
names, interleaved between any two of their system calls, stores and loads.  A
call may fail and a process may die at any point.  The stores of `create` become
visible in the order in which it makes them.
-/

namespace VoiceHotPath

def kShmMagic : UInt64 := 0x56485052494E4701

def kShmVersion : UInt32 := 1

/-- The bytes of `ShmLayout` in front of the ring. -/
def kShmHeaderBytes : Nat := 64

def kCacheLine : Nat := 64

/-- `ShmRing<T, Capacity>` as one binary was built: `sizeof(T)` and `Capacity`. -/
structure ShmGeometry where
  slotBytes : UInt32
  capacity : Capacity
  slotted : slotBytes ≠ 0

/-- `sizeof(Layout)`: the header, a cache line for each side, the slots in whole cache lines. -/
def ShmGeometry.layoutBytes (geometry : ShmGeometry) : Nat :=
  let slots := geometry.capacity.size * geometry.slotBytes.toNat
  kShmHeaderBytes + 2 * kCacheLine + (slots + (kCacheLine - 1)) / kCacheLine * kCacheLine

/-- `ShmRing<AudioFrame, Capacity>`; `FrameRing` has 1024 slots. -/
def ShmGeometry.ofFrames (capacity : Capacity) : ShmGeometry where
  slotBytes := 1064
  capacity := capacity
  slotted := by decide

structure ShmHeader where
  magic : UInt64 := 0
  version : UInt32 := 0
  slotBytes : UInt32 := 0
  capacity : UInt64 := 0
  payloadBytes : UInt64 := 0
  deriving DecidableEq, Repr

/-- What is done to the memory of a ring: it is zeroed, constructed, or used as a ring. -/
inductive RingAccess (P : Type) where
  | zeroed
  | constructed
  | used (party : P)
  deriving DecidableEq, Repr

/-- The bytes a segment has, its header, and what has been done to its ring. -/
structure ShmContents (P : Type) where
  size : Nat := 0
  header : ShmHeader := {}
  ring : List (RingAccess P) := []
  deriving DecidableEq, Repr

/-- What `create` does to its segment once it is open. -/
inductive ShmStore where
  | truncate
  | zero
  | construct
  | magic
  | version
  | slotBytes
  | capacity
  | payloadBytes
  deriving DecidableEq, Repr

/-- What `attach` asks of a segment once it is open. -/
inductive ShmCheck where
  | size
  | magic
  | version
  | slotBytes
  | capacity
  deriving DecidableEq, Repr

namespace ShmStore

/-- `create`, line by line; the segment is mapped before it is zeroed. -/
def all : List ShmStore :=
  [.truncate, .zero, .construct, .magic, .version, .slotBytes, .capacity, .payloadBytes]

def apply {P : Type} (geometry : ShmGeometry) (contents : ShmContents P) :
    ShmStore → ShmContents P
  | .truncate => { contents with size := geometry.layoutBytes }
  | .zero => { contents with header := {}, ring := contents.ring ++ [.zeroed] }
  | .construct => { contents with header := {}, ring := contents.ring ++ [.constructed] }
  | .magic => { contents with header := { contents.header with magic := kShmMagic } }
  | .version => { contents with header := { contents.header with version := kShmVersion } }
  | .slotBytes =>
      { contents with header := { contents.header with slotBytes := geometry.slotBytes } }
  | .capacity =>
      { contents with header := { contents.header with capacity := geometry.capacity.value } }
  | .payloadBytes =>
      { contents with
        header := { contents.header with payloadBytes := geometry.slotBytes.toUInt64 } }

end ShmStore

namespace ShmCheck

/-- `attach`, line by line; the segment is mapped after its size is checked. -/
def all : List ShmCheck :=
  [.size, .magic, .version, .slotBytes, .capacity]

def passes {P : Type} (geometry : ShmGeometry) (contents : ShmContents P) : ShmCheck → Bool
  | .size => geometry.layoutBytes ≤ contents.size
  | .magic => contents.header.magic == kShmMagic
  | .version => contents.header.version == kShmVersion
  | .slotBytes => contents.header.slotBytes == geometry.slotBytes
  | .capacity => contents.header.capacity == geometry.capacity.value

end ShmCheck

/-- A segment, whose it is, and how many of the stores of `create` it has seen. -/
structure ShmSegment (P : Type) where
  owner : P
  geometry : ShmGeometry
  stores : Nat := 0
  contents : ShmContents P := {}

inductive ShmRole where
  | create (unlinkOnClose : Bool)
  | attach
  deriving DecidableEq, Repr

/-- One `ShmRing` object. -/
structure ShmParty (Name : Type) where
  name : Name
  geometry : ShmGeometry
  role : ShmRole

/-- Where a `ShmRing` object is in its life. -/
inductive ShmPc where
  | idle
  | unlinked
  | creating (segment stores : Nat)
  | attaching (segment checks : Nat)
  | inUse (segment : Nat) (unlinks : Bool)
  | unlinking
  | gone
  deriving DecidableEq, Repr

/-- What a party does next; its next call may fail. -/
inductive ShmInput where
  | advance (fails : Bool)
  | use
  | close
  | crash
  deriving DecidableEq, Repr

/-- The names and segments the kernel keeps, and where every party is. -/
structure ShmWorld (Name P : Type) where
  names : Name → Option Nat := fun _ => none
  segments : List (ShmSegment P) := []
  pc : P → ShmPc := fun _ => .idle

namespace ShmWorld

variable {Name P : Type} [DecidableEq Name] [DecidableEq P]

def goTo (world : ShmWorld Name P) (p : P) (pc : ShmPc) : ShmWorld Name P :=
  { world with pc := Function.update world.pc p pc }

/-- `shm_unlink`; the segment lives on in those who have it open. -/
def unlink (world : ShmWorld Name P) (name : Name) : ShmWorld Name P :=
  { world with names := Function.update world.names name none }

/-- `shm_open` with `O_CREAT | O_EXCL` where the name is free. -/
def openNew (world : ShmWorld Name P) (p : P) (party : ShmParty Name) : ShmWorld Name P :=
  { world with
    names := Function.update world.names party.name (some world.segments.length)
    segments := world.segments ++ [{ owner := p, geometry := party.geometry }] }

/-- The next store of `create`. -/
def store (world : ShmWorld Name P) (id : Nat) (geometry : ShmGeometry) (store : ShmStore) :
    ShmWorld Name P :=
  { world with
    segments := world.segments.modify id fun segment =>
      { segment with
        stores := segment.stores + 1, contents := store.apply geometry segment.contents } }

/-- An access to the ring itself. -/
def touch (world : ShmWorld Name P) (id : Nat) (p : P) : ShmWorld Name P :=
  { world with
    segments := world.segments.modify id fun segment =>
      { segment with
        contents := { segment.contents with ring := segment.contents.ring ++ [.used p] } } }

/-- One step of `create`, of `attach` or of the destructor. -/
def advance (world : ShmWorld Name P) (p : P) (party : ShmParty Name) (fails : Bool) :
    ShmWorld Name P :=
  match world.pc p with
  | .idle =>
      match party.role with
      | .create _ => (world.unlink party.name).goTo p .unlinked
      | .attach =>
          match world.names party.name with
          | some id => world.goTo p (if fails then .gone else .attaching id 0)
          | none => world.goTo p .gone
  | .unlinked =>
      match world.names party.name with
      | some _ => world.goTo p .gone
      | none =>
          if fails then world.goTo p .gone
          else (world.openNew p party).goTo p (.creating world.segments.length 0)
  | .creating id n =>
      -- `ftruncate` takes the name back when it fails, `mmap` leaves it
      if fails && n == 0 then (world.unlink party.name).goTo p .gone
      else if fails && n == 1 then world.goTo p .gone
      else
        match ShmStore.all[n]? with
        | none => world
        | some store =>
            (world.store id party.geometry store).goTo p
              (if n + 1 = ShmStore.all.length then .inUse id (party.role == .create true)
              else .creating id (n + 1))
  | .attaching id n =>
      match ShmCheck.all[n]?, world.segments[id]? with
      | some check, some segment =>
          -- `fstat` and `mmap` come before the first two checks
          if (fails && decide (n ≤ 1)) || !check.passes party.geometry segment.contents then
            world.goTo p .gone
          else if n + 1 = ShmCheck.all.length then world.goTo p (.inUse id false)
          else world.goTo p (.attaching id (n + 1))
      | _, _ => world
  | .unlinking => (world.unlink party.name).goTo p .gone
  | .inUse _ _ | .gone => world

def step (parties : P → ShmParty Name) (world : ShmWorld Name P) :
    P × ShmInput → ShmWorld Name P
  | (p, .advance fails) => world.advance p (parties p) fails
  | (p, .use) =>
      match world.pc p with
      | .inUse id _ => world.touch id p
      | _ => world
  | (p, .close) =>
      match world.pc p with
      | .inUse _ unlinks => world.goTo p (if unlinks then .unlinking else .gone)
      | _ => world
  | (p, .crash) => world.goTo p .gone

def run (parties : P → ShmParty Name) (world : ShmWorld Name P)
    (schedule : List (P × ShmInput)) : ShmWorld Name P :=
  schedule.foldl (step parties) world

end ShmWorld

/-! ## What a check says -/

namespace ShmGeometry

variable {P : Type}

theorem layoutBytes_congr {built geometry : ShmGeometry}
    (slots : built.slotBytes = geometry.slotBytes)
    (capacity : built.capacity.value = geometry.capacity.value) :
    built.layoutBytes = geometry.layoutBytes := by
  unfold layoutBytes Capacity.size
  rw [slots, capacity]

/-- The contents of a segment while `create` fills it. -/
def publication (P : Type) (geometry : ShmGeometry) : Publication (ShmContents P) ShmStore where
  fresh := {}
  apply contents store := store.apply geometry contents
  stores := ShmStore.all

theorem after_of_le {geometry : ShmGeometry} {n : Nat} (all : 8 ≤ n) :
    (geometry.publication P).after n = (geometry.publication P).after 8 :=
  Publication.after_of_le all

/-- A segment has its size from the first store on. -/
theorem size_after {geometry : ShmGeometry} {n : Nat} (some : 1 ≤ n) :
    ((geometry.publication P).after n).size = geometry.layoutBytes := by
  by_cases all : 8 ≤ n
  · rw [after_of_le all]
    rfl
  · interval_cases n <;> rfl

/-- The ring is zeroed by the second store and constructed by the third. -/
theorem ring_after (geometry : ShmGeometry) (n : Nat) :
    ((geometry.publication P).after n).ring = [.zeroed, .constructed].take (n - 1) := by
  by_cases all : 8 ≤ n
  · rw [after_of_le all, List.take_of_length_le]
    · rfl
    · change 2 ≤ n - 1
      omega
  · interval_cases n <;> rfl

/-- The store after which a check can pass. -/
def storeOf : ShmCheck → Nat
  | .size => 1
  | .magic => 4
  | .version => 5
  | .slotBytes => 6
  | .capacity => 7

/-- No check passes before its field is stored, and no later store changes its answer. -/
theorem settles (built geometry : ShmGeometry) (check : ShmCheck) :
    (built.publication P).Settles (fun contents => check.passes geometry contents)
      (storeOf check) := by
  have capacity : (0 : UInt64) ≠ geometry.capacity.value := by
    intro zero
    have two := geometry.capacity.atLeastTwo
    rw [← zero] at two
    exact absurd two (by decide)
  have magic : (0 : UInt64) ≠ kShmMagic := by decide
  have version : (0 : UInt32) ≠ kShmVersion := by decide
  have slots := geometry.slotted.symm
  have headed : ¬geometry.layoutBytes ≤ 0 := by
    apply Nat.not_le_of_lt
    apply Nat.lt_of_lt_of_le (show 0 < kShmHeaderBytes by decide)
    exact Nat.le_trans (Nat.le_add_right _ _) (Nat.le_add_right _ _)
  have last : ∀ k, storeOf check ≤ k → ∃ j, storeOf check ≤ j ∧ j ≤ 8 ∧
      (built.publication P).after k = (built.publication P).after j := by
    intro k later
    by_cases all : 8 ≤ k
    · exact ⟨8, by cases check <;> decide, Nat.le_refl 8, after_of_le all⟩
    · exact ⟨k, later, by omega, rfl⟩
  constructor
  · intro k early
    cases check <;> simp only [storeOf] at early <;> interval_cases k <;>
      simp [Publication.after, publication, ShmStore.all, ShmStore.apply, ShmCheck.passes, *]
  · intro k later
    obtain ⟨j, least, most, same⟩ := last k later
    rw [same]
    cases check <;> simp only [storeOf] at least ⊢ <;> interval_cases j <;> rfl

end ShmGeometry

/-! ## What holds in every state -/

section

variable {Name P : Type}

namespace ShmSegment

/-- What the owner of a segment has stored so far. -/
def stored (segment : ShmSegment P) : ShmContents P :=
  (segment.geometry.publication P).after segment.stores

/-- A segment holds what its owner has stored, and no ring is used before it can be attached. -/
structure Filled (segment : ShmSegment P) : Prop where
  size : segment.contents.size = segment.stored.size
  header : segment.contents.header = segment.stored.header
  ring : ∃ users : List P, segment.contents.ring = segment.stored.ring ++ users.map .used ∧
    (users ≠ [] → 7 ≤ segment.stores)
  most : segment.stores ≤ 8

/-- The ring was zeroed once, then constructed once, and has only been used since. -/
def Constructed (segment : ShmSegment P) : Prop :=
  ∃ users : List P, segment.contents.ring = [.zeroed, .constructed] ++ users.map .used

/-- The first `n` checks of a party have passed, and would pass again. -/
def Passed (segment : ShmSegment P) (geometry : ShmGeometry) (n : Nat) : Prop :=
  ∀ check ∈ ShmCheck.all.take n, check.passes geometry segment.stored = true

variable {segment later : ShmSegment P} {geometry : ShmGeometry}

theorem Filled.passes (filled : segment.Filled) (check : ShmCheck) :
    check.passes geometry segment.contents = check.passes geometry segment.stored := by
  cases check <;> simp only [ShmCheck.passes, filled.size, filled.header]

/-- More stores fail no check that has passed. -/
theorem Passed.mono {n : Nat} (passed : segment.Passed geometry n)
    (same : later.geometry = segment.geometry) (grown : segment.stores ≤ later.stores) :
    later.Passed geometry n := by
  intro check member
  have before := passed check member
  unfold stored at before ⊢
  rw [same]
  exact (segment.geometry.settles geometry check).mono before grown

/-- Whoever has passed every check has a ring of its own geometry, constructed and large enough. -/
theorem Passed.all (passed : segment.Passed geometry 5) :
    7 ≤ segment.stores ∧ segment.geometry.slotBytes = geometry.slotBytes ∧
      segment.geometry.capacity.value = geometry.capacity.value := by
  have capacity := passed .capacity (by decide)
  have slots := passed .slotBytes (by decide)
  have done := (segment.geometry.settles geometry .capacity).done capacity
  obtain ⟨n, same⟩ : ∃ n, segment.stores = 7 + n := ⟨_, (Nat.add_sub_of_le done).symm⟩
  unfold stored at capacity slots
  have fields : ((segment.geometry.publication P).after segment.stores).header.capacity =
        segment.geometry.capacity.value ∧
      ((segment.geometry.publication P).after segment.stores).header.slotBytes =
        segment.geometry.slotBytes := by
    rw [same]
    cases n with
    | zero => exact ⟨rfl, rfl⟩
    | succ n =>
        rw [ShmGeometry.after_of_le (by omega)]
        exact ⟨rfl, rfl⟩
  rw [ShmCheck.passes, fields.1, beq_iff_eq] at capacity
  rw [ShmCheck.passes, fields.2, beq_iff_eq] at slots
  exact ⟨done, slots, capacity⟩

/-- A segment fully stored is passed by those of its geometry. -/
theorem passed_of_full (full : segment.stores = 8)
    (slots : segment.geometry.slotBytes = geometry.slotBytes)
    (capacity : segment.geometry.capacity.value = geometry.capacity.value) :
    segment.Passed geometry 5 := by
  have fits := Nat.le_of_eq (ShmGeometry.layoutBytes_congr slots capacity).symm
  intro check _
  unfold stored
  rw [full]
  cases check with
  | size => exact decide_eq_true fits
  | magic => rfl
  | version => rfl
  | slotBytes => exact beq_iff_eq.mpr slots
  | capacity => exact beq_iff_eq.mpr capacity

end ShmSegment

end

end VoiceHotPath
