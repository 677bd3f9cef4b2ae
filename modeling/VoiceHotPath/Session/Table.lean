import VoiceHotPath.Lib.LinearProbing
import VoiceHotPath.Vad.Assembler

/-!
# The session table

Sessions are preallocated and handed out from a free list; an open-addressed
table of storage indices finds the session of a call.  Releasing a session
leaves a tombstone, and a sweep that leaves too many of them rebuilds the table.
-/

namespace VoiceHotPath

structure Session (D : Type) where
  assembler : ChunkAssembler D
  id : UInt32 := 0
  active : Bool := false
  prevFrameNs : UInt64 := 0
  lastFrameNs : UInt64 := 0
  lastLoudProduceNs : UInt64 := 0
  lastSeq : UInt64 := 0
  frames : UInt64 := 0
  haveLastSeq : Bool := false
  deriving DecidableEq, Repr

/-- Slots hold storage indices or one of two marks above every index. -/
structure SessionTable (D : Type) where
  maxSessions : Nat
  slotMask : Nat
  slots : List Nat
  sessions : List (Session D)
  /-- The back of the vector first. -/
  freeList : List Nat
  tombstones : Nat := 0
  live : Nat := 0
  peakLive : Nat := 0
  opened : UInt64 := 0
  rejected : UInt64 := 0
  deriving DecidableEq, Repr

def kEmpty : Nat := 0xFFFFFFFF

def kTombstone : Nat := 0xFFFFFFFE

/-- `while (result < value) result <<= 1`, at most `fuel` times. -/
def doubleUntil (value : Nat) : Nat → Nat → Nat
  | 0, result => result
  | fuel + 1, result => if result < value then doubleUntil value fuel (2 * result) else result

/-- The least power of two from `value` on; `value` doublings always suffice. -/
def nextPow2 (value : Nat) : Nat :=
  doubleUntil value value 1

namespace Session

variable {D : Type}

def make [Double D] (config : ChunkerConfig D) : Session D :=
  { assembler := ChunkAssembler.make config }

/-- What `acquire` sets on a session it finds. -/
def stamp (nowNs : UInt64) (session : Session D) : Session D :=
  { session with lastFrameNs := nowNs }

/-- The fields `acquire` sets on a session it opens; the assembler is not among them. -/
def openFor (id : UInt32) (nowNs : UInt64) (session : Session D) : Session D :=
  { session with
    id := id
    active := true
    prevFrameNs := 0
    lastFrameNs := nowNs
    lastLoudProduceNs := 0
    haveLastSeq := false
    frames := 0 }

/-- A session after `assembler.flush`. -/
def flushed (nowNs : UInt64) (session : Session D) : Session D :=
  { session with assembler := (session.assembler.flush nowNs).1 }

/-- A session after `assembler.on_frame`. -/
def fed [Double D] (frame : AudioFrame) (nowNs : UInt64) (session : Session D) : Session D :=
  { session with assembler := (session.assembler.onFrame frame nowNs).1 }

end Session

namespace SessionTable

section

variable {D : Type}

def make [Double D] (maxSessions : Nat) (config : ChunkerConfig D) : SessionTable D :=
  let maxSessions := if maxSessions = 0 then 1 else maxSessions
  let slotMask := nextPow2 (maxSessions * 2) - 1
  { maxSessions := maxSessions
    slotMask := slotMask
    slots := List.replicate (slotMask + 1) kEmpty
    sessions := List.replicate maxSessions (Session.make config)
    freeList := List.range maxSessions }

/-- The word in a slot. -/
def slotAt (table : SessionTable D) (slot : Nat) : Nat :=
  table.slots[slot]?.getD kEmpty

def nextSlot (table : SessionTable D) (slot : Nat) : Nat :=
  (slot + 1) &&& table.slotMask

/-- Fibonacci hashing: one multiply, then the high word. -/
def probeStart (table : SessionTable D) (id : UInt32) : Nat :=
  ((id.toUInt64 * 0x9E3779B97F4A7C15) >>> 32).toNat &&& table.slotMask

/-- The storage holds an active session for the call. -/
def serves (table : SessionTable D) (id : UInt32) (index : Nat) : Bool :=
  table.sessions[index]?.any fun candidate => candidate.active && candidate.id == id

/-- The probe loop of `acquire`. -/
def acquireLoop (table : SessionTable D) (id : UInt32) :
    Nat → Nat → Option Nat → LinearProbing.Outcome Nat
  | 0, _, firstTomb => .vacant firstTomb
  | fuel + 1, slot, firstTomb =>
      let occupant := table.slotAt slot
      if occupant = kEmpty then .vacant (some (firstTomb.getD slot))
      else if occupant = kTombstone then
        table.acquireLoop id fuel (table.nextSlot slot) (firstTomb.or (some slot))
      else if table.serves id occupant then .found occupant
      else table.acquireLoop id fuel (table.nextSlot slot) firstTomb

def modifySession (table : SessionTable D) (index : Nat) (edit : Session D → Session D) :
    SessionTable D :=
  { table with sessions := table.sessions.modify index edit }

/-- The open path of `acquire`: storage from the free list, entered in a slot. -/
def openSession (table : SessionTable D) (id : UInt32) (nowNs : UInt64) (insertAt index : Nat)
    (rest : List Nat) : SessionTable D :=
  { table with
    tombstones :=
      if table.slotAt insertAt = kTombstone then table.tombstones - 1 else table.tombstones
    freeList := rest
    slots := table.slots.set insertAt index
    sessions := table.sessions.modify index (Session.openFor id nowNs)
    live := table.live + 1
    opened := table.opened + 1
    peakLive := if table.peakLive < table.live + 1 then table.live + 1 else table.peakLive }

def reject (table : SessionTable D) : SessionTable D :=
  { table with rejected := table.rejected + 1 }

/-- The storage of the call's session, or nothing for a rejected call. -/
def acquire (table : SessionTable D) (id : UInt32) (nowNs : UInt64) :
    SessionTable D × Option Nat :=
  match table.acquireLoop id (table.slotMask + 1) (table.probeStart id) none with
  | .found index =>
      (table.modifySession index (Session.stamp nowNs), some index)
  | .vacant none => (table.reject, none)
  | .vacant (some insertAt) =>
      match table.freeList with
      | [] => (table.reject, none)
      | index :: rest => (table.openSession id nowNs insertAt index rest, some index)

/-- The test of the probe loop of `release`: the slot found, or the defensive stop. -/
def releaseTest (table : SessionTable D) (index slot : Nat) : Option (Option Nat) :=
  if table.slotAt slot = index then some (some slot)
  else if table.slotAt slot = kEmpty then some none
  else none

/-- The slot `release` overwrites. -/
def releaseSlot (table : SessionTable D) (index : Nat) (id : UInt32) : Option Nat :=
  (LinearProbing.scan table.nextSlot (table.releaseTest index) (table.slotMask + 1)
    (table.probeStart id)).join

def release (table : SessionTable D) (index : Nat) (id : UInt32) : SessionTable D :=
  let table :=
    match table.releaseSlot index id with
    | some slot =>
        { table with
          slots := table.slots.set slot kTombstone
          tombstones := table.tombstones + 1 }
    | none => table
  { table with
    sessions := table.sessions.modify index fun session => { session with active := false }
    freeList := index :: table.freeList
    live := table.live - 1 }

/-- The test of the inner loop of `maybe_rebuild`. -/
def placeTest (table : SessionTable D) (slot : Nat) : Option Nat :=
  if table.slotAt slot = kEmpty then some slot else none

/-- The inner loop of `maybe_rebuild`; nothing if it has passed every slot in vain. -/
def placeSlot (table : SessionTable D) (id : UInt32) : Option Nat :=
  LinearProbing.scan table.nextSlot table.placeTest (table.slotMask + 1) (table.probeStart id)

/-- The outer loop of `maybe_rebuild`, over the storage that is left. -/
def rebuildFrom : List Nat → SessionTable D → Option (SessionTable D)
  | [], table => some table
  | index :: rest, table =>
      match table.sessions[index]? with
      | none => rebuildFrom rest table
      | some session =>
          if session.active then
            match table.placeSlot session.id with
            | none => none
            | some slot => rebuildFrom rest { table with slots := table.slots.set slot index }
          else rebuildFrom rest table

/-- Nothing if an inner loop would never terminate. -/
def maybeRebuild (table : SessionTable D) : Option (SessionTable D) :=
  if table.tombstones * 4 ≤ table.slots.length then some table
  else
    rebuildFrom (List.range table.maxSessions)
      { table with slots := List.replicate table.slots.length kEmpty, tombstones := 0 }

/-- Flush and release one session; its tail event carries the session's id. -/
def closeSession (table : SessionTable D) (index : Nat) (session : Session D) (nowNs : UInt64) :
    SessionTable D × List ChunkEvent :=
  let tail := (session.assembler.flush nowNs).2
  ((table.modifySession index (Session.flushed nowNs)).release index session.id,
    (tail.map fun event => { event with sessionId := session.id }).toList)

/-- The loop shared by `expire_idle` and `flush_all`, over the storage that is left. -/
def sweep (due : Session D → Bool) (nowNs : UInt64) :
    List Nat → SessionTable D → SessionTable D × List ChunkEvent
  | [], table => (table, [])
  | index :: rest, table =>
      match table.sessions[index]? with
      | none => sweep due nowNs rest table
      | some session =>
          if !session.active || !due session then sweep due nowNs rest table
          else
            let (closed, tail) := table.closeSession index session nowNs
            let (swept, events) := sweep due nowNs rest closed
            (swept, tail ++ events)

/-- A session that has been quiet for the idle time. -/
def isIdle (nowNs idleNs : UInt64) (session : Session D) : Bool :=
  !(nowNs - session.lastFrameNs < idleNs)

/-- A sweep of all storage, then `maybe_rebuild`; nothing if that does not return. -/
def sweepAll (due : Session D → Bool) (table : SessionTable D) (nowNs : UInt64) :
    Option (SessionTable D × List ChunkEvent) :=
  let (swept, events) := sweep due nowNs (List.range table.maxSessions) table
  (maybeRebuild swept).map fun table => (table, events)

def expireIdle (table : SessionTable D) (nowNs idleNs : UInt64) :
    Option (SessionTable D × List ChunkEvent) :=
  sweepAll (isIdle nowNs idleNs) table nowNs

def flushAll (table : SessionTable D) (nowNs : UInt64) :
    Option (SessionTable D × List ChunkEvent) :=
  sweepAll (fun _ => true) table nowNs

end

section

variable {D : Type} [Double D]

/-- `on_frame` on the assembler of acquired storage. -/
def feed (table : SessionTable D) (index : Nat) (frame : AudioFrame) (nowNs : UInt64) :
    SessionTable D × Option ChunkEvent :=
  match table.sessions[index]? with
  | none => (table, none)
  | some session =>
      if session.active then
        (table.modifySession index (Session.fed frame nowNs),
          (session.assembler.onFrame frame nowNs).2)
      else (table, none)

/-- A new table holds new sessions only. -/
theorem eq_make_of_mem {maxSessions : Nat} {config : ChunkerConfig D} {session : Session D}
    (member : session ∈ (make maxSessions config).sessions) : session = Session.make config :=
  List.eq_of_mem_replicate member

theorem eq_make_of_getElem? {maxSessions : Nat} {config : ChunkerConfig D} {i : Nat}
    {session : Session D} (here : (make maxSessions config).sessions[i]? = some session) :
    session = Session.make config :=
  eq_make_of_mem (List.mem_of_getElem? here)

theorem inactive_of_make {maxSessions : Nat} {config : ChunkerConfig D} {i : Nat}
    {session : Session D} (here : (make maxSessions config).sessions[i]? = some session) :
    session.active = false := by
  rw [eq_make_of_getElem? here]
  rfl

end

end SessionTable

end VoiceHotPath
