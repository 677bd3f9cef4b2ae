import VoiceHotPath.Consumer.UdsIngest
import VoiceHotPath.Ring.Calls

/-!
# The ingest thread and its buffer

Where `run` and `pump` are, and what they have read of the connection but not yet
looked at.  These bytes are all that matters of the read buffer: on them alone the
thread takes the same steps.
-/

namespace VoiceHotPath

/-- The locals of the next call of `pump`; the counters go on. -/
def Pump.reconnected (p : Pump) : Pump :=
  { handed := p.handed, ringFullDrops := p.ringFullDrops }

/-- Where the ingest thread is. -/
inductive IngestPc where
  | accepting
  | reading
  | scanning
  | pushing (frame : AudioFrame) (need : Nat) (nowNs : UInt64)
  | ended

/-- What a step of the ingest thread reads: whether it stops, what `read` finds, the clock. -/
structure IngestInput where
  stop : Bool
  bytes : List UInt8
  nowNs : UInt64

namespace IngestPc

/-- The frame `pump` is handing over. -/
def offering : IngestPc → Option AudioFrame
  | .pushing frame _ nowNs => some (frame.stamped nowNs)
  | _ => none

/-- A connection is being served. -/
def connected : IngestPc → Bool
  | .accepting | .ended => false
  | _ => true

end IngestPc

/-! ## Where the bytes not yet looked at are -/

def Holds (ingest : IngestPc) (pump : Pump) (left : List UInt8) : Prop :=
  match ingest with
  | .reading => Block.load pump.buf 0 pump.filled = left ∧ left.length = pump.filled ∧
      nextFrame left = .more
  | .scanning => pump.InBounds ∧ pump.pending = left
  | .pushing frame need _ =>
      pump.InBounds ∧ pump.pending = left ∧ nextFrame left = .item frame need
  | .accepting | .ended => False

section

variable {pump : Pump} {left bytes : List UInt8} {frame : AudioFrame} {need : Nat}
  {nowNs : UInt64}

theorem holds_reconnected (p : Pump) : Holds .reading p.reconnected [] :=
  ⟨Block.load_zero_len _ _, rfl, rfl⟩

theorem Holds.room_eq (holds : Holds .reading pump left) :
    pump.room = kReadBufBytes - left.length := by
  obtain ⟨-, length, -⟩ := holds
  rw [length]
  rfl

/-- What is read goes behind what was left. -/
theorem Holds.receive (holds : Holds .reading pump left) (room : bytes.length ≤ pump.room) :
    Holds .scanning (pump.receive bytes) (left ++ bytes) := by
  obtain ⟨front, length, verdict⟩ := holds
  have small := Pump.room_of_more verdict
  have fits : pump.filled + bytes.length ≤ kReadBufBytes := by
    unfold Pump.room at room
    omega
  refine ⟨⟨Nat.zero_le _, fits⟩, ?_⟩
  rw [← front]
  exact Block.load_store_append pump.buf fits

theorem Holds.turn (holds : Holds .scanning pump left) : pump.turn = nextFrame left := by
  obtain ⟨bounds, pending⟩ := holds
  rw [bounds.turn, pending]

/-- Too little for a frame is moved to the front, and never as much as the buffer. -/
theorem Holds.carry (holds : Holds .scanning pump left) (verdict : nextFrame left = .more) :
    Holds .reading pump.compact.guardDesync left := by
  obtain ⟨bounds, pending⟩ := holds
  obtain ⟨-, -, filled, front⟩ := bounds.compact
  have length : left.length = pump.compact.filled := by
    rw [filled, ← pending, bounds.length_pending]
  have small : pump.compact.filled < kReadBufBytes := by
    rw [← length]
    exact Pump.room_of_more verdict
  rw [Pump.guardDesync_of_lt small]
  exact ⟨front.trans pending, length, verdict⟩

/-- A frame that has been handed over is stepped over. -/
theorem Holds.hand (holds : Holds (.pushing frame need nowNs) pump left) (host : Host) :
    Holds .scanning (pump.hand host frame need) (left.drop need) := by
  obtain ⟨bounds, pending, verdict⟩ := holds
  have front : nextFrame pump.pending = .item frame need := by
    rw [pending]
    exact verdict
  obtain ⟨bounds', pending', -, -⟩ := bounds.hand host front
  exact ⟨bounds', pending'.trans (by rw [pending])⟩

end

/-! ## The thread on these bytes -/

/-- The ingest thread, with the bytes it has not looked at in place of the buffer. -/
structure IngestView where
  left : List UInt8 := []
  handed : List AudioFrame := []
  ringFullDrops : UInt64 := 0
  pc : IngestPc := .accepting

/-- A step, and the frame whose `try_push` takes one with it. -/
def IngestView.step (view : IngestView) (input : IngestInput) (answer : Option PushResult) :
    IngestView × Option AudioFrame :=
  match view.pc with
  | .accepting =>
      if input.stop then ({ view with pc := .ended }, none)
      else ({ view with pc := .reading, left := [] }, none)
  | .reading =>
      let bytes := input.bytes.take (kReadBufBytes - view.left.length)
      if input.stop ∨ bytes = [] then ({ view with pc := .accepting }, none)
      else ({ view with pc := .scanning, left := view.left ++ bytes }, none)
  | .scanning =>
      match nextFrame view.left with
      | .more => ({ view with pc := .reading }, none)
      | .stop => ({ view with pc := .accepting }, none)
      | .item frame need =>
          ({ view with pc := .pushing frame need input.nowNs }, some (frame.stamped input.nowNs))
  | .pushing frame need nowNs =>
      match answer with
      | none => (view, some (frame.stamped nowNs))
      | some result =>
          ({ left := view.left.drop need
             handed := view.handed ++ [frame.stamped nowNs]
             ringFullDrops :=
               if result == .full then view.ringFullDrops + 1 else view.ringFullDrops
             pc := .scanning }, some (frame.stamped nowNs))
  | .ended => (view, none)

/-- What the view shows of the thread. -/
structure Views (pump : Pump) (pc : IngestPc) (view : IngestView) : Prop where
  located : view.pc = pc
  holds : pc.connected = true → Holds pc pump view.left
  handed : view.handed = pump.handed
  drops : view.ringFullDrops = pump.ringFullDrops

theorem views_initial : Views {} .accepting {} :=
  ⟨rfl, nofun, rfl, rfl⟩

end VoiceHotPath
