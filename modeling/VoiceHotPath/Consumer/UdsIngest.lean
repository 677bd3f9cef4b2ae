import VoiceHotPath.Consumer.Wire
import Mathlib.Data.List.Infix

/-!
# The socket ingest

`pump` with its read buffer: bytes are read behind those carried over, the inner
loop hands every complete frame to the queue, and what is left is moved to the
front.  The clock and the fullness of the queue are asked once for each frame
handed over.
-/

namespace VoiceHotPath

/-- `buf.size()`. -/
def kReadBufBytes : Nat := 65536

/-- What the `n`-th frame handed over meets: the time, and whether the queue is full. -/
structure Host where
  nowNs : Nat → UInt64
  ringFull : Nat → Bool

/-- A frame as it is handed over at `now`. -/
def AudioFrame.stamped (now : UInt64) (frame : AudioFrame) : AudioFrame :=
  if frame.hdr.tProduceNs = 0 then { frame with hdr := { frame.hdr with tProduceNs := now } }
  else frame

namespace Host

/-- The frames as they are handed over from the `n`-th on. -/
def stamp (host : Host) (n : Nat) (frames : List AudioFrame) : List AudioFrame :=
  frames.mapIdx fun i frame => frame.stamped (host.nowNs (n + i))

@[simp] theorem stamp_nil (host : Host) (n : Nat) : host.stamp n [] = [] := rfl

@[simp] theorem length_stamp (host : Host) (n : Nat) (frames : List AudioFrame) :
    (host.stamp n frames).length = frames.length :=
  List.length_mapIdx

theorem stamp_cons (host : Host) (n : Nat) (frame : AudioFrame) (frames : List AudioFrame) :
    host.stamp n (frame :: frames) =
      frame.stamped (host.nowNs n) :: host.stamp (n + 1) frames := by
  unfold stamp
  rw [List.mapIdx_cons]
  congr 2
  funext i later
  rw [Nat.add_right_comm, Nat.add_assoc]

theorem stamp_append (host : Host) (n : Nat) (frames later : List AudioFrame) :
    host.stamp n (frames ++ later) =
      host.stamp n frames ++ host.stamp (n + frames.length) later := by
  induction frames generalizing n with
  | nil => rfl
  | cons frame frames ih =>
      rw [List.cons_append, stamp_cons, stamp_cons, ih, List.cons_append, List.length_cons,
        Nat.add_right_comm, Nat.add_assoc]

end Host

/-- The locals of `pump`, the frames handed to `try_push`, and the counter of refused ones. -/
structure Pump where
  buf : Vector UInt8 kReadBufBytes := Vector.replicate _ 0
  filled : Nat := 0
  offset : Nat := 0
  handed : List AudioFrame := []
  ringFullDrops : UInt64 := 0
  closed : Bool := false

namespace Pump

/-- The room `read` is given. -/
def room (p : Pump) : Nat :=
  kReadBufBytes - p.filled

/-- The test of the inner loop and its body up to `try_push`. -/
def turn (p : Pump) : Framing.Verdict AudioFrame :=
  if p.filled - p.offset < kWireLengthBytes then .more
  else
    let payloadLen := UInt32.ofNat (littleEndian (Block.load p.buf p.offset kWireLengthBytes))
    if kMaxWirePayload < payloadLen.toNat then .stop
    else
      let need := kWireLengthBytes + kHeaderBytes + payloadLen.toNat
      if p.filled - p.offset < need then .more
      else
        let header := Block.load p.buf (p.offset + kWireLengthBytes) kHeaderBytes
        let payload := Block.load p.buf (p.offset + kWireLengthBytes + kHeaderBytes)
          payloadLen.toNat
        .item
          { hdr := { FrameHeader.ofBytes header with byteLen := payloadLen }
            payload := Block.store (Vector.replicate _ 0) 0 payload } need

/-- The rest of the body: the frame is stamped, offered to the queue and stepped over. -/
def hand (host : Host) (p : Pump) (frame : AudioFrame) (need : Nat) : Pump :=
  { p with
    offset := p.offset + need
    handed := p.handed ++ [frame.stamped (host.nowNs p.handed.length)]
    ringFullDrops :=
      if host.ringFull p.handed.length then p.ringFullDrops + 1 else p.ringFullDrops }

/-- The inner loop.  Every frame takes bytes, so `filled` turns are enough. -/
def scan (host : Host) : Nat → Pump → Pump
  | 0, p => p
  | fuel + 1, p =>
    match p.turn with
    | .more => p
    | .stop => { p with closed := true }
    | .item frame need => scan host fuel (p.hand host frame need)

/-- The bytes of one `read`, behind those carried over. -/
def receive (p : Pump) (bytes : List UInt8) : Pump :=
  { p with
    buf := Block.store p.buf p.filled bytes
    filled := p.filled + bytes.length
    offset := 0 }

@[simp] theorem receive_filled (p : Pump) (bytes : List UInt8) :
    (p.receive bytes).filled = p.filled + bytes.length := rfl

@[simp] theorem receive_offset (p : Pump) (bytes : List UInt8) :
    (p.receive bytes).offset = 0 := rfl

@[simp] theorem receive_handed (p : Pump) (bytes : List UInt8) :
    (p.receive bytes).handed = p.handed := by
  unfold receive
  generalize Block.store p.buf p.filled bytes = buf
  rfl

@[simp] theorem receive_closed (p : Pump) (bytes : List UInt8) :
    (p.receive bytes).closed = p.closed := by
  unfold receive
  generalize Block.store p.buf p.filled bytes = buf
  rfl

@[simp] theorem receive_ringFullDrops (p : Pump) (bytes : List UInt8) :
    (p.receive bytes).ringFullDrops = p.ringFullDrops := by
  unfold receive
  generalize Block.store p.buf p.filled bytes = buf
  rfl

/-- The state in which the inner loop leaves the bytes of one `read`. -/
def scanned (host : Host) (p : Pump) (bytes : List UInt8) : Pump :=
  (p.receive bytes).scan host (p.receive bytes).filled

def compact (p : Pump) : Pump :=
  if 0 < p.offset then
    { p with
      buf := Block.move p.buf 0 p.offset (p.filled - p.offset)
      filled := p.filled - p.offset }
  else p

def guardDesync (p : Pump) : Pump :=
  if p.filled = kReadBufBytes then { p with filled := 0 } else p

/-- One turn of the outer loop; no bytes are the end of the stream. -/
def onRead (host : Host) (p : Pump) (bytes : List UInt8) : Pump :=
  if p.closed then p
  else if bytes = [] then { p with closed := true }
  else
    let left := p.scanned host bytes
    if left.closed then left else left.compact.guardDesync

/-- Carrying bytes over to the next read counts nothing. -/
theorem counts_carry (p : Pump) :
    p.compact.guardDesync.handed = p.handed ∧
      p.compact.guardDesync.ringFullDrops = p.ringFullDrops := by
  unfold guardDesync compact
  split <;> split <;> exact ⟨rfl, rfl⟩

end Pump

/-- A connection whose stream arrives in these reads. -/
def pump (host : Host) (reads : List (List UInt8)) : Pump :=
  reads.foldl (Pump.onRead host) {}

namespace Pump

/-- What `read` may return: some bytes, and no more than there is room for. -/
def Accepts (p : Pump) (bytes : List UInt8) : Prop :=
  p.closed = false → 0 < bytes.length ∧ bytes.length ≤ p.room

/-- Every read of a connection is one `read` may return. -/
def Fits (host : Host) (reads : List (List UInt8)) : Prop :=
  ∀ earlier bytes, earlier ++ [bytes] <+: reads → (pump host earlier).Accepts bytes

/-- The bytes not yet looked at. -/
def pending (p : Pump) : List UInt8 :=
  Block.load p.buf p.offset (p.filled - p.offset)

/-- The offsets stay in the buffer. -/
structure InBounds (p : Pump) : Prop where
  offset_le : p.offset ≤ p.filled
  filled_le : p.filled ≤ kReadBufBytes

section

variable {host : Host} {p : Pump}

theorem InBounds.length_pending (bounds : p.InBounds) :
    p.pending.length = p.filled - p.offset := by
  have below := bounds.offset_le
  have room := bounds.filled_le
  exact Block.length_load _ (by omega)

/-- A turn of the inner loop reads off the front of what is pending. -/
theorem InBounds.turn (bounds : p.InBounds) : p.turn = nextFrame p.pending := by
  have length := bounds.length_pending
  unfold Pump.turn nextFrame
  rw [length]
  split
  · rfl
  · rename_i sized
    have front : p.pending.take kWireLengthBytes = Block.load p.buf p.offset kWireLengthBytes :=
      Block.take_load _ _ (Nat.le_of_not_lt sized)
    have small := littleEndian_lt (Block.load p.buf p.offset kWireLengthBytes)
    have four : (Block.load p.buf p.offset kWireLengthBytes).length = kWireLengthBytes := by
      rw [← front]
      exact List.length_take_of_le (by omega)
    rw [four] at small
    have number := UInt32.toNat_ofNat_of_lt' small
    rw [front]
    dsimp only
    rw [number]
    generalize littleEndian (Block.load p.buf p.offset kWireLengthBytes) = len
    split
    · rfl
    · split
      · rfl
      · rename_i complete
        have header : (p.pending.drop kWireLengthBytes).take kHeaderBytes =
            Block.load p.buf (p.offset + kWireLengthBytes) kHeaderBytes := by
          unfold pending
          rw [Block.drop_load, Block.take_load _ _ (by omega)]
        have payload : (p.pending.drop (kWireLengthBytes + kHeaderBytes)).take len =
            Block.load p.buf (p.offset + kWireLengthBytes + kHeaderBytes) len := by
          unfold pending
          rw [Block.drop_load, Block.take_load _ _ (by omega), Nat.add_assoc]
        have counted : (Block.load p.buf (p.offset + kWireLengthBytes + kHeaderBytes) len).length =
            len := by
          rw [← payload, List.length_take, List.length_drop]
          omega
        rw [header, payload, AudioFrame.ofWire, counted]

/-- What the inner loop makes of a state in which `frames` are pending. -/
structure Scanned (host : Host) (p : Pump) (frames : List AudioFrame)
    (rest : Option (List UInt8)) (q : Pump) : Prop where
  bounds : q.InBounds
  handed : q.handed = p.handed ++ host.stamp p.handed.length frames
  closed : q.closed = rest.isNone
  pending : ∀ left, rest = some left → q.pending = left

theorem InBounds.hand (bounds : p.InBounds) (host : Host) {frame : AudioFrame} {need : Nat}
    (verdict : nextFrame p.pending = .item frame need) :
    (p.hand host frame need).InBounds ∧
      (p.hand host frame need).pending = p.pending.drop need ∧
      0 < need ∧ p.offset + need ≤ p.filled := by
  obtain ⟨some, inside⟩ := nextFrame_stable.bounds verdict
  rw [bounds.length_pending] at inside
  have below := bounds.offset_le
  refine ⟨⟨?_, bounds.filled_le⟩, ?_, some, by omega⟩
  · change p.offset + need ≤ p.filled
    omega
  · unfold Pump.pending
    rw [Block.drop_load, Nat.sub_sub]
    rfl

/-- The inner loop hands over the frames that are pending, and leaves what they leave. -/
theorem InBounds.scan (bounds : p.InBounds) (running : p.closed = false) {fuel : Nat}
    (enough : p.filled - p.offset ≤ fuel) :
    ∃ frames rest, Framing.Parse nextFrame p.pending frames rest ∧
      Scanned host p frames rest (p.scan host fuel) := by
  induction fuel generalizing p with
  | zero =>
      have empty : p.pending = [] := by
        apply List.length_eq_zero_iff.mp
        rw [bounds.length_pending]
        exact Nat.le_zero.mp enough
      refine ⟨[], some [], ?_, bounds, ?_, running, ?_⟩
      · rw [empty]
        exact .more rfl
      · simp [Pump.scan]
      · intro left same
        cases same
        exact empty
  | succ fuel ih =>
      unfold Pump.scan
      rw [bounds.turn]
      cases verdict : nextFrame p.pending with
      | more =>
          refine ⟨[], some p.pending, .more verdict, bounds, ?_, running, ?_⟩
          · simp
          · intro left same
            exact Option.some.inj same
      | stop =>
          refine ⟨[], none, .stop verdict, ⟨bounds.offset_le, bounds.filled_le⟩, ?_, rfl, ?_⟩
          · simp
          · intro left absent
            cases absent
      | item frame need =>
          obtain ⟨bounds', left, some, inside⟩ := bounds.hand host verdict
          have shorter : (p.hand host frame need).filled - (p.hand host frame need).offset ≤
              fuel := by
            change p.filled - (p.offset + need) ≤ fuel
            omega
          obtain ⟨frames, rest, parse, scanned⟩ := ih bounds' running shorter
          rw [left] at parse
          refine ⟨frame :: frames, rest, .item verdict parse, scanned.bounds, ?_,
            scanned.closed, scanned.pending⟩
          rw [scanned.handed, Host.stamp_cons]
          simp [Pump.hand]

/-- Compaction moves what is pending to the front. -/
theorem InBounds.compact (bounds : p.InBounds) :
    p.compact.handed = p.handed ∧ p.compact.closed = p.closed ∧
      p.compact.filled = p.filled - p.offset ∧
      Block.load p.compact.buf 0 p.compact.filled = p.pending := by
  have below := bounds.offset_le
  have room := bounds.filled_le
  unfold Pump.compact
  split
  · exact ⟨rfl, rfl, rfl, Block.load_move p.buf (by omega) (by omega)⟩
  · rename_i still
    have start : p.offset = 0 := Nat.eq_zero_of_not_pos still
    refine ⟨rfl, rfl, ?_, ?_⟩
    · rw [start, Nat.sub_zero]
    · unfold Pump.pending
      rw [start, Nat.sub_zero]

theorem guardDesync_of_lt (small : p.filled < kReadBufBytes) : p.guardDesync = p :=
  if_neg (Nat.ne_of_lt small)

/-- What is left of a stream leaves room in the buffer. -/
theorem room_of_more {left : List UInt8} (verdict : nextFrame left = .more) :
    left.length < kReadBufBytes :=
  Nat.lt_trans (Wire.length_lt (nextFrame_more verdict)) (by decide)

/-- The pump has handed over the frames of the stream read so far and carries what they leave. -/
structure Follows (host : Host) (stream : List UInt8) (frames : List AudioFrame)
    (rest : Option (List UInt8)) (p : Pump) : Prop where
  parse : Framing.Parse nextFrame stream frames rest
  handed : p.handed = host.stamp 0 frames
  closed : p.closed = rest.isNone
  carried : ∀ left, rest = some left → Block.load p.buf 0 p.filled = left ∧
    left.length = p.filled

namespace Follows

variable {stream left bytes : List UInt8} {frames : List AudioFrame}
  {rest : Option (List UInt8)}

theorem filled_lt (follows : Follows host stream frames (some left) p) :
    p.filled < kWireLengthBytes + kHeaderBytes + kMaxWirePayload := by
  obtain ⟨_, length⟩ := follows.carried left rfl
  rw [← length]
  exact Wire.length_lt (nextFrame_more follows.parse.wants_more)

/-- The inner loop parses what was carried over and what was read. -/
theorem scanned (follows : Follows host stream frames (some left) p)
    (accepts : p.Accepts bytes) :
    ∃ frames' rest', Framing.Parse nextFrame (left ++ bytes) frames' rest' ∧
      Scanned host (p.receive bytes) frames' rest' (p.scanned host bytes) := by
  obtain ⟨carried, length⟩ := follows.carried left rfl
  obtain ⟨_, fits⟩ := accepts follows.closed
  unfold room at fits
  have small : p.filled < kReadBufBytes := Nat.lt_trans follows.filled_lt (by decide)
  have bounds : (p.receive bytes).InBounds := by
    constructor
    · exact Nat.zero_le _
    · rw [receive_filled]
      omega
  have running : (p.receive bytes).closed = false := by
    rw [receive_closed]
    exact follows.closed
  have pending : (p.receive bytes).pending = left ++ bytes := by
    rw [← carried]
    exact Block.load_store_append p.buf bounds.filled_le
  rw [← pending]
  exact bounds.scan running (Nat.sub_le _ _)

/-- Step lemma: reading on keeps the pump in step with the stream. -/
theorem onRead (follows : Follows host stream frames rest p) (accepts : p.Accepts bytes) :
    ∃ frames' rest', Follows host (stream ++ bytes) frames' rest' (p.onRead host bytes) := by
  cases rest with
  | none =>
      have closed : p.onRead host bytes = p := if_pos follows.closed
      rw [closed]
      exact ⟨frames, none, follows.parse.append_stopped nextFrame_stable bytes,
        follows.handed, follows.closed, follows.carried⟩
  | some left =>
      have running : p.closed = false := follows.closed
      obtain ⟨frames', rest', parse, scanned⟩ := follows.scanned accepts
      have some : bytes ≠ [] := List.ne_nil_of_length_pos (accepts running).1
      have whole := follows.parse.append nextFrame_stable parse
      have handed : (p.scanned host bytes).handed = host.stamp 0 (frames ++ frames') := by
        rw [scanned.handed, receive_handed, follows.handed, Host.length_stamp,
          Host.stamp_append, Nat.zero_add]
      refine ⟨frames ++ frames', rest', ?_⟩
      unfold Pump.onRead
      rw [if_neg (by simp [running]), if_neg some]
      dsimp only
      cases rest' with
      | none =>
          have shut : (p.scanned host bytes).closed = true := scanned.closed
          rw [if_pos shut]
          exact ⟨whole, handed, scanned.closed, fun _ absent => by cases absent⟩
      | some left' =>
          have open' : (p.scanned host bytes).closed = false := scanned.closed
          obtain ⟨sameHanded, sameClosed, filled, front⟩ := scanned.bounds.compact
          have pending := scanned.pending left' rfl
          have length : left'.length = (p.scanned host bytes).compact.filled := by
            rw [filled, ← pending, scanned.bounds.length_pending]
          have small : (p.scanned host bytes).compact.filled < kReadBufBytes := by
            rw [← length]
            exact room_of_more whole.wants_more
          rw [if_neg (by simp [open']), guardDesync_of_lt small]
          refine ⟨whole, sameHanded.trans handed, sameClosed.trans open', ?_⟩
          intro left'' same
          cases same
          exact ⟨front.trans pending, length⟩

end Follows

theorem follows_start : Follows host [] [] (some []) {} where
  parse := .more rfl
  handed := rfl
  closed := rfl
  carried := by
    intro left same
    cases same
    exact ⟨Block.load_zero_len _ _, rfl⟩

theorem Fits.mono {earlier reads : List (List UInt8)} (fits : Fits host reads)
    (part : earlier <+: reads) : Fits host earlier :=
  fun _ _ part' => fits _ _ (part'.trans part)

/-- Run lemma: the pump is in step with the stream after any reads. -/
theorem Fits.follows {reads : List (List UInt8)} (fits : Fits host reads) :
    ∃ frames rest, Follows host reads.flatten frames rest (pump host reads) := by
  induction reads using List.reverseRecOn with
  | nil => exact ⟨[], some [], follows_start⟩
  | append_singleton reads bytes ih =>
      obtain ⟨frames, rest, follows⟩ := ih (fits.mono (List.prefix_append _ _))
      have accepts := fits reads bytes List.prefix_rfl
      unfold pump at follows accepts ⊢
      rw [List.foldl_append, List.flatten_append]
      simpa using follows.onRead accepts

/-- A stream of the grammar is handed over whole. -/
theorem Fits.handed_of_wire {reads : List (List UInt8)} (fits : Fits host reads)
    {frames : List AudioFrame} {rest : Option (List UInt8)}
    (wire : Wire reads.flatten frames rest) :
    (pump host reads).handed = host.stamp 0 frames ∧ (pump host reads).closed = rest.isNone := by
  obtain ⟨frames', rest', follows⟩ := fits.follows
  obtain ⟨rfl, rfl⟩ := wire.unique (.of_parse follows.parse)
  exact ⟨follows.handed, follows.closed⟩

/-- Reads short enough for the buffer beside a frame cut short always fit. -/
theorem fits_of_short {reads : List (List UInt8)}
    (short : ∀ bytes ∈ reads, 0 < bytes.length ∧
      bytes.length + (kWireLengthBytes + kHeaderBytes + kMaxWirePayload) ≤ kReadBufBytes) :
    Fits host reads := by
  induction reads using List.reverseRecOn with
  | nil =>
      intro earlier bytes part
      have absent := List.prefix_nil.mp part
      simp at absent
  | append_singleton reads last ih =>
      have fits := ih fun bytes member => short bytes (List.mem_append_left _ member)
      intro earlier bytes part
      rcases List.prefix_concat_iff.mp part with whole | part
      · obtain ⟨rfl, single⟩ := List.append_inj' whole rfl
        obtain ⟨some, small⟩ := short last (List.mem_append_right _ (List.mem_singleton_self _))
        cases single
        obtain ⟨frames, rest, follows⟩ := fits.follows
        intro running
        refine ⟨some, ?_⟩
        cases rest with
        | none => exact absurd (running.symm.trans follows.closed) (by simp)
        | some left =>
            have carried := follows.filled_lt
            unfold room
            omega
      · exact fits earlier bytes part

end

/--
However a connection's stream is cut into reads, the frames handed over are
those of the grammar, stamped, up to the first oversized length or the frame cut
short, which is carried over.  What the inner loop leaves is always shorter than
the longest frame, so the next read has room and the guard changes nothing.
-/
theorem pump_delivers (host : Host) (reads : List (List UInt8)) (fits : Fits host reads) :
    (∃ frames rest, Wire reads.flatten frames rest ∧
      (∀ frames' rest', Wire reads.flatten frames' rest' → frames' = frames ∧ rest' = rest) ∧
      (pump host reads).handed = host.stamp 0 frames ∧
      (pump host reads).closed = rest.isNone) ∧
    (∀ earlier, earlier <+: reads → (pump host earlier).closed = false →
      0 < (pump host earlier).room) ∧
    ∀ earlier bytes, earlier ++ [bytes] <+: reads → (pump host earlier).closed = false →
      let left := (pump host earlier).scanned host bytes
      left.closed = false →
        left.filled - left.offset < kWireLengthBytes + kHeaderBytes + kMaxWirePayload ∧
        left.compact.guardDesync = left.compact := by
  have following : ∀ earlier, earlier <+: reads → (pump host earlier).closed = false →
      ∃ frames left, Follows host earlier.flatten frames (some left) (pump host earlier) := by
    intro earlier part running
    obtain ⟨frames, rest, follows⟩ := (fits.mono part).follows
    cases rest with
    | none => exact absurd (running.symm.trans follows.closed) (by simp)
    | some left => exact ⟨frames, left, follows⟩
  refine ⟨?_, ?_, ?_⟩
  · obtain ⟨frames, rest, follows⟩ := fits.follows
    have wire := Wire.of_parse follows.parse
    exact ⟨frames, rest, wire, fun _ _ other => wire.unique other, follows.handed,
      follows.closed⟩
  · intro earlier part running
    obtain ⟨frames, left, follows⟩ := following earlier part running
    exact Nat.sub_pos_of_lt (Nat.lt_trans follows.filled_lt (by decide))
  · intro earlier bytes part running state continues
    obtain ⟨frames, left, follows⟩ :=
      following earlier ((List.prefix_append _ _).trans part) running
    obtain ⟨frames', rest', parse, scanned⟩ := follows.scanned (fits _ _ part)
    cases rest' with
    | none => exact absurd (continues.symm.trans scanned.closed) (by simp)
    | some left' =>
        have short := Wire.length_lt (nextFrame_more parse.wants_more)
        rw [← scanned.pending left' rfl, scanned.bounds.length_pending] at short
        refine ⟨short, guardDesync_of_lt ?_⟩
        rw [scanned.bounds.compact.2.2.1]
        exact Nat.lt_trans short (by decide)

/-- A frame cut inside its length and its header, then an oversized length cut in two. -/
theorem pump_delivers_cutTwice :
    let host : Host := ⟨fun n => .ofNat (n + 7), fun _ => false⟩
    let reads : List (List UInt8) :=
      [[2, 0], [0, 0] ++ List.replicate 30 0, List.replicate 10 0 ++ [5, 6, 255, 255],
        [255, 255, 1]]
    Fits host reads ∧
      (pump host reads).handed = host.stamp 0 [.ofWire (List.replicate 40 0) [5, 6]] ∧
      (pump host reads).closed = true := by
  intro host reads
  have fits : Fits host reads := fits_of_short (by decide)
  have rest : Wire [255, 255, 255, 255, 1] [] none :=
    @Wire.oversized [255, 255, 255, 255] [1] rfl (by decide)
  have wire : Wire reads.flatten [.ofWire (List.replicate 40 0) [5, 6]] none :=
    @Wire.frame [2, 0, 0, 0] (List.replicate 40 0) [5, 6] _ _ _ rfl rfl rfl (by decide) rest
  obtain ⟨⟨frames, left, _, unique, handed, closed⟩, _⟩ := pump_delivers host reads fits
  obtain ⟨rfl, rfl⟩ := unique _ _ wire
  exact ⟨fits, handed, closed⟩

end Pump

end VoiceHotPath
