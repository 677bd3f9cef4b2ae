import VoiceHotPath.Lib.OverwriteRing
import VoiceHotPath.Vad.Gate

/-!
# The chunk assembler

Turns the gate's decisions into closed chunks.  While no chunk is open, frames
go to the pre-roll ring; an onset opens a chunk on the pre-roll; the hangover,
the duration cap or a flush closes it.
-/

namespace VoiceHotPath

structure ChunkerConfig (D : Type) where
  gate : GateConfig D
  preRollFrames : UInt32 := 5
  maxChunkMs : D
  maxChunkBytes : Nat := 1 <<< 20
  deriving DecidableEq, Repr

/-- The member initialisers of `ChunkerConfig`. -/
def ChunkerConfig.default {D : Type} [Double D] : ChunkerConfig D :=
  { gate := GateConfig.default
    maxChunkMs := ((15000 : Int) : D) }

/-- Pre-roll counts its pushes in 64 bits and cannot wrap in any run. -/
abbrev PreRoll := OverwriteRing AudioFrame

structure ChunkAssembler (D : Type) where
  cfg : ChunkerConfig D
  gate : SpeechThresholdGate D
  preRoll : PreRoll
  buffer : List UInt8 := []
  lastSeqSeen : Option UInt64 := none
  nextChunkId : UInt64 := 0
  firstSeq : UInt64 := 0
  lastSeq : UInt64 := 0
  tSpeechStartNs : UInt64 := 0
  tFirstFrameNs : UInt64 := 0
  frameCount : UInt32 := 0
  gapFrames : UInt32 := 0
  format : UInt16 := 0
  active : Bool := false
  haveFirst : Bool := false
  deriving DecidableEq, Repr

namespace ChunkAssembler

section

variable {D : Type}

def openChunk (assembler : ChunkAssembler D) (nowNs : UInt64) : ChunkAssembler D :=
  { assembler with
    active := true
    buffer := []
    frameCount := 0
    gapFrames := 0
    firstSeq := 0
    lastSeq := 0
    haveFirst := false
    tSpeechStartNs := nowNs
    tFirstFrameNs := nowNs }

def append (assembler : ChunkAssembler D) (frame : AudioFrame) : ChunkAssembler D :=
  let len := frame.hdr.byteLen.toNat
  let assembler :=
    if assembler.buffer.length + len ≤ assembler.cfg.maxChunkBytes then
      { assembler with buffer := assembler.buffer ++ frame.payloadBytes len }
    else assembler
  let assembler :=
    if !assembler.haveFirst then
      { assembler with
        firstSeq := frame.hdr.seq
        tFirstFrameNs := frame.hdr.tProduceNs
        format := frame.hdr.format
        haveFirst := true }
    else assembler
  { assembler with
    lastSeq := frame.hdr.seq
    frameCount := assembler.frameCount + 1 }

def flushPreRoll (assembler : ChunkAssembler D) : ChunkAssembler D :=
  let assembler := assembler.preRoll.contents.foldl append assembler
  { assembler with preRoll := assembler.preRoll.clear }

def closeChunk (assembler : ChunkAssembler D) (reason : CloseReason) (nowNs : UInt64) :
    ChunkAssembler D × Option ChunkEvent :=
  ({ assembler with nextChunkId := assembler.nextChunkId + 1, active := false },
    some
      { chunkId := assembler.nextChunkId
        firstSeq := assembler.firstSeq
        lastSeq := assembler.lastSeq
        tFirstFrameNs := assembler.tFirstFrameNs
        tSpeechStartNs := assembler.tSpeechStartNs
        tEndpointNs := nowNs
        frameCount := assembler.frameCount
        byteCount := UInt32.ofNat assembler.buffer.length
        droppedFrames := assembler.gapFrames
        reason := reason
        format := assembler.format })

/-- Upstream loss is noticed before the gate decides anything about the frame. -/
def countGap (assembler : ChunkAssembler D) (seq : UInt64) : ChunkAssembler D :=
  let assembler :=
    match assembler.lastSeqSeen with
    | some last =>
        if last + 1 < seq then
          { assembler with gapFrames := assembler.gapFrames + (seq - last - 1).toUInt32 }
        else assembler
    | none => assembler
  { assembler with lastSeqSeen := some seq }

/-- The routing of `on_frame`: into the open chunk or into the pre-roll. -/
def routeFrame (assembler : ChunkAssembler D) (frame : AudioFrame) : ChunkAssembler D :=
  if assembler.active then assembler.append frame
  else { assembler with preRoll := assembler.preRoll.push frame }

/-- Close whatever is open. -/
def flush (assembler : ChunkAssembler D) (nowNs : UInt64) :
    ChunkAssembler D × Option ChunkEvent :=
  if !assembler.active then (assembler, none)
  else assembler.closeChunk .streamEnd nowNs

/-- `chunk_data()` read to `chunk_size()` bytes. -/
def chunkData (assembler : ChunkAssembler D) : List UInt8 :=
  assembler.buffer

def chunkSize (assembler : ChunkAssembler D) : Nat :=
  assembler.buffer.length

end

section

variable {D : Type} [Double D]

/-- `static_cast<double>(ns) / 1e6`. -/
def nsToMs (ns : UInt64) : D :=
  ((ns.toNat : Int) : D) / ((1000000 : Int) : D)

def make (config : ChunkerConfig D) : ChunkAssembler D :=
  { cfg := config
    gate := SpeechThresholdGate.make config.gate
    preRoll := OverwriteRing.empty {} config.preRollFrames.toNat }

def elapsedMs (assembler : ChunkAssembler D) (nowNs : UInt64) : D :=
  nsToMs (nowNs - assembler.tSpeechStartNs)

/-- The onset handling of `on_frame`: run the gate, open on a fresh onset. -/
def gateFrame (assembler : ChunkAssembler D) (frame : AudioFrame) (nowNs : UInt64) :
    ChunkAssembler D :=
  let (onset, gate) := assembler.gate.accept (frameEnergy frame) (nsToMs nowNs)
  let assembler := { assembler with gate := gate }
  if onset && !assembler.active then (assembler.openChunk nowNs).flushPreRoll else assembler

/-- The closing tests of `on_frame`. -/
def closeFrame (assembler : ChunkAssembler D) (nowNs : UInt64) :
    ChunkAssembler D × Option ChunkEvent :=
  if !assembler.active then (assembler, none)
  else if !assembler.gate.speaking then assembler.closeChunk .hangover nowNs
  else if assembler.cfg.maxChunkMs ≤ assembler.elapsedMs nowNs then
    -- Speech is still running: the next chunk starts on the same frame.
    let (assembler, event) := assembler.closeChunk .maxLength nowNs
    (assembler.openChunk nowNs, event)
  else (assembler, none)

/-- Feed one frame; returns an event on the frame that closes a chunk. -/
def onFrame (assembler : ChunkAssembler D) (frame : AudioFrame) (nowNs : UInt64) :
    ChunkAssembler D × Option ChunkEvent :=
  (((assembler.countGap frame.hdr.seq).gateFrame frame nowNs).routeFrame frame).closeFrame nowNs

end

end ChunkAssembler

end VoiceHotPath
