import VoiceHotPath.Consumer.Journal
import VoiceHotPath.Vad.GateHistory
import VoiceHotPath.Vad.Isolation

/-!
# The endpoint lag

The stamp that `hot_loop` keeps beside the assembler is that of the last loud
frame for as long as a chunk is open.  When the hangover closes the chunk, the
lag recorded is measured from that frame, `silence_frames` frames earlier.
-/

namespace VoiceHotPath

open ChunkAssembler

/-- A flush leaves the gate of an assembler as it was. -/
theorem gate_flush {D : Type} (assembler : ChunkAssembler D) (nowNs : UInt64) :
    (assembler.flush nowNs).1.gate = assembler.gate := by
  unfold flush
  split <;> rfl

section

variable {D : Type} [Double D]

/-- The most recent loud frame of a session, and the frames it has received since. -/
structure SinceLoud (config : ChunkerConfig D) (heard : Stream) (loud : AudioFrame × UInt64)
    (quiet : Stream) : Prop where
  received : ∃ past, heard = past ++ loud :: quiet
  isLoud : config.loudFrame loud.1 = true
  areQuiet : ∀ input ∈ quiet, config.loudFrame input.1 = false

/-- The stamp is that of the last loud frame, and the gate counts the frames since. -/
structure Remembers (config : ChunkerConfig D) (heard : Stream) (session : Session D)
    (loud : AudioFrame × UInt64) (quiet : Stream) : Prop where
  since : SinceLoud config heard loud quiet
  stamp : session.lastLoudProduceNs = loud.1.hdr.tProduceNs
  speaking : session.assembler.gate.speaking = true
  counted : session.assembler.gate.quietFrames.toNat = quiet.length
  short : quiet.length < config.gate.silenceFrames.toNat

/-- The gate is the configured one, and an open chunk remembers the last loud frame. -/
structure Attentive (config : ChunkerConfig D) (heard : Stream) (session : Session D) : Prop where
  cfg : session.assembler.gate.cfg = (SpeechThresholdGate.make config.gate).cfg
  remembers : session.assembler.active = true →
    ∃ loud quiet, Remembers config heard session loud quiet

variable {config : ChunkerConfig D} {heard : Stream} {session : Session D}
  {loud : AudioFrame × UInt64} {quiet : Stream} {frame : AudioFrame} {nowNs : UInt64}

theorem SinceLoud.wait (since : SinceLoud config heard loud quiet)
    (isQuiet : config.loudFrame frame = false) (nowNs : UInt64) :
    SinceLoud config (heard ++ [(frame, nowNs)]) loud (quiet ++ [(frame, nowNs)]) := by
  obtain ⟨past, rfl⟩ := since.received
  constructor
  · exact ⟨past, by simp⟩
  · exact since.isLoud
  · intro input member
    rcases List.mem_append.mp member with before | last
    · exact since.areQuiet input before
    · rw [List.mem_singleton.mp last]
      exact isQuiet

/-! ## One frame -/

theorem gate_served (frame : AudioFrame) (nowNs : UInt64) (session : Session D) :
    (session.served frame nowNs).assembler.gate =
      (session.assembler.gate.accept (frameEnergy frame) (nsToMs nowNs)).2 := by
  rw [(session.served_keeps frame nowNs).2.2, gate_onFrame]
  rfl

/-- The stamp moves on a frame that leaves the gate speaking with no quiet frame counted. -/
theorem stamp_served (frame : AudioFrame) (nowNs : UInt64) (session : Session D) :
    (session.served frame nowNs).lastLoudProduceNs =
      if (session.assembler.gate.accept (frameEnergy frame) (nsToMs nowNs)).2.speaking &&
          (session.assembler.gate.accept (frameEnergy frame) (nsToMs nowNs)).2.quietFrames == 0
      then frame.hdr.tProduceNs else session.lastLoudProduceNs := by
  have gate := gate_onFrame session.assembler frame nowNs
  unfold Session.served Session.hear
  rw [show ((session.observe frame nowNs).fed frame nowNs).assembler.gate = _ from gate]
  unfold gated
  split <;> rfl

/-- A loud frame that the gate hears as speech is the one remembered. -/
theorem remembers_loud (lasting : 0 < config.gate.silenceFrames)
    (isLoud : session.assembler.gate.cfg.loud (frameEnergy frame) = true)
    (heardLoud : config.loudFrame frame = true)
    (going : (session.assembler.gated frame nowNs).2.speaking = true) (heard : Stream) :
    Remembers config (heard ++ [(frame, nowNs)]) (session.served frame nowNs) (frame, nowNs)
      [] := by
  have counted := SpeechThresholdGate.quietFrames_accept session.assembler.gate
    (frameEnergy frame) (nsToMs nowNs)
  rw [isLoud, if_pos rfl] at counted
  unfold gated at going
  constructor
  · exact ⟨⟨heard, rfl⟩, heardLoud, fun _ absent => by cases absent⟩
  · rw [stamp_served, going, counted]
    rfl
  · rw [gate_served]
    exact going
  · rw [gate_served, counted]
    rfl
  · exact UInt32.lt_iff_toNat_lt.mp lasting

/-- A quiet frame is counted, and leaves the stamp alone. -/
theorem Remembers.quiet_frame (remembers : Remembers config heard session loud quiet)
    (isQuiet : session.assembler.gate.cfg.loud (frameEnergy frame) = false) (nowNs : UInt64) :
    (session.served frame nowNs).assembler.gate.quietFrames.toNat = quiet.length + 1 ∧
      (session.served frame nowNs).lastLoudProduceNs = loud.1.hdr.tProduceNs := by
  have counted := SpeechThresholdGate.quietFrames_accept session.assembler.gate
    (frameEnergy frame) (nsToMs nowNs)
  rw [isQuiet, remembers.speaking] at counted
  simp only [Bool.false_eq_true, if_false, if_true] at counted
  have bound := UInt32.toNat_lt config.gate.silenceFrames
  have short := remembers.short
  have next : (session.assembler.gate.quietFrames + 1).toNat = quiet.length + 1 := by
    have room : session.assembler.gate.quietFrames.toNat + 1 < 2 ^ 32 := by
      rw [remembers.counted]
      omega
    rw [WrappingCounter.toNat_succ32 room, remembers.counted]
  constructor
  · rw [gate_served, counted]
    exact next
  · have some : (session.assembler.gate.quietFrames + 1 == 0) = false := by
      rw [beq_eq_false_iff_ne]
      intro zero
      rw [zero] at next
      cases next
    rw [stamp_served, counted, some, Bool.and_false]
    exact remembers.stamp

/-- The gate goes on speaking until the quiet frames reach the hangover. -/
theorem Remembers.speaking_iff (remembers : Remembers config heard session loud quiet)
    (cfg : session.assembler.gate.cfg = (SpeechThresholdGate.make config.gate).cfg)
    (isQuiet : session.assembler.gate.cfg.loud (frameEnergy frame) = false) (nowNs : UInt64) :
    (session.assembler.gated frame nowNs).2.speaking = true ↔
      quiet.length + 1 < config.gate.silenceFrames.toNat := by
  have silence : session.assembler.gate.cfg.silenceFrames = config.gate.silenceFrames := by
    rw [cfg]
    rfl
  have lasting : 0 < session.assembler.gate.cfg.silenceFrames := by
    rw [silence, UInt32.lt_iff_toNat_lt]
    exact Nat.lt_of_le_of_lt (Nat.zero_le _) remembers.short
  have quietly := (remembers.quiet_frame isQuiet nowNs).1
  have onset := SpeechThresholdGate.accept_of_quiet isQuiet (nsToMs nowNs)
  rw [gate_served, onset] at quietly
  have going := SpeechThresholdGate.speaking_accept lasting (frameEnergy frame) (nsToMs nowNs)
  have next : (session.assembler.gate.quietFrames + 1).toNat = quiet.length + 1 := by
    rw [SpeechThresholdGate.acceptQuiet, remembers.speaking] at quietly
    exact quietly
  unfold gated
  rw [going, onset, isQuiet, remembers.speaking, silence, ← next, ← UInt32.lt_iff_toNat_lt]
  simp

/-- Step lemma: a frame keeps a session attentive. -/
theorem Attentive.served (attentive : Attentive config heard session)
    (lasting : 0 < config.gate.silenceFrames) (frame : AudioFrame) (nowNs : UInt64) :
    Attentive config (heard ++ [(frame, nowNs)]) (session.served frame nowNs) := by
  have cfg := attentive.cfg
  have sameLoud : session.assembler.gate.cfg.loud (frameEnergy frame) = config.loudFrame frame := by
    rw [cfg]
    rfl
  constructor
  · rw [gate_served, SpeechThresholdGate.cfg_accept]
    exact cfg
  · intro active
    rw [(session.served_keeps frame nowNs).2.2, active_onFrame, Bool.and_eq_true,
      Bool.or_eq_true] at active
    obtain ⟨stays, going⟩ := active
    cases isLoud : config.loudFrame frame with
    | true => exact ⟨_, _, remembers_loud lasting (sameLoud.trans isLoud) isLoud going heard⟩
    | false =>
        have isQuiet := sameLoud.trans isLoud
        rcases stays with opens | open'
        · -- An onset takes a loud frame.
          have onset := (Bool.and_eq_true_iff.mp opens).1
          rw [gated, SpeechThresholdGate.accept_of_quiet isQuiet] at onset
          cases onset
        · obtain ⟨loud, quiet, remembers⟩ := attentive.remembers open'
          obtain ⟨counted, stamp⟩ := remembers.quiet_frame isQuiet nowNs
          have short := (remembers.speaking_iff cfg isQuiet nowNs).mp going
          refine ⟨loud, quiet ++ [(frame, nowNs)], remembers.since.wait isLoud nowNs, stamp, ?_,
            ?_, ?_⟩
          · rw [gate_served]
            exact going
          · rw [counted, List.length_append, List.length_singleton]
          · rw [List.length_append, List.length_singleton]
            exact short

/-- Every session is attentive to the frames it has received. -/
def attentive (config : ChunkerConfig D) (lasting : 0 < config.gate.silenceFrames) :
    SessionInvariant config where
  opened := Attentive config
  idle session := session.assembler.gate.cfg = (SpeechThresholdGate.make config.gate).cfg ∧
    session.assembler.active = false
  fresh := ⟨rfl, rfl⟩
  openFor session id nowNs idle := ⟨idle.1, fun active => by
    rw [show (session.openFor id nowNs).assembler.active = _ from idle.2] at active
    cases active⟩
  stamp heard session nowNs attentive := ⟨attentive.cfg, fun active => by
    obtain ⟨loud, quiet, remembers⟩ := attentive.remembers active
    exact ⟨loud, quiet, remembers.since, remembers.stamp, remembers.speaking, remembers.counted,
      remembers.short⟩⟩
  served _ _ frame nowNs attentive := attentive.served lasting frame nowNs
  closed _ session nowNs attentive :=
    ⟨(congrArg SpeechThresholdGate.cfg (gate_flush session.assembler nowNs)).trans attentive.cfg,
      session.assembler.inactive_flush nowNs⟩

/-! ## The frame that ends speech -/

/-- A hangover closes an open chunk on a frame that ends the gate's speech. -/
theorem closed_of_hangover {assembler : ChunkAssembler D} {event : ChunkEvent}
    (published : (assembler.onFrame frame nowNs).2 = some event)
    (hangover : event.reason = .hangover) :
    event.tEndpointNs = nowNs ∧ (assembler.gated frame nowNs).2.speaking = false ∧
      (assembler.opens frame nowNs || assembler.active) = true := by
  have gate := gate_routeFrame (assembler.gatedState frame nowNs) frame
  have active := active_routeFrame (assembler.gatedState frame nowNs) frame
  rw [gate_gatedState] at gate
  rw [active_gatedState] at active
  rw [onFrame_eq] at published
  rcases closeFrame_cases ((assembler.gatedState frame nowNs).routeFrame frame) nowNs with
    ⟨-, same⟩ | ⟨opened, ended, same⟩ | ⟨-, -, -, same⟩ | ⟨-, -, -, same⟩
  · rw [same] at published
    cases published
  · rw [same] at published
    cases published
    rw [active] at opened
    rw [gate] at ended
    exact ⟨rfl, ended, opened⟩
  · rw [same] at published
    cases published
    cases hangover
  · rw [same] at published
    cases published

/-- A hangover comes on the last of `silence_frames` quiet frames. -/
theorem Attentive.hangover (attentive : Attentive config heard session)
    (lasting : 0 < config.gate.silenceFrames) {event : ChunkEvent}
    (published : (session.assembler.onFrame frame nowNs).2 = some event)
    (hangover : event.reason = .hangover) :
    ∃ loud quiet, SinceLoud config (heard ++ [(frame, nowNs)]) loud (quiet ++ [(frame, nowNs)]) ∧
      quiet.length + 1 = config.gate.silenceFrames.toNat ∧
      session.lastLoudProduceNs = loud.1.hdr.tProduceNs ∧
      (session.served frame nowNs).lastLoudProduceNs = loud.1.hdr.tProduceNs := by
  obtain ⟨-, ended, stays⟩ := closed_of_hangover published hangover
  have cfg := attentive.cfg
  have silence : session.assembler.gate.cfg.silenceFrames = config.gate.silenceFrames := by
    rw [cfg]
    rfl
  have sameLoud : session.assembler.gate.cfg.loud (frameEnergy frame) = config.loudFrame frame := by
    rw [cfg]
    rfl
  have going := SpeechThresholdGate.speaking_accept (silence.symm ▸ lasting) (frameEnergy frame)
    (nsToMs nowNs)
  unfold gated at ended
  rw [ended] at going
  obtain ⟨noOnset, stops⟩ := Bool.or_eq_false_iff.mp going.symm
  have open' : session.assembler.active = true := by
    rw [opens, gated, noOnset] at stays
    exact stays
  obtain ⟨loud, quiet, remembers⟩ := attentive.remembers open'
  have isQuiet : config.loudFrame frame = false := by
    rw [remembers.speaking, sameLoud, Bool.true_and] at stops
    exact (Bool.or_eq_false_iff.mp stops).1
  have gateQuiet := sameLoud.trans isQuiet
  have reached : ¬ quiet.length + 1 < config.gate.silenceFrames.toNat := by
    rw [← remembers.speaking_iff cfg gateQuiet nowNs, gated, ended]
    exact Bool.false_ne_true
  have short := remembers.short
  refine ⟨loud, quiet, remembers.since.wait isQuiet nowNs, by omega, remembers.stamp, ?_⟩
  exact (remembers.quiet_frame gateQuiet nowNs).2

namespace HotLoop

variable {full : Nat → Bool} {options : LoopOptions} {loop next : HotLoop D} {tick : Tick}
  {feed : Feed D}

/-- An iteration that closes a chunk records one lag, if the stamp is usable. -/
theorem endpointLag_iterate (stepped : loop.iterate full options tick = some next)
    (fed : loop.feed full options tick = some feed) {event : ChunkEvent}
    (published : feed.closes = some event) :
    next.metrics.endpointLag =
      (if feed.served.lastLoudProduceNs ≠ 0 ∧ feed.served.lastLoudProduceNs < event.tEndpointNs
        then [event.tEndpointNs - feed.served.lastLoudProduceNs] else []) ++
        loop.metrics.endpointLag := by
  obtain ⟨swept, returned, -, rfl⟩ := iterate_of_fed stepped fed
  obtain ⟨chunks, drops, same⟩ := metrics_emitAll full
    { swept with
      sessions := (swept.sessions.acquire feed.frame.hdr.sessionId feed.nowNs).1.modifySession
        feed.storage (Session.served feed.frame feed.nowNs)
      metrics := feed.observed options swept.metrics } feed.closes.toList
  have before : swept.metrics.endpointLag = loop.metrics.endpointLag := by
    obtain ⟨chunks, drops, kept⟩ := metrics_sweep returned
    rw [kept]
  have kept : ((swept.metrics.observeTransport feed.frame feed.nowNs).observeArrival
      options.nominalNs feed.frame feed.nowNs feed.session).endpointLag =
        swept.metrics.endpointLag := by
    rw [HotPathMetrics.observeArrival, HotPathMetrics.observeTransport]
    split <;> rfl
  rw [same, ← before, ← kept, Feed.observed, published]
  dsimp only
  rw [HotPathMetrics.observeEndpoint]
  split <;> rfl

/-- Every hangover is measured from the most recent loud frame of its session: the
closing frame is the `silence_frames`-th one after it, and one lag is recorded. -/
theorem endpointLag_exact (lasting : 0 < config.gate.silenceFrames) {maxSessions : Nat}
    {startNs : UInt64} {ticks : List Tick}
    (ran : iterateAll full options (start maxSessions config startNs) ticks = some loop)
    (stepped : loop.iterate full options tick = some next)
    (fed : loop.feed full options tick = some feed) {event : ChunkEvent}
    (published : feed.closes = some event) (hangover : event.reason = .hangover) :
    ∃ loud quiet,
      SinceLoud config (loop.note full options
        ((start maxSessions config startNs).heard full options (fun _ => []) ticks) tick
          feed.storage) loud quiet ∧
      quiet.length = config.gate.silenceFrames.toNat ∧
      quiet.getLast? = some (feed.frame, feed.nowNs) ∧
      feed.session.lastLoudProduceNs = loud.1.hdr.tProduceNs ∧
      next.sessions.sessions[feed.storage]? = some feed.served ∧
      feed.served.lastLoudProduceNs = loud.1.hdr.tProduceNs ∧
      event.tEndpointNs = feed.nowNs ∧
      next.metrics.endpointLag =
        (if loud.1.hdr.tProduceNs ≠ 0 ∧ loud.1.hdr.tProduceNs < event.tEndpointNs
          then [event.tEndpointNs - loud.1.hdr.tProduceNs] else []) ++
          loop.metrics.endpointLag := by
  have journaled := (Journaled.make (attentive config lasting) maxSessions).iterateAll ran
  obtain ⟨swept, returned, there, -⟩ := iterate_of_fed stepped fed
  obtain ⟨-, attends⟩ := (journaled.sweep returned).fed there
  obtain ⟨closed, answered, rfl⟩ := Option.map_eq_some_iff.mp published
  obtain ⟨loud, quiet, since, length, before, after⟩ :=
    Attentive.hangover attends lasting answered hangover
  refine ⟨loud, quiet ++ [(feed.frame, feed.nowNs)], ?_, ?_, ?_, before,
    session_iterate stepped fed, after, (closed_of_hangover answered hangover).1, ?_⟩
  · rw [note, fed, Option.elim_some, Feed.noted, Function.update_self]
    exact since
  · rw [List.length_append, List.length_singleton, length]
  · exact List.getLast?_concat
  · rw [endpointLag_iterate stepped fed published, Feed.served, after]

end HotLoop

end

namespace HotLoop

open Scenario

theorem endpointLag_exact_twoTones :
    ∃ loop next feed event,
      iterateAll (fun _ => false) ⟨20000000, 100000000⟩ (start 1 shortConfig 0)
        [tick 10000000 7 0, tick 30000000 7 1, quietTick 50000000 7 2] = some loop ∧
      loop.iterate (fun _ => false) ⟨20000000, 100000000⟩ (quietTick 70000000 7 3) = some next ∧
      loop.feed (fun _ => false) ⟨20000000, 100000000⟩ (quietTick 70000000 7 3) = some feed ∧
      feed.closes = some event ∧
      ∃ loud quiet,
        SinceLoud shortConfig (loop.note (fun _ => false) ⟨20000000, 100000000⟩
          ((start 1 shortConfig 0).heard (fun _ => false) ⟨20000000, 100000000⟩ (fun _ => [])
            [tick 10000000 7 0, tick 30000000 7 1, quietTick 50000000 7 2])
          (quietTick 70000000 7 3) feed.storage) loud quiet ∧
        quiet.length = shortConfig.gate.silenceFrames.toNat ∧
        quiet.getLast? = some (feed.frame, feed.nowNs) ∧
        feed.session.lastLoudProduceNs = loud.1.hdr.tProduceNs ∧
        next.sessions.sessions[feed.storage]? = some feed.served ∧
        feed.served.lastLoudProduceNs = loud.1.hdr.tProduceNs ∧
        event.tEndpointNs = feed.nowNs ∧
        next.metrics.endpointLag =
          (if loud.1.hdr.tProduceNs ≠ 0 ∧ loud.1.hdr.tProduceNs < event.tEndpointNs
            then [event.tEndpointNs - loud.1.hdr.tProduceNs] else []) ++
            loop.metrics.endpointLag := by
  have runs : (iterateAll (fun _ => false) ⟨20000000, 100000000⟩ (start 1 shortConfig 0)
      [tick 10000000 7 0, tick 30000000 7 1, quietTick 50000000 7 2]).any (fun loop =>
        (loop.iterate (fun _ => false) ⟨20000000, 100000000⟩ (quietTick 70000000 7 3)).any
          fun _ => (loop.feed (fun _ => false) ⟨20000000, 100000000⟩
            (quietTick 70000000 7 3)).any fun feed => feed.closes.any fun event =>
              event.reason = .hangover) = true := by
    decide +kernel
  obtain ⟨loop, ran, steps⟩ := (Option.any_eq_true _ _).mp runs
  obtain ⟨next, stepped, feeds⟩ := (Option.any_eq_true _ _).mp steps
  obtain ⟨feed, fed, closes⟩ := (Option.any_eq_true _ _).mp feeds
  obtain ⟨event, published, hangover⟩ := (Option.any_eq_true _ _).mp closes
  exact ⟨loop, next, feed, event, ran, stepped, fed, published,
    endpointLag_exact (by decide) ran stepped fed published (of_decide_eq_true hangover)⟩

end HotLoop

end VoiceHotPath
