import VoiceHotPath.Consumer.Admission
import VoiceHotPath.Consumer.EndpointLag

/-!
# The delay of an endpoint

What a session has received are the latest frames popped for its call.  So the end
of an utterance is decided `silence_frames` frames of the call after its last loud
one, and on the grid of a producer the delay from the capture of that frame is the
hangover, a frame for each one lost on the way, and the delivery of the frame that
decides it.
-/

namespace VoiceHotPath

section

variable {D : Type}

/-- Every open session has received the latest frames popped for its call. -/
structure Overhears (ticks : List Tick) (journal : Journal) (loop : HotLoop D) : Prop where
  ok : loop.sessions.Ok
  latest : ∀ (i : Nat) session, loop.sessions.sessions[i]? = some session →
    session.active = true → journal i <:+ framesOf session.id ticks

variable {options : LoopOptions} {full : Nat → Bool} {ticks : List Tick} {tick : Tick}
  {journal : Journal} {loop swept next : HotLoop D} {frame : AudioFrame}

/-- A sweep closes sessions and pops nothing. -/
theorem Overhears.sweep (overhears : Overhears ticks journal loop) {loopNs : UInt64}
    (returned : loop.sweep full options loopNs = some swept) : Overhears ticks journal swept := by
  rcases HotLoop.sweep_cases returned with ⟨-, sessions, tails, expired, rfl⟩ | ⟨-, rfl⟩
  · obtain ⟨sessions', tails', expired', done⟩ :=
      overhears.ok.sweepAll (SessionTable.isIdle loopNs options.idleNs) loopNs
    rw [SessionTable.expireIdle, expired'] at expired
    cases expired
    constructor
    · rw [(HotLoop.emitAll_keeps _ _ _).1]
      exact done.ok
    · rw [(HotLoop.emitAll_keeps _ _ _).1]
      intro i session found active
      obtain ⟨here, -⟩ := (done.open_iff overhears.ok i session).mp ⟨found, active⟩
      exact overhears.latest i session here active
  · exact overhears

/-- A frame that is served is the latest one of its call. -/
theorem Overhears.noted (overhears : Overhears ticks journal loop)
    (popped : tick.popped = some frame) {feed : Feed D}
    (fed : loop.sessions.feedOf frame tick.dequeueNs = some feed) :
    feed.noted journal feed.storage <:+ framesOf frame.hdr.sessionId (ticks ++ [tick]) := by
  have last : ∀ before, before <:+ framesOf frame.hdr.sessionId ticks →
      before ++ [(frame, tick.dequeueNs)] <:+ framesOf frame.hdr.sessionId (ticks ++ [tick]) := by
    rintro before ⟨earlier, same⟩
    rw [framesOf_snoc_same popped rfl, ← same, List.append_assoc]
    exact List.suffix_append _ _
  rw [Feed.noted, Function.update_self]
  rcases overhears.ok.feedOf_cases frame tick.dequeueNs with ⟨i, session, here, active, id, same⟩ |
    ⟨-, -, refused⟩ | ⟨-, i, session, -, -, same⟩
  · rw [fed] at same
    cases same
    rw [← id] at last ⊢
    exact last _ (overhears.latest i session here active)
  · rw [fed] at refused
    cases refused
  · rw [fed] at same
    cases same
    exact last [] (List.nil_suffix)

variable [Double D]

theorem overhears_start {maxSessions : Nat} (small : maxSessions ≤ kTombstone)
    (config : ChunkerConfig D) (startNs : UInt64) :
    Overhears [] (fun _ => []) (HotLoop.start maxSessions config startNs) := by
  refine ⟨.make_clamped small config, ?_⟩
  intro i session here active
  rw [SessionTable.inactive_of_make here] at active
  cases active

/-- Step lemma: a frame that is popped is received by the session of its call, if it has one. -/
theorem Overhears.serve (overhears : Overhears ticks journal loop)
    (popped : tick.popped = some frame) :
    Overhears (ticks ++ [tick])
      ((loop.sessions.feedOf frame tick.dequeueNs).elim journal fun feed => feed.noted journal)
      (loop.serve full options frame tick.dequeueNs) := by
  rcases overhears.ok.served_or_refused frame tick.dequeueNs with ⟨feed, fed, fedFor, -⟩ |
    ⟨refused, stranger, -⟩
  · have sessions : (loop.serve full options frame tick.dequeueNs).sessions =
        (loop.sessions.acquire frame.hdr.sessionId tick.dequeueNs).1.modifySession feed.storage
          (Session.served frame tick.dequeueNs) := by
      rw [HotLoop.serve_of_fed fed, (HotLoop.emitAll_keeps _ _ _).1]
    rw [fed, Option.elim_some]
    constructor
    · rw [sessions]
      exact ((overhears.ok.acquire frame.hdr.sessionId tick.dequeueNs).modifySession feed.storage
        (Session.served frame tick.dequeueNs) (fun session => (session.served_keeps _ _).1)
        (fun session => (session.served_keeps _ _).2.1)).1
    · intro i session found active
      rw [sessions, SessionTable.sessions_served fed] at found
      split at found
      · rename_i here
        cases found
        subst here
        have id : feed.served.id = frame.hdr.sessionId :=
          (feed.session.served_keeps feed.frame feed.nowNs).1.trans fedFor.id
        rw [id]
        exact overhears.noted popped fed
      · rename_i elsewhere
        have other : frame.hdr.sessionId ≠ session.id := fun same =>
          elsewhere ((fedFor.owns i session found active).mpr same.symm)
        rw [framesOf_snoc_other popped other, Feed.noted, Function.update_of_ne (Ne.symm elsewhere)]
        exact overhears.latest i session found active
  · have sessions := SessionTable.sessions_of_refused refused
    rw [refused, Option.elim_none, HotLoop.serve_of_refused refused]
    refine ⟨overhears.ok.acquire frame.hdr.sessionId tick.dequeueNs, ?_⟩
    dsimp only
    rw [sessions]
    intro i session here active
    have other : frame.hdr.sessionId ≠ session.id := fun same =>
      stranger (SessionTable.mem_callers.mpr ⟨i, session, here, active, same.symm⟩)
    rw [framesOf_snoc_other popped other]
    exact overhears.latest i session here active

theorem Overhears.iterate (overhears : Overhears ticks journal loop)
    (stepped : loop.iterate full options tick = some next) :
    Overhears (ticks ++ [tick]) (loop.note full options journal tick) next := by
  obtain ⟨swept, returned, ⟨popped, rfl⟩ | ⟨frame, popped, rfl⟩⟩ := HotLoop.iterate_cases stepped
  · have kept := overhears.sweep returned
    rw [HotLoop.note, HotLoop.feed, returned, popped]
    refine ⟨kept.ok, fun i session here active => ?_⟩
    rw [framesOf_snoc_none popped]
    exact kept.latest i session here active
  · rw [HotLoop.note, HotLoop.feed, returned, Option.bind_some, popped, Option.bind_some]
    exact (overhears.sweep returned).serve popped

/-- Run lemma: the sessions of a run have received the latest frames of their calls. -/
theorem Overhears.iterateAll {later : List Tick} (overhears : Overhears ticks journal loop)
    (ran : HotLoop.iterateAll full options loop later = some next) :
    Overhears (ticks ++ later) (loop.heard full options journal later) next := by
  induction later generalizing ticks journal loop with
  | nil =>
      cases ran
      rw [List.append_nil]
      exact overhears
  | cons tick later ih =>
      obtain ⟨middle, stepped, rest⟩ := Option.bind_eq_some_iff.mp ran
      have done := ih (overhears.iterate stepped) rest
      rw [List.append_assoc] at done
      rw [HotLoop.heard, stepped]
      exact done

end

/-! ## The grid of the producer -/

/-- Each frame is stamped with its point of the grid, and dequeued no earlier. -/
def OnGrid (startNs frameNs : Nat) (stream : Stream) : Prop :=
  ∀ input ∈ stream, input.1.hdr.tCaptureNs.toNat = startNs + input.1.hdr.seq.toNat * frameNs ∧
    input.1.hdr.tCaptureNs ≤ input.2

/-- The frames come in the order of their numbers, some perhaps missing. -/
def Ascending (stream : Stream) : Prop :=
  (stream.map fun input => input.1.hdr.seq.toNat).Pairwise (· < ·)

/-- Increasing numbers grow by one at least. -/
theorem add_length_le_of_pairwise {first last : Nat} {between : List Nat}
    (increasing : (first :: (between ++ [last])).Pairwise (· < ·)) :
    first + between.length + 1 ≤ last := by
  induction between generalizing first with
  | nil =>
      obtain ⟨below, -⟩ := List.pairwise_cons.mp increasing
      exact below last (List.mem_singleton.mpr rfl)
  | cons second between ih =>
      obtain ⟨below, rest⟩ := List.pairwise_cons.mp increasing
      have step := below second List.mem_cons_self
      have more := ih rest
      rw [List.length_cons]
      omega

/-- The delay of a later frame on the grid, in frames. -/
theorem delay_on_grid {startNs frameNs : Nat} {first last : AudioFrame × UInt64} {between : Stream}
    (onGrid : OnGrid startNs frameNs (first :: (between ++ [last])))
    (ascending : Ascending (first :: (between ++ [last]))) :
    ∃ lost, last.1.hdr.seq.toNat = first.1.hdr.seq.toNat + (between.length + 1) + lost ∧
      last.2.toNat = first.1.hdr.tCaptureNs.toNat + (between.length + 1 + lost) * frameNs +
        (last.2.toNat - last.1.hdr.tCaptureNs.toNat) := by
  obtain ⟨firstPoint, -⟩ := onGrid first List.mem_cons_self
  obtain ⟨lastPoint, dequeued⟩ := onGrid last (by simp)
  have numbers : (first.1.hdr.seq.toNat ::
      (between.map (fun input => input.1.hdr.seq.toNat) ++ [last.1.hdr.seq.toNat])).Pairwise
        (· < ·) := by
    unfold Ascending at ascending
    rwa [List.map_cons, List.map_append] at ascending
  have later := add_length_le_of_pairwise numbers
  rw [List.length_map] at later
  obtain ⟨lost, same⟩ := Nat.exists_eq_add_of_le later
  refine ⟨lost, same, ?_⟩
  have order := UInt64.le_iff_toNat_le.mp dequeued
  have point : last.1.hdr.tCaptureNs.toNat =
      first.1.hdr.tCaptureNs.toNat + (between.length + 1 + lost) * frameNs := by
    have number : last.1.hdr.seq.toNat =
        first.1.hdr.seq.toNat + (between.length + 1 + lost) := by omega
    rw [lastPoint, firstPoint, number, Nat.add_mul first.1.hdr.seq.toNat, ← Nat.add_assoc]
  rw [← point]
  exact (Nat.add_sub_cancel' order).symm

namespace HotLoop

variable {D : Type} [Double D] {config : ChunkerConfig D} {full : Nat → Bool}
  {options : LoopOptions} {maxSessions : Nat} {startNs : UInt64} {ticks : List Tick} {tick : Tick}
  {loop next : HotLoop D} {feed : Feed D} {event : ChunkEvent}

/-- Whatever the other calls do, a hangover closes a chunk on the last of `silence_frames` quiet
frames popped for its call after a loud one, and the lag recorded is that from the sending of the
loud frame.  If moreover the frames of the call are on a grid, the endpoint is as long after the
capture of the loud frame as the hangover, and a frame for each frame of the call that was lost
since, and the delivery of the closing frame take. -/
theorem endpoint_delay (small : maxSessions ≤ kTombstone) (lasting : 0 < config.gate.silenceFrames)
    (ran : iterateAll full options (start maxSessions config startNs) ticks = some loop)
    (stepped : loop.iterate full options tick = some next)
    (fed : loop.feed full options tick = some feed) (published : feed.closes = some event)
    (hangover : event.reason = .hangover) :
    ∃ loud quiet,
      loud :: (quiet ++ [(feed.frame, feed.nowNs)]) <:+
          framesOf feed.frame.hdr.sessionId (ticks ++ [tick]) ∧
      config.loudFrame loud.1 = true ∧
      (∀ input ∈ quiet ++ [(feed.frame, feed.nowNs)], config.loudFrame input.1 = false) ∧
      quiet.length + 1 = config.gate.silenceFrames.toNat ∧
      next.metrics.endpointLag =
        (if loud.1.hdr.tProduceNs ≠ 0 ∧ loud.1.hdr.tProduceNs < event.tEndpointNs
          then [event.tEndpointNs - loud.1.hdr.tProduceNs] else []) ++
          loop.metrics.endpointLag ∧
      ∀ gridNs frameNs,
        OnGrid gridNs frameNs (framesOf feed.frame.hdr.sessionId (ticks ++ [tick])) →
        Ascending (framesOf feed.frame.hdr.sessionId (ticks ++ [tick])) →
        ∃ lost,
          feed.frame.hdr.seq.toNat =
            loud.1.hdr.seq.toNat + config.gate.silenceFrames.toNat + lost ∧
          event.tEndpointNs.toNat = loud.1.hdr.tCaptureNs.toNat +
            (config.gate.silenceFrames.toNat + lost) * frameNs +
              (feed.nowNs.toNat - feed.frame.hdr.tCaptureNs.toNat) := by
  have journaled := (Journaled.make (attentive config lasting) maxSessions).iterateAll ran
  have overhears := (overhears_start small config startNs).iterateAll ran
  obtain ⟨swept, returned, there, -⟩ := iterate_of_fed stepped fed
  obtain ⟨-, attends⟩ := (journaled.sweep returned).fed there
  obtain ⟨closed, answered, rfl⟩ := Option.map_eq_some_iff.mp published
  obtain ⟨loud, quiet, since, length, -, after⟩ :=
    Attentive.hangover attends lasting answered hangover
  -- What the session has received since the loud frame is what was popped for the call.
  have popped : tick.popped = some feed.frame ∧ feed.nowNs = tick.dequeueNs := by
    rw [HotLoop.feed, returned, Option.bind_some] at fed
    obtain ⟨frame, popped, fedHere⟩ := Option.bind_eq_some_iff.mp fed
    obtain ⟨rfl, sameNs, -⟩ := SessionTable.feedOf_eq_some fedHere
    exact ⟨popped, sameNs⟩
  rw [popped.2] at there
  have latest := (overhears.sweep returned).noted popped.1 there
  rw [List.nil_append, Feed.noted, Function.update_self] at latest
  obtain ⟨past, heard⟩ := since.received
  have suffix : loud :: (quiet ++ [(feed.frame, feed.nowNs)]) <:+
      framesOf feed.frame.hdr.sessionId (ticks ++ [tick]) :=
    List.IsSuffix.trans ⟨past, heard.symm⟩ latest
  have endpoint := (closed_of_hangover answered hangover).1
  refine ⟨loud, quiet, suffix, since.isLoud, since.areQuiet, length, ?_, ?_⟩
  · rw [endpointLag_iterate stepped fed published, Feed.served, after]
  · intro gridNs frameNs onGrid ascending
    obtain ⟨lost, number, delay⟩ := delay_on_grid
      (fun input member => onGrid input (suffix.subset member))
      (List.Pairwise.sublist (suffix.sublist.map _) ascending)
    rw [length] at number delay
    exact ⟨lost, number, (congrArg UInt64.toNat endpoint).trans delay⟩

end HotLoop

/-- The frame popped, captured on a grid of 20 ms. -/
def Scenario.captured (tick : Tick) : Tick :=
  { tick with
    popped := tick.popped.map fun frame =>
      { frame with hdr := { frame.hdr with tCaptureNs := frame.hdr.seq * 20000000 } } }

namespace HotLoop

open Scenario

/-- Of the frames after the last loud one, the first is lost. -/
theorem endpoint_delay_oneLost :
    let options : LoopOptions := ⟨20000000, 500000000⟩
    let ticks := [captured (tick 5000000 7 0), captured (tick 25000000 7 1),
      captured (tick 26000000 9 1), captured (quietTick 65000000 7 3)]
    let last := captured (quietTick 83000000 7 4)
    ∃ loop next feed event,
      iterateAll (fun _ => false) options (start 2 shortConfig 0) ticks = some loop ∧
      loop.iterate (fun _ => false) options last = some next ∧
      loop.feed (fun _ => false) options last = some feed ∧ feed.closes = some event ∧
      ∃ loud quiet lost,
        loud :: (quiet ++ [(feed.frame, feed.nowNs)]) <:+
            framesOf feed.frame.hdr.sessionId (ticks ++ [last]) ∧
        shortConfig.loudFrame loud.1 = true ∧
        (∀ input ∈ quiet ++ [(feed.frame, feed.nowNs)], shortConfig.loudFrame input.1 = false) ∧
        quiet.length + 1 = shortConfig.gate.silenceFrames.toNat ∧
        next.metrics.endpointLag =
          (if loud.1.hdr.tProduceNs ≠ 0 ∧ loud.1.hdr.tProduceNs < event.tEndpointNs
            then [event.tEndpointNs - loud.1.hdr.tProduceNs] else []) ++
            loop.metrics.endpointLag ∧
        feed.frame.hdr.seq.toNat =
          loud.1.hdr.seq.toNat + shortConfig.gate.silenceFrames.toNat + lost ∧
        event.tEndpointNs.toNat = loud.1.hdr.tCaptureNs.toNat +
          (shortConfig.gate.silenceFrames.toNat + lost) * 20000000 +
            (feed.nowNs.toNat - feed.frame.hdr.tCaptureNs.toNat) := by
  intro options ticks last
  have runs : (iterateAll (fun _ => false) options (start 2 shortConfig 0) ticks).any (fun loop =>
      (loop.iterate (fun _ => false) options last).any fun _ =>
        (loop.feed (fun _ => false) options last).any fun feed =>
          feed.frame.hdr.sessionId == 7 && feed.closes.any fun event =>
            event.reason = .hangover) = true := by
    decide +kernel
  obtain ⟨loop, ran, steps⟩ := (Option.any_eq_true _ _).mp runs
  obtain ⟨next, stepped, feeds⟩ := (Option.any_eq_true _ _).mp steps
  obtain ⟨feed, fed, closes⟩ := (Option.any_eq_true _ _).mp feeds
  obtain ⟨id, closes⟩ := Bool.and_eq_true_iff.mp closes
  obtain ⟨event, published, hangover⟩ := (Option.any_eq_true _ _).mp closes
  have onGrid : OnGrid 0 20000000 (framesOf feed.frame.hdr.sessionId (ticks ++ [last])) := by
    rw [beq_iff_eq.mp id]
    unfold OnGrid
    decide +kernel
  have ascending : Ascending (framesOf feed.frame.hdr.sessionId (ticks ++ [last])) := by
    rw [beq_iff_eq.mp id]
    unfold Ascending
    decide +kernel
  obtain ⟨loud, quiet, suffix, isLoud, areQuiet, length, lag, delay⟩ := endpoint_delay (by decide)
    (by decide) ran stepped fed published (of_decide_eq_true hangover)
  obtain ⟨lost, number, endpoint⟩ := delay 0 20000000 onGrid ascending
  exact ⟨loop, next, feed, event, ran, stepped, fed, published, loud, quiet, lost, suffix, isLoud,
    areQuiet, length, lag, number, endpoint⟩

end HotLoop

end VoiceHotPath
