import Mathlib.Data.List.Chain
import VoiceHotPath.Consumer.Interleaving
import VoiceHotPath.Vad.BufferRoom

/-!
# One call at a steady cadence

A call whose frames arrive every 20 ms is served by one session from its first
frame to the end, whatever idle time above the cadence is configured.
-/

namespace VoiceHotPath

open ChunkAssembler

/-- The frames popped, with their dequeue times. -/
def poppedAt (ticks : List Tick) : Stream :=
  ticks.filterMap fun tick => tick.popped.map fun frame => (frame, tick.dequeueNs)

/-- The frames popped are 20 ms of one call each, and are dequeued exactly 20 ms apart. -/
structure OneCall (id : UInt32) (stream : Stream) : Prop where
  pcm : ∀ input ∈ stream, input.1.IsPcm20Ms
  call : ∀ input ∈ stream, input.1.hdr.sessionId = id
  cadence : stream.IsChain fun earlier later => later.2.toNat = earlier.2.toNat + 20000000

/-- An iteration for each frame, begun when the frame is dequeued. -/
def ticksOf (stream : Stream) : List Tick :=
  stream.map fun input => { loopNs := input.2, popped := some input.1, dequeueNs := input.2 }

section

variable {id : UInt32} {ticks : List Tick} {tick : Tick} {stream later : Stream}

theorem OneCall.of_append (call : OneCall id (stream ++ later)) : OneCall id stream where
  pcm := fun input member => call.pcm input (List.mem_append_left _ member)
  call := fun input member => call.call input (List.mem_append_left _ member)
  cadence := call.cadence.left_of_append

/-- A frame follows the last one after 20 ms. -/
theorem OneCall.follows {frame : AudioFrame} {nowNs : UInt64}
    (call : OneCall id (stream ++ [(frame, nowNs)])) :
    frame.IsPcm20Ms ∧ frame.hdr.sessionId = id ∧
      ∀ last, stream.getLast?.map Prod.snd = some last →
        nowNs.toNat = last.toNat + 20000000 := by
  have member : (frame, nowNs) ∈ stream ++ [(frame, nowNs)] :=
    List.mem_append_right _ (List.mem_singleton_self _)
  refine ⟨call.pcm _ member, call.call _ member, ?_⟩
  intro last known
  obtain ⟨input, here, rfl⟩ := Option.map_eq_some_iff.mp known
  exact (List.isChain_append.mp call.cadence).2.2 input here (frame, nowNs) rfl

theorem poppedAt_ticksOf (stream : Stream) : poppedAt (ticksOf stream) = stream := by
  rw [poppedAt, ticksOf, List.filterMap_map]
  exact List.filterMap_some

theorem framesOf_ticksOf (call : ∀ input ∈ stream, input.1.hdr.sessionId = id) :
    framesOf id (ticksOf stream) = stream := by
  induction stream with
  | nil => rfl
  | cons input stream ih =>
      obtain ⟨here, rest⟩ := List.forall_mem_cons.mp call
      have later := ih rest
      have kept : (some input.1).filter (fun frame => frame.hdr.sessionId == id) =
          some input.1 := Option.filter_some_pos (beq_iff_eq.mpr here)
      rw [framesOf, ticksOf] at later ⊢
      rw [List.map_cons, List.filterMap_cons, later, kept]
      rfl

theorem mem_callIds_ticksOf (call : ∀ input ∈ stream, input.1.hdr.sessionId = id)
    {id' : UInt32} (member : id' ∈ callIds (ticksOf stream)) : id' = id := by
  obtain ⟨tick, listed, popped⟩ := List.mem_filterMap.mp (List.mem_toFinset.mp member)
  obtain ⟨input, there, rfl⟩ := List.mem_map.mp listed
  cases popped
  exact call input there

theorem card_callIds_ticksOf (call : ∀ input ∈ stream, input.1.hdr.sessionId = id) :
    (callIds (ticksOf stream)).card ≤ 1 := by
  apply Finset.card_le_one.mpr
  intro first seen second seen'
  rw [mem_callIds_ticksOf call seen, mem_callIds_ticksOf call seen']

end

/-- A session is stamped when it is acquired. -/
theorem Feed.lastFrameNs_of_fed {D : Type} {table : SessionTable D} {frame : AudioFrame}
    {nowNs : UInt64} {feed : Feed D} (fed : table.feedOf frame nowNs = some feed) :
    feed.session.lastFrameNs = nowNs := by
  rcases table.feedOf_cases frame nowNs with ⟨refused, -⟩ | ⟨i, session, -, -, same, -⟩ |
    ⟨i, session, opens, -, -, -, same, -⟩
  · rw [refused] at fed
    cases fed
  · rw [same] at fed
    cases fed
    rfl
  · rw [same] at fed
    cases fed
    rfl

section

variable {D : Type} [Double D]

theorem Session.lastFrameNs_served (frame : AudioFrame) (nowNs : UInt64) (session : Session D) :
    (session.served frame nowNs).lastFrameNs = session.lastFrameNs := by
  unfold served hear
  split <;> rfl

/-- The call is alone, and its session was stamped by its last frame. -/
structure Attended (config : ChunkerConfig D) (past : Stream) (loop : HotLoop D) : Prop where
  separate : Separate config (ticksOf past) loop
  capacity : 0 < loop.sessions.maxSessions
  stamped : ∀ (i : Nat) session, loop.sessions.sessions[i]? = some session →
    session.active = true → past.getLast?.map Prod.snd = some session.lastFrameNs

variable {config : ChunkerConfig D} {full : Nat → Bool} {options : LoopOptions} {id : UInt32}
  {loop : HotLoop D} {past rest : Stream} {frame : AudioFrame} {nowNs : UInt64}

/-- A session stamped 20 ms ago is not idle. -/
theorem Attended.keepsOpen (attended : Attended config past loop)
    (idle : 20000000 < options.idleNs) (call : OneCall id (past ++ [(frame, nowNs)])) :
    loop.keepsOpen options nowNs = true := by
  unfold HotLoop.keepsOpen
  split
  · rw [List.all_eq_true]
    intro session member
    obtain ⟨i, here⟩ := List.getElem?_of_mem member
    cases active : session.active with
    | false => rfl
    | true =>
        have next := call.follows.2.2 _ (attended.stamped i session here active)
        have apart : nowNs - session.lastFrameNs = 20000000 := by
          apply UInt64.toNat_inj.mp
          rw [UInt64.toNat_sub_of_le _ _ (UInt64.le_iff_toNat_le.mpr (by omega)), next]
          exact Nat.add_sub_cancel_left _ _
        rw [SessionTable.isIdle, apart, decide_eq_true idle]
        rfl
  · rfl

variable (full) in
/-- Step lemma: the next frame reaches the session of the call. -/
theorem Attended.iterate (attended : Attended config past loop)
    (idle : 20000000 < options.idleNs) (call : OneCall id (past ++ [(frame, nowNs)])) :
    ∃ next feed, loop.iterate full options ⟨nowNs, some frame, nowNs⟩ = some next ∧
      loop.feed full options ⟨nowNs, some frame, nowNs⟩ = some feed ∧
      feed.frame = frame ∧ feed.nowNs = nowNs ∧
      feed.session.assembler = afterStream config past ∧
      Attended config (past ++ [(frame, nowNs)]) next := by
  have keeps := attended.keepsOpen idle call
  have once : ticksOf (past ++ [(frame, nowNs)]) =
      ticksOf past ++ [⟨nowNs, some frame, nowNs⟩] := List.map_append
  have room := (card_callIds_ticksOf call.call).trans attended.capacity
  rw [once] at room
  obtain ⟨next, stepped, capacity, separate⟩ :=
    attended.separate.iterate full keeps room
  obtain ⟨swept, returned, ok, sessions, sweptCapacity, emitted⟩ :=
    HotLoop.sweep_of_keepsOpen full attended.separate.ok keeps
  have kept := attended.separate.congr ok sessions emitted
  rw [callIds_snoc rfl, ← sweptCapacity] at room
  obtain ⟨feed, fed, active, called, assembler, -⟩ := kept.fed room nowNs
  obtain ⟨sameFrame, sameNs, -⟩ := SessionTable.feedOf_eq_some fed
  have there : loop.feed full options ⟨nowNs, some frame, nowNs⟩ = some feed := by
    rw [HotLoop.feed, returned]
    exact fed
  rw [framesOf_ticksOf fun input member =>
    (call.of_append.call input member).trans call.follows.2.1.symm] at assembler
  refine ⟨next, feed, stepped, there, sameFrame, sameNs, assembler, ?_, ?_, ?_⟩
  · rw [once]
    exact separate
  · rw [capacity]
    exact attended.capacity
  · -- The session of the call is the only one open, and was stamped just now.
    intro i session here opened
    have fedHere := HotLoop.session_iterate stepped there
    obtain ⟨servedId, servedActive, -⟩ := feed.session.served_keeps feed.frame feed.nowNs
    have seen := (separate.alone i session here opened).1
    rw [← once] at seen
    have only : i = feed.storage := by
      apply separate.ok.ids i (SessionTable.mem_openStorage.mpr ⟨_, here, opened⟩) feed.storage
        (SessionTable.mem_openStorage.mpr ⟨_, fedHere, servedActive.trans active⟩)
      rw [SessionTable.idAt_of_getElem? here, SessionTable.idAt_of_getElem? fedHere,
        mem_callIds_ticksOf call.call seen]
      exact (servedId.trans (called.trans call.follows.2.1)).symm
    subst only
    rw [fedHere] at here
    cases here
    rw [List.getLast?_concat, Feed.served, Session.lastFrameNs_served,
      Feed.lastFrameNs_of_fed fed]
    rfl

variable (full) in
/-- Run lemma: each frame of the call reaches the assembler that has had those before it. -/
theorem Attended.iterateAll (attended : Attended config past loop)
    (idle : 20000000 < options.idleNs) (call : OneCall id (past ++ rest)) :
    ∃ final, HotLoop.iterateAll full options loop (ticksOf rest) = some final ∧
      Attended config (past ++ rest) final ∧
      ∀ before input after, rest = before ++ input :: after →
        ∃ feed ∈ loop.feeds full options (ticksOf rest),
          feed.session.assembler = afterStream config (past ++ before) ∧
          feed.frame = input.1 ∧ feed.nowNs = input.2 := by
  induction rest generalizing past loop with
  | nil =>
      refine ⟨loop, rfl, ?_, fun before input after absent => ?_⟩
      · rw [List.append_nil]
        exact attended
      · have short := congrArg List.length absent
        simp at short
  | cons input rest ih =>
      rw [List.append_cons] at call ⊢
      obtain ⟨next, feed, stepped, fed, sameFrame, sameNs, assembler, kept⟩ :=
        attended.iterate full idle call.of_append
      obtain ⟨final, ran, last, later⟩ := ih kept call
      have feeds : loop.feeds full options (ticksOf (input :: rest)) =
          feed :: next.feeds full options (ticksOf rest) := by
        rw [ticksOf, List.map_cons, HotLoop.feeds, fed, stepped]
        rfl
      refine ⟨final, ?_, last, fun before input' after split => ?_⟩
      · rw [ticksOf, List.map_cons, HotLoop.iterateAll, stepped, Option.bind_some]
        exact ran
      · rw [feeds]
        cases before with
        | nil =>
            cases split
            rw [List.append_nil]
            exact ⟨feed, List.mem_cons_self, assembler, sameFrame, sameNs⟩
        | cons first before =>
            cases split
            obtain ⟨feed', member, same, rest'⟩ := later before input' after rfl
            rw [← List.append_cons] at same
            exact ⟨feed', List.mem_cons_of_mem _ member, same, rest'⟩

/-- One call at a steady cadence is served by one assembler from its first frame to the end. -/
theorem OneCall.served {maxSessions : Nat} (call : OneCall id rest) (positive : 0 < maxSessions)
    (small : maxSessions ≤ kTombstone) (idle : 20000000 < options.idleNs)
    (config : ChunkerConfig D) (full : Nat → Bool) (startNs endNs : UInt64) :
    ∃ final, HotLoop.hotLoop full options maxSessions config startNs (ticksOf rest) endNs =
        some final ∧
      (∀ before input after, rest = before ++ input :: after →
        ∃ feed ∈ (HotLoop.start maxSessions config startNs).feeds full options (ticksOf rest),
          feed.session.assembler = afterStream config before ∧
          feed.frame = input.1 ∧ feed.nowNs = input.2) ∧
      final.emitted.filter (fun event => event.sessionId == id) =
        eventsAlone config id (rest.flushed endNs) := by
  have start : Attended config [] (HotLoop.start maxSessions config startNs) := by
    have separate := separate_start positive small config startNs
    refine ⟨separate, ?_, fun i session here active => ?_⟩
    · rw [maxSessions_start positive]
      exact positive
    · have seen := (separate.alone i session here active).1
      cases seen
  obtain ⟨loop, ran, attended, feeds⟩ := start.iterateAll full idle call
  obtain ⟨final, finished, same⟩ := attended.separate.finish full endNs
  refine ⟨final, ?_, feeds, ?_⟩
  · rw [HotLoop.hotLoop, ran, Option.bind_some, finished]
  · rw [same, List.nil_append, framesOf_ticksOf call.call]

end

end VoiceHotPath
