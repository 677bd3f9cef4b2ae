import VoiceHotPath.Consumer.Publisher
import VoiceHotPath.Lib.BinaryRounding
import VoiceHotPath.Lib.FormattedText

/-!
# What the publisher prints

One line of JSON an event.  The text on the standard output determines the fields
printed, of every event and in their order; and the pattern `sweep_hangover.sh`
greps for is in the lines of the chunks that the hangover has closed.
-/

namespace VoiceHotPath

open BinaryRounding FormattedText

/-- The values of `CloseReason` as they lie in the event. -/
def CloseReason.code : CloseReason → Nat
  | hangover => 0
  | maxLength => 1
  | streamEnd => 2

/-- `kReasons`. -/
def kReasons : List String :=
  ["hangover", "max_length", "stream_end"]

/-- The name that is printed for a reason. -/
def CloseReason.name (reason : CloseReason) : List Char :=
  (kReasons[reason.code]?.getD "unknown").toList

/-- `%.1f` of the milliseconds, in tenths.  Both the nanoseconds and their quotient are rounded to a
double, and what is printed is the tenth nearest to that double. -/
def tenthsOfMs (ns : UInt64) : Nat :=
  let ms := binary64 (binary64 ns.toNat / 1000000)
  (nearestEven (ms * 10)).toNat

/-- The tenths are the nearest but for what the two roundings to a double can move. -/
theorem abs_tenthsOfMs_sub_le (ns : UInt64) :
    |ns.toNat / 100000 - (tenthsOfMs ns : ℚ)| ≤ 1 / 2 + ns.toNat / 100000 * (3 / 2 ^ 53) := by
  let exact : ℚ := ns.toNat
  let count := binary64 exact
  let ms := binary64 (count / 1000000)
  have nonneg : 0 ≤ exact := Nat.cast_nonneg _
  have counted : 0 ≤ count := nearest_nonneg 53 nonneg
  have divided : 0 ≤ ms := nearest_nonneg 53 (div_nonneg counted (by norm_num))
  have integer : (tenthsOfMs ns : ℚ) = nearestEven (ms * 10) := by
    have whole : 0 ≤ nearestEven (ms * 10) := nearestEven_nonneg (mul_nonneg divided (by norm_num))
    exact_mod_cast congrArg (Int.cast : ℤ → ℚ) (Int.toNat_of_nonneg whole)
  have first : |exact - count| ≤ |exact| / 2 ^ 53 := abs_sub_nearest_le 53 exact
  have second : |count / 1000000 - ms| ≤ |count / 1000000| / 2 ^ 53 := abs_sub_nearest_le 53 _
  have last : |ms * 10 - nearestEven (ms * 10)| ≤ 1 / 2 := abs_sub_nearestEven_le _
  rw [abs_of_nonneg nonneg, abs_le] at first
  rw [abs_of_nonneg (div_nonneg counted (by norm_num)), abs_le] at second
  rw [abs_le] at last
  rw [integer, abs_le]
  change _ ≤ exact / 100000 - _ ∧ exact / 100000 - _ ≤ _ + exact / 100000 * _
  constructor <;> linarith

namespace ChunkEvent

/-- `speech_ms`, in tenths. -/
def speechTenths (event : ChunkEvent) : Nat :=
  tenthsOfMs (event.tEndpointNs - event.tSpeechStartNs)

/-- The arguments of `printf`, `speech_ms` as its two sides of the point. -/
def words (event : ChunkEvent) : List (List Char) :=
  [Nat.toDigits 10 event.sessionId.toNat, Nat.toDigits 10 event.chunkId.toNat,
    Nat.toDigits 10 event.firstSeq.toNat, Nat.toDigits 10 event.lastSeq.toNat,
    Nat.toDigits 10 event.frameCount.toNat, Nat.toDigits 10 event.byteCount.toNat,
    Nat.toDigits 10 event.droppedFrames.toNat, event.reason.name,
    Nat.toDigits 10 (event.speechTenths / 10), Nat.toDigits 10 (event.speechTenths % 10),
    Nat.toDigits 10 event.tEndpointNs.toNat]

end ChunkEvent

/-- The format of `printf` before its first argument. -/
def lineStart : List Char :=
  "\x7b\"session\":".toList

/-- The format after each argument, up to the end of the line. -/
def lineTexts : List (List Char) :=
  [",\"chunk_id\":".toList, ",\"first_seq\":".toList, ",\"last_seq\":".toList,
    ",\"frames\":".toList, ",\"bytes\":".toList, ",\"dropped\":".toList, ",\"reason\":\"".toList,
    "\",\"speech_ms\":".toList, ".".toList, ",\"endpoint_ns\":".toList, "\x7d".toList]

/-- The line of an event. -/
def ChunkEvent.line (event : ChunkEvent) : List Char :=
  lineStart ++ fill lineTexts event.words

/-- The standard output after some events have been printed. -/
def stdout (events : List ChunkEvent) : List Char :=
  unlines '\n' (events.map ChunkEvent.line)

/-- What the line of an event tells of it. -/
structure PrintedEvent where
  sessionId : UInt32
  chunkId : UInt64
  firstSeq : UInt64
  lastSeq : UInt64
  frameCount : UInt32
  byteCount : UInt32
  droppedFrames : UInt32
  reason : CloseReason
  speechTenths : Nat
  tEndpointNs : UInt64
  deriving DecidableEq, Repr

def ChunkEvent.printed (event : ChunkEvent) : PrintedEvent :=
  { event with speechTenths := event.speechTenths }

example : String.ofList (ChunkEvent.line
    { sessionId := 7, chunkId := 2, firstSeq := 10, lastSeq := 12, frameCount := 3
      byteCount := 2880, tSpeechStartNs := 5, tEndpointNs := 60050005, reason := .maxLength }) =
    "\x7b\"session\":7,\"chunk_id\":2,\"first_seq\":10,\"last_seq\":12,\"frames\":3," ++
      "\"bytes\":2880,\"dropped\":0,\"reason\":\"max_length\",\"speech_ms\":60.0," ++
      "\"endpoint_ns\":60050005\x7d" := by
  decide +kernel

-- The double nearest to 0.15 is below it, and 0.25 is a double.
example : [49999, 50000, 100000, 150000, 250000].map tenthsOfMs = [0, 1, 1, 1, 2] := by
  decide +kernel

namespace ChunkEvent

variable {event other : ChunkEvent}

/-! ## A line gives its event back -/

theorem name_injective : Function.Injective CloseReason.name := by
  intro reason other same
  cases reason <;> cases other <;> first | rfl | exact absurd same (by decide)

/-- No argument contains what the text after it begins with. -/
theorem delimited_words (event : ChunkEvent) : Delimited lineTexts event.words := by
  have digits : ∀ {c : Char} (n : Nat), c.isDigit = false → c ∉ Nat.toDigits 10 n :=
    fun n other => notMem_toDigits other n
  have quote : '"' ∉ event.reason.name := by
    cases event.reason <;> decide
  refine .cons ⟨',', rfl, digits _ rfl⟩ <| .cons ⟨',', rfl, digits _ rfl⟩ <|
    .cons ⟨',', rfl, digits _ rfl⟩ <| .cons ⟨',', rfl, digits _ rfl⟩ <|
    .cons ⟨',', rfl, digits _ rfl⟩ <| .cons ⟨',', rfl, digits _ rfl⟩ <|
    .cons ⟨',', rfl, digits _ rfl⟩ <| .cons ⟨'"', rfl, quote⟩ <|
    .cons ⟨'.', rfl, digits _ rfl⟩ <| .cons ⟨',', rfl, digits _ rfl⟩ <|
    .cons ⟨'\x7d', rfl, digits _ rfl⟩ .nil

theorem words_inj_iff : event.words = other.words ↔ event.printed = other.printed := by
  constructor
  · intro same
    simp only [words, List.cons.injEq, toDigits_injective.eq_iff, name_injective.eq_iff,
      UInt32.toNat_inj, UInt64.toNat_inj] at same
    obtain ⟨sessionId, chunkId, firstSeq, lastSeq, frameCount, byteCount, droppedFrames, reason,
      whole, tenth, tEndpointNs, -⟩ := same
    have tenths : event.speechTenths = other.speechTenths := by
      rw [← Nat.div_add_mod event.speechTenths 10, whole, tenth, Nat.div_add_mod]
    simp only [printed, sessionId, chunkId, firstSeq, lastSeq, frameCount, byteCount,
      droppedFrames, reason, tenths, tEndpointNs]
  · intro same
    simp only [printed, PrintedEvent.mk.injEq] at same
    obtain ⟨sessionId, chunkId, firstSeq, lastSeq, frameCount, byteCount, droppedFrames, reason,
      tenths, tEndpointNs⟩ := same
    simp only [words, sessionId, chunkId, firstSeq, lastSeq, frameCount, byteCount,
      droppedFrames, reason, tenths, tEndpointNs]

theorem line_inj_iff : event.line = other.line ↔ event.printed = other.printed := by
  rw [← words_inj_iff]
  constructor
  · intro same
    have texts : fill lineTexts event.words ++ [] = fill lineTexts other.words ++ [] := by
      rw [List.append_nil, List.append_nil]
      exact List.append_cancel_left same
    exact (fill_inj event.delimited_words other.delimited_words texts).1
  · intro same
    rw [line, line, same]

/-! ## What a line contains -/

/-- A character of a line is one of the format, a digit, or one of a name. -/
theorem mem_line {c : Char} (other : c.isDigit = false) :
    c ∈ event.line ↔ c ∈ lineStart ++ lineTexts.flatten ∨ c ∈ event.reason.name := by
  have digits : ∀ n, c ∉ Nat.toDigits 10 n := notMem_toDigits other
  have words : c ∈ event.words.flatten ↔ c ∈ event.reason.name := by
    simp [words, digits]
  rw [line, List.mem_append, mem_fill event.delimited_words, words, List.mem_append, or_assoc]

theorem newline_notMem_line (event : ChunkEvent) : '\n' ∉ event.line := by
  rw [mem_line rfl]
  cases event.reason <;> decide

end ChunkEvent

/-! ## The standard output gives its events back -/

/-- Two runs print the same text exactly if they print the same fields of as many events. -/
theorem stdout_faithful (events others : List ChunkEvent) :
    stdout events = stdout others ↔
      events.map ChunkEvent.printed = others.map ChunkEvent.printed := by
  have absent : ∀ events : List ChunkEvent, ∀ line ∈ events.map ChunkEvent.line, '\n' ∉ line := by
    intro events line member
    obtain ⟨event, -, rfl⟩ := List.mem_map.mp member
    exact event.newline_notMem_line
  have texts : stdout events = stdout others ↔
      events.map ChunkEvent.line = others.map ChunkEvent.line :=
    ⟨unlines_inj (absent events) (absent others), congrArg (unlines '\n')⟩
  have each : ∀ {β : Type} (f : ChunkEvent → β), events.map f = others.map f ↔
      List.Forall₂ (fun event other => f event = f other) events others := by
    intro β f
    rw [← List.forall₂_eq_eq_eq, List.forall₂_map_left_iff, List.forall₂_map_right_iff]
  rw [texts, each, each]
  simp only [ChunkEvent.line_inj_iff]

/-! ## The chunks the script counts -/

/-- The pattern that `sweep_hangover.sh` greps for. -/
def hangoverPattern : List Char :=
  "\"reason\":\"hangover\"".toList

/-- `grep -c` on the standard output. -/
def grepChunks (text : List Char) : Nat :=
  matchingLines '\n' hangoverPattern text

/-- Of the format and the names, only the name of the hangover has a letter of the pattern in it. -/
theorem ChunkEvent.hangoverPattern_infix_line (event : ChunkEvent) :
    hangoverPattern <:+: event.line ↔ event.reason = .hangover := by
  constructor
  · intro found
    have letter : 'v' ∈ event.line := found.subset (by decide)
    rw [mem_line rfl] at letter
    cases reason : event.reason with
    | hangover => rfl
    | maxLength | streamEnd =>
        rw [reason] at letter
        exact absurd letter (by decide)
  · intro reason
    have pattern : hangoverPattern <:+: ",\"reason\":\"".toList ++
        (CloseReason.hangover.name ++ "\",\"speech_ms\":".toList) := by
      decide
    have front : (lineTexts.take 6).length = (event.words.take 6).length := rfl
    have parts := fill_append front (lineTexts.drop 6) (event.words.drop 6)
    rw [List.take_append_drop, List.take_append_drop] at parts
    have here : fill (lineTexts.drop 6) (event.words.drop 6) =
        Nat.toDigits 10 event.droppedFrames.toNat ++ ",\"reason\":\"".toList ++
          (event.reason.name ++ "\",\"speech_ms\":".toList ++
            fill (lineTexts.drop 8) (event.words.drop 8)) := rfl
    rw [reason] at here
    refine pattern.trans ⟨lineStart ++ fill (lineTexts.take 6) (event.words.take 6) ++
      Nat.toDigits 10 event.droppedFrames.toNat, fill (lineTexts.drop 8) (event.words.drop 8), ?_⟩
    rw [line, parts, here]
    simp only [List.append_assoc]

theorem grepChunks_stdout (events : List ChunkEvent) :
    grepChunks (stdout events) = events.countP fun event => event.reason = .hangover := by
  have absent : ∀ line ∈ events.map ChunkEvent.line, '\n' ∉ line := by
    intro line member
    obtain ⟨event, -, rfl⟩ := List.mem_map.mp member
    exact event.newline_notMem_line
  rw [grepChunks, stdout, matchingLines_unlines (by decide) absent, List.countP_map]
  simp only [Function.comp_def, ChunkEvent.hangoverPattern_infix_line]

namespace Publishing

variable {D : Type} [Double D] {frameCapacity eventCapacity : Capacity}

/--
In every schedule, when the publisher has exited, the script counts the chunks that
the hangover has closed in the sequential loop over the frames popped, but for those
that the event ring refused.
-/
theorem script_counts_hangovers (options : LoopOptions) (maxSessions : Nat)
    (config : ChunkerConfig D) (startNs frameStart eventStart : UInt64)
    (frameSlots : Vector AudioFrame frameCapacity.size)
    (eventSlots : Vector ChunkEvent eventCapacity.size) (schedule : List PublishingActor)
    {state : Publishing D frameCapacity eventCapacity}
    (ran : (initial (HotLoop.start maxSessions config startNs) frameStart eventStart frameSlots
      eventSlots).run options schedule = state) (exited : state.pc = .exited) :
    ∃ loop endNs,
      HotLoop.hotLoop (fun n => state.path.hot.refused.getD n false) options maxSessions config
        startNs state.path.hot.ticks endNs = some loop ∧
      grepChunks (stdout state.printed) =
        (HotPath.accepted loop.emitted state.path.hot.refused).countP fun event =>
          event.reason = .hangover := by
  have drains : Drains options (HotLoop.start maxSessions config startNs) frameStart eventStart
      state := by
    rw [← ran]
    exact (drains_initial options rfl frameStart eventStart frameSlots eventSlots).run schedule
  obtain ⟨set, empty⟩ := drains.exited exited
  obtain ⟨endNs, pc⟩ := drains.done set
  have popped : state.printed = state.path.events.pushed :=
    drains.printed.trans (drains.sequential.events.drained empty)
  refine ⟨_, endNs, drains.sequential.hotLoop pc (HotPath.heeds_getD _), ?_⟩
  rw [grepChunks_stdout, popped, drains.sequential.pushed]

open Scenario in
/-- The hangover closes a chunk of two frames, after one more tone and two silent frames. -/
theorem script_counts_hangovers_one :
    ∃ state : Publishing ℚ twoSlots twoSlots,
      (initial (HotLoop.start 1 shortConfig 0) 0 0 (Vector.replicate _ {})
        (Vector.replicate _ {})).run ⟨20000000, 100000000⟩
        ((List.replicate 5 (.frames (toneFrame 0)) ++
            List.replicate 5 (.frames (toneFrame 1)) ++
            List.replicate 30 (.hot ⟨false, 10000000⟩)) ++
          (List.replicate 8 (.frames (silentFrame 2)) ++
            List.replicate 5 (.frames (silentFrame 3)) ++
            List.replicate 30 (.hot ⟨false, 10000000⟩)) ++
          List.replicate 16 (.hot ⟨true, 30000000⟩) ++ [.main] ++
          List.replicate 24 (.publisher false)) = state ∧
      grepChunks (stdout state.printed) = 1 ∧
      ∃ loop endNs,
        HotLoop.hotLoop (fun n => state.path.hot.refused.getD n false) ⟨20000000, 100000000⟩ 1
          shortConfig 0 state.path.hot.ticks endNs = some loop ∧
        grepChunks (stdout state.printed) =
          (HotPath.accepted loop.emitted state.path.hot.refused).countP fun event =>
            event.reason = .hangover := by
  refine ⟨_, rfl, ?_⟩
  generalize ran : @Publishing.run ℚ _ _ _ _ _ _ = state
  have exited : state.pc = .exited := by
    rw [← ran]
    decide +kernel
  have one : state.printed.map ChunkEvent.reason = [.hangover] := by
    rw [← ran]
    decide +kernel
  refine ⟨?_, script_counts_hangovers _ 1 shortConfig 0 0 0 _ _ _ ran exited⟩
  have tally : grepChunks (stdout state.printed) =
      (state.printed.map ChunkEvent.reason).countP (· = .hangover) := by
    rw [grepChunks_stdout, List.countP_map]
    rfl
  rw [tally, one]
  rfl

end Publishing

end VoiceHotPath
