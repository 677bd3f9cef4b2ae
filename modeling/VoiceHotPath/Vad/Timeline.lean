import VoiceHotPath.Lib.Machine
import VoiceHotPath.AudioFrame

/-!
# The abstract chunker

The assembler's purpose stated over positions: frames are numbered as they are
received, and a chunk is an interval of positions.  A timeline remembers only
how many frames it has received and where the current interval began.
-/

namespace VoiceHotPath

/-- A closed chunk: the received positions `[start, stop)`. -/
structure Closing where
  start : Nat
  stop : Nat
  /-- The position of the onset frame, unless the chunk continues a capped one. -/
  onset : Option Nat
  reason : CloseReason
  deriving DecidableEq, Repr

/-- No chunk is open since a position, or one is recording from a position. -/
inductive Phase where
  | idle (since : Nat)
  | recording (start : Nat) (onset : Option Nat)
  deriving DecidableEq, Repr

structure Timeline where
  received : Nat := 0
  phase : Phase := .idle 0
  deriving DecidableEq, Repr

/-- What the gate and the clock decide about one call. -/
inductive Move where
  | frame (onset speaking capped : Bool)
  | flush
  deriving DecidableEq, Repr

namespace Timeline

/-- An onset while idle opens a chunk on the last `preRoll` idle positions. -/
def enter (preRoll : Nat) (timeline : Timeline) (onset : Bool) : Phase :=
  match timeline.phase with
  | .idle since =>
      if onset then
        .recording (timeline.received - min preRoll (timeline.received - since))
          (some timeline.received)
      else .idle since
  | .recording start opened => .recording start opened

/-- The end of speech closes a chunk; the cap closes it and continues. -/
def leave (received : Nat) (speaking capped : Bool) (phase : Phase) : Timeline × Option Closing :=
  match phase with
  | .idle since => (⟨received, .idle since⟩, none)
  | .recording start opened =>
      if !speaking then
        (⟨received, .idle received⟩, some ⟨start, received, opened, .hangover⟩)
      else if capped then
        (⟨received, .recording received none⟩, some ⟨start, received, opened, .maxLength⟩)
      else (⟨received, .recording start opened⟩, none)

def step (preRoll : Nat) (timeline : Timeline) (move : Move) : Timeline × Option Closing :=
  match move with
  | .frame onset speaking capped =>
      leave (timeline.received + 1) speaking capped (enter preRoll timeline onset)
  | .flush =>
      match timeline.phase with
      | .idle _ => (timeline, none)
      | .recording start opened =>
          (⟨timeline.received, .idle timeline.received⟩,
            some ⟨start, timeline.received, opened, .streamEnd⟩)

/-- A chunk is closed only from a recording phase, by the end of speech or the cap. -/
theorem leave_eq_some {received : Nat} {speaking capped : Bool} {phase : Phase}
    {closing : Closing} (closed : (leave received speaking capped phase).2 = some closing) :
    ∃ start onset, phase = .recording start onset ∧
      closing = ⟨start, received, onset, if speaking then .maxLength else .hangover⟩ ∧
      (speaking = true → capped = true) := by
  cases phase with
  | idle since => cases closed
  | recording start onset =>
      refine ⟨start, onset, rfl, ?_⟩
      cases speaking with
      | false => exact ⟨(Option.some.inj closed).symm, fun absent => by cases absent⟩
      | true =>
          cases capped with
          | false => cases closed
          | true => exact ⟨(Option.some.inj closed).symm, fun _ => rfl⟩

end Timeline

namespace Closing

/-- A chunk opened by an onset: the pre-roll reaches back at most to `since`. -/
structure OpenedByOnset (preRoll since : Nat) (closing : Closing) (onset : Nat) : Prop where
  onset_eq : closing.onset = some onset
  since_le : since ≤ onset
  onset_lt : onset < closing.stop
  start_eq : closing.start = onset - min preRoll (onset - since)

/-- A chunk continuing a capped one starts where that one stopped. -/
structure Continues (previous : Nat) (closing : Closing) : Prop where
  onset_eq : closing.onset = none
  start_eq : closing.start = previous
  start_le : closing.start ≤ closing.stop

/-- How a chunk may follow the chunk closed before it, if any. -/
def Follows (preRoll : Nat) : Option Closing → Closing → Prop
  | none, next => ∃ onset, next.OpenedByOnset preRoll 0 onset
  | some previous, next =>
      if previous.reason = .maxLength then next.Continues previous.stop
      else ∃ onset, next.OpenedByOnset preRoll previous.stop onset

/-- Each chunk of a list follows the one before it. -/
inductive Chained (preRoll : Nat) : Option Closing → List Closing → Prop where
  | nil (previous : Option Closing) : Chained preRoll previous []
  | cons {previous : Option Closing} {closing : Closing} {rest : List Closing} :
      Follows preRoll previous closing → Chained preRoll (some closing) rest →
        Chained preRoll previous (closing :: rest)

theorem OpenedByOnset.since_le_start {preRoll since onset : Nat} {closing : Closing}
    (opened : closing.OpenedByOnset preRoll since onset) : since ≤ closing.start := by
  have := opened.since_le
  rw [opened.start_eq]
  omega

theorem OpenedByOnset.start_le_stop {preRoll since onset : Nat} {closing : Closing}
    (opened : closing.OpenedByOnset preRoll since onset) : closing.start ≤ closing.stop := by
  have := opened.onset_lt
  rw [opened.start_eq]
  omega

theorem follows_maxLength {preRoll : Nat} {previous next : Closing}
    (capped : previous.reason = .maxLength) :
    Follows preRoll (some previous) next ↔ next.Continues previous.stop := by
  simp [Follows, capped]

theorem follows_ended {preRoll : Nat} {previous next : Closing}
    (ended : previous.reason ≠ .maxLength) :
    Follows preRoll (some previous) next ↔
      ∃ onset, next.OpenedByOnset preRoll previous.stop onset := by
  simp [Follows, ended]

/-- A chunk never ends before it begins. -/
theorem Follows.start_le_stop {preRoll : Nat} {previous : Option Closing} {next : Closing}
    (follows : Follows preRoll previous next) : next.start ≤ next.stop := by
  cases previous with
  | none =>
      obtain ⟨onset, opened⟩ := follows
      exact opened.start_le_stop
  | some previous =>
      by_cases capped : previous.reason = .maxLength
      · exact ((follows_maxLength capped).mp follows).start_le
      · obtain ⟨onset, opened⟩ := (follows_ended capped).mp follows
        exact opened.start_le_stop

/-- The onset frame of a chunk lies inside it. -/
theorem Follows.onset_inside {preRoll : Nat} {previous : Option Closing} {next : Closing}
    (follows : Follows preRoll previous next) {onset : Nat} (opened : next.onset = some onset) :
    next.start ≤ onset ∧ onset < next.stop := by
  have inside : ∀ since position, next.OpenedByOnset preRoll since position →
      next.start ≤ onset ∧ onset < next.stop := by
    rintro since position ⟨same, -, before, start⟩
    obtain rfl := Option.some.inj (opened.symm.trans same)
    exact ⟨by omega, before⟩
  cases previous with
  | none =>
      obtain ⟨position, opening⟩ := follows
      exact inside 0 position opening
  | some previous =>
      by_cases capped : previous.reason = .maxLength
      · have continues := (follows_maxLength capped).mp follows
        rw [continues.onset_eq] at opened
        cases opened
      · obtain ⟨position, opening⟩ := (follows_ended capped).mp follows
        exact inside previous.stop position opening

/-- A chunk begins no earlier than the previous one stopped. -/
theorem Follows.stop_le_start {preRoll : Nat} {previous next : Closing}
    (follows : Follows preRoll (some previous) next) : previous.stop ≤ next.start := by
  by_cases capped : previous.reason = .maxLength
  · exact Nat.le_of_eq ((follows_maxLength capped).mp follows).start_eq.symm
  · obtain ⟨onset, opened⟩ := (follows_ended capped).mp follows
    exact opened.since_le_start

/-- The chunk open in a follow-up state still follows when it grows by a frame. -/
theorem Follows.grow {preRoll start stop : Nat} {onset : Option Nat} {reason : CloseReason}
    {previous : Option Closing} (follows : Follows preRoll previous ⟨start, stop, onset, reason⟩)
    {later : Nat} (order : stop ≤ later) (reason' : CloseReason) :
    Follows preRoll previous ⟨start, later, onset, reason'⟩ := by
  cases previous with
  | none =>
      obtain ⟨o, opened⟩ := follows
      exact ⟨o, opened.onset_eq, opened.since_le,
        Nat.lt_of_lt_of_le opened.onset_lt order, opened.start_eq⟩
  | some previous =>
      by_cases capped : previous.reason = .maxLength
      · have continues := (follows_maxLength capped).mp follows
        exact (follows_maxLength capped).mpr
          ⟨continues.onset_eq, continues.start_eq, Nat.le_trans continues.start_le order⟩
      · obtain ⟨o, opened⟩ := (follows_ended capped).mp follows
        exact (follows_ended capped).mpr ⟨o, opened.onset_eq, opened.since_le,
          Nat.lt_of_lt_of_le opened.onset_lt order, opened.start_eq⟩

/-- Chained chunks share no position and lie in order, after the previous one. -/
theorem Chained.ordered {preRoll : Nat} {previous : Option Closing} {closings : List Closing}
    (chained : Chained preRoll previous closings) :
    (∀ before, previous = some before → ∀ closing ∈ closings, before.stop ≤ closing.start) ∧
      closings.Pairwise fun earlier later => earlier.stop ≤ later.start := by
  induction chained with
  | nil previous => exact ⟨(fun _ _ _ absent => by cases absent), .nil⟩
  | @cons previous closing rest follows chained ih =>
      obtain ⟨tail, pairwise⟩ := ih
      refine ⟨?_, .cons (tail closing rfl) pairwise⟩
      intro before same later mem
      subst same
      have start := follows.stop_le_start
      rcases List.mem_cons.mp mem with rfl | mem
      · exact start
      · exact Nat.le_trans start
          (Nat.le_trans follows.start_le_stop (tail closing rfl later mem))

/-- Every chunk of a chain follows some close or opens it. -/
theorem Chained.follows {preRoll : Nat} {previous : Option Closing} {closings : List Closing}
    (chained : Chained preRoll previous closings) :
    ∀ closing ∈ closings, ∃ before, Follows preRoll before closing := by
  induction chained with
  | nil previous => exact fun _ absent => by cases absent
  | cons follows chained ih =>
      intro later mem
      rcases List.mem_cons.mp mem with rfl | mem
      · exact ⟨_, follows⟩
      · exact ih later mem

theorem Chained.start_le_stop {preRoll : Nat} {previous : Option Closing}
    {closings : List Closing} (chained : Chained preRoll previous closings) :
    ∀ closing ∈ closings, closing.start ≤ closing.stop := by
  intro closing mem
  obtain ⟨before, follows⟩ := chained.follows closing mem
  exact follows.start_le_stop

end Closing

namespace Timeline

open Closing

/-- The position from which frames belong to no chunk, after the given close. -/
def resumeAt : Option Closing → Nat
  | none => 0
  | some previous => previous.stop

/-- What a phase promises about the next chunk to close. -/
def Ready (preRoll : Nat) (previous : Option Closing) (timeline : Timeline) : Prop :=
  match timeline.phase with
  | .idle since =>
      since = resumeAt previous ∧ since ≤ timeline.received ∧
        ∀ closing, previous = some closing → closing.reason ≠ .maxLength
  | .recording start onset =>
      Follows preRoll previous ⟨start, timeline.received, onset, .hangover⟩

theorem ready_initial (preRoll : Nat) : Ready preRoll none {} :=
  ⟨rfl, Nat.le_refl 0, fun _ absent => by cases absent⟩

/-- Opening on an onset follows the previous close. -/
theorem ready_onset {preRoll since received : Nat} {previous : Option Closing}
    (ready : Ready preRoll previous ⟨received, .idle since⟩) (reason : CloseReason) :
    Follows preRoll previous
      ⟨received - min preRoll (received - since), received + 1, some received, reason⟩ := by
  obtain ⟨resume, order, ended⟩ := ready
  have opened : OpenedByOnset preRoll since
      ⟨received - min preRoll (received - since), received + 1, some received, reason⟩ received :=
    ⟨rfl, order, Nat.lt_succ_self _, rfl⟩
  cases previous with
  | none => exact ⟨received, by simpa [resume, resumeAt] using opened⟩
  | some closing =>
      rw [follows_ended (ended closing rfl)]
      exact ⟨received, by simpa [resume, resumeAt] using opened⟩

/-- The phase entered by a frame follows the previous close, counting the frame. -/
theorem enter_ready {preRoll : Nat} {previous : Option Closing} {timeline : Timeline}
    (ready : Ready preRoll previous timeline) (onset : Bool) :
    Ready preRoll previous ⟨timeline.received + 1, enter preRoll timeline onset⟩ := by
  obtain ⟨received, phase⟩ := timeline
  cases phase with
  | idle since =>
      cases onset with
      | false =>
          obtain ⟨resume, order, ended⟩ := ready
          exact ⟨resume, Nat.le_succ_of_le order, ended⟩
      | true => exact ready_onset ready .hangover
  | recording start opened => exact Follows.grow ready (Nat.le_succ _) .hangover

/-- Closing or continuing keeps the promise; a close yields a chunk that follows. -/
theorem leave_ready {preRoll received : Nat} {previous : Option Closing} {phase : Phase}
    (ready : Ready preRoll previous ⟨received, phase⟩) (speaking capped : Bool) :
    match (leave received speaking capped phase).2 with
    | none => Ready preRoll previous (leave received speaking capped phase).1
    | some closing => Follows preRoll previous closing ∧ closing.stop = received ∧
        Ready preRoll (some closing) (leave received speaking capped phase).1 := by
  cases phase with
  | idle since => exact ready
  | recording start opened =>
      cases speaking with
      | false =>
          refine ⟨ready, rfl, rfl, Nat.le_refl _, ?_⟩
          intro closing same
          cases same
          simp
      | true =>
          cases capped with
          | false => exact ready
          | true =>
              have next : Follows preRoll (some ⟨start, received, opened, .maxLength⟩)
                  ⟨received, received, none, .hangover⟩ :=
                (follows_maxLength rfl).mpr ⟨rfl, rfl, Nat.le_refl _⟩
              exact ⟨Follows.grow ready (Nat.le_refl _) .maxLength, rfl, next⟩

theorem received_leave (received : Nat) (speaking capped : Bool) (phase : Phase) :
    (leave received speaking capped phase).1.received = received := by
  cases phase <;> cases speaking <;> cases capped <;> rfl

/-- One step: an emitted chunk follows the previous one and stops at the present. -/
theorem step_ready {preRoll : Nat} {previous : Option Closing} {timeline : Timeline}
    (ready : Ready preRoll previous timeline) (move : Move) :
    match (step preRoll timeline move).2 with
    | none => Ready preRoll previous (step preRoll timeline move).1
    | some closing => Follows preRoll previous closing ∧
        closing.stop = (step preRoll timeline move).1.received ∧
        Ready preRoll (some closing) (step preRoll timeline move).1 := by
  cases move with
  | frame onset speaking capped =>
      have left := leave_ready (enter_ready ready onset) speaking capped
      simp only [step, received_leave]
      exact left
  | flush =>
      obtain ⟨received, phase⟩ := timeline
      cases phase with
      | idle since => exact ready
      | recording start opened =>
          refine ⟨Follows.grow ready (Nat.le_refl _) .streamEnd, rfl, rfl, Nat.le_refl _, ?_⟩
          intro closing same
          cases same
          simp

/-- The onset of the chunk being recorded, if an onset opened it. -/
def Phase.onset? : Phase → Option Nat
  | .idle _ => none
  | .recording _ onset => onset

/-- A chunk's onset is the present frame, declared while idle, or is carried over. -/
theorem enter_onset {preRoll position : Nat} {timeline : Timeline} {onset : Bool}
    (opened : Phase.onset? (enter preRoll timeline onset) = some position) :
    Phase.onset? timeline.phase = some position ∨
      (onset = true ∧ position = timeline.received ∧ ∃ since, timeline.phase = .idle since) := by
  obtain ⟨received, phase⟩ := timeline
  cases phase with
  | idle since =>
      cases onset with
      | false => cases opened
      | true => exact Or.inr ⟨rfl, (Option.some.inj opened).symm, since, rfl⟩
  | recording start onset => exact Or.inl opened

/-- Leaving a phase remembers no other onset than the phase did. -/
theorem leave_onset {received position : Nat} {speaking capped : Bool} {phase : Phase}
    (opened : Phase.onset? (leave received speaking capped phase).1.phase = some position) :
    Phase.onset? phase = some position := by
  cases phase with
  | idle since => exact opened
  | recording start onset =>
      cases speaking with
      | false => cases opened
      | true =>
          cases capped with
          | false => exact opened
          | true => cases opened

/-- The chunks of a run, in order. -/
def closings (preRoll : Nat) (timeline : Timeline) (moves : List Move) : List Closing :=
  (Machine.outputs (step preRoll) timeline moves).filterMap id

/-- Run lemma: every chunk of a run follows the chunk before it. -/
theorem closings_chained {preRoll : Nat} {previous : Option Closing} {timeline : Timeline}
    (ready : Ready preRoll previous timeline) (moves : List Move) :
    Chained preRoll previous (closings preRoll timeline moves) := by
  induction moves generalizing previous timeline with
  | nil => exact .nil previous
  | cons move rest ih =>
      have stepped := step_ready ready move
      unfold closings
      rw [Machine.outputs_cons]
      cases emitted : (step preRoll timeline move).2 with
      | none =>
          rw [emitted] at stepped
          exact ih stepped
      | some closing =>
          rw [emitted] at stepped
          exact .cons stepped.1 (ih stepped.2.2)

end Timeline

end VoiceHotPath
