import Mathlib.Algebra.Order.Ring.Int
import Mathlib.Data.Nat.Count
import Mathlib.Tactic.Ring
import VoiceHotPath.Lib.Hysteresis
import VoiceHotPath.Vad.Hangover
import VoiceHotPath.Vad.Segmentation

/-!
# The ground truth of the hangover sweep

`sweep_hangover.sh` counts the chunks closed by the hangover and divides by the
number of utterances whose endpoint falls into the run, which it computes from
the schedule of the producer.  A hangover longer than the pauses between words
finds exactly those; a shorter one finds more.
-/

namespace VoiceHotPath

/-- The signal options of `vhp_producer`, in milliseconds. -/
structure Utterances where
  frameMs : Nat
  speechMs : Nat
  gapMs : Nat
  wordGapMs : Nat
  wordEveryMs : Nat
  deriving DecidableEq, Repr

namespace Utterances

def cycleMs (utterances : Utterances) : Nat :=
  utterances.speechMs + utterances.gapMs

/-- Whether the only session speaks in a frame, or is silent. -/
def speech (utterances : Utterances) (seq : Nat) : Bool :=
  let phaseMs := seq * utterances.frameMs %
    (if 0 < utterances.cycleMs then utterances.cycleMs else 1)
  if phaseMs < utterances.speechMs ∧ 0 < utterances.wordGapMs ∧ 0 < utterances.wordEveryMs then
    phaseMs % utterances.wordEveryMs < utterances.wordEveryMs - utterances.wordGapMs
  else phaseMs < utterances.speechMs

/-- `expected_for_hangover`. -/
def expectedForHangover (utterances : Utterances) (runMs hangoverMs : Nat) : Nat :=
  let last : Int := (runMs : Int) - utterances.speechMs - hangoverMs
  if last < 0 then 0 else (last / utterances.cycleMs + 1).toNat

/--
The options are whole frames: an utterance is `speech` frames, ending inside a
word, and a gap of `gap`; a word and the pause after it are `every` frames, the
pause is `pause` of them.
-/
structure Framed (utterances : Utterances) (speech gap pause every : Nat) : Prop where
  some : 0 < utterances.frameMs
  speech_eq : utterances.speechMs = speech * utterances.frameMs
  gap_eq : utterances.gapMs = gap * utterances.frameMs
  pause_eq : utterances.wordGapMs = pause * utterances.frameMs
  every_eq : utterances.wordEveryMs = every * utterances.frameMs
  paused : 0 < pause
  worded : 0 < speech % every
  ends : speech % every + pause ≤ every

variable {utterances : Utterances} {speech gap pause every : Nat}

theorem Framed.cycleMs_eq (framed : utterances.Framed speech gap pause every) :
    utterances.cycleMs = (speech + gap) * utterances.frameMs := by
  rw [cycleMs, framed.speech_eq, framed.gap_eq, Nat.add_mul]

theorem Framed.speech_pos (framed : utterances.Framed speech gap pause every) : 0 < speech :=
  Nat.pos_of_ne_zero fun none => by
    have worded := framed.worded
    rw [none, Nat.zero_mod] at worded
    exact absurd worded (Nat.lt_irrefl 0)

theorem Framed.pause_lt (framed : utterances.Framed speech gap pause every) : pause < every := by
  have worded := framed.worded
  have ends := framed.ends
  omega

/-- In whole frames: speech at the beginning of a cycle, but for the end of each word. -/
theorem Framed.speech_iff (framed : utterances.Framed speech gap pause every) (seq : Nat) :
    utterances.speech seq = true ↔
      seq % (speech + gap) < speech ∧ seq % (speech + gap) % every + pause < every := by
  have some := framed.some
  have cycle : 0 < utterances.cycleMs := by
    rw [framed.cycleMs_eq]
    exact Nat.mul_pos (Nat.lt_of_lt_of_le framed.speech_pos (Nat.le_add_right _ _)) some
  have words : 0 < utterances.wordGapMs ∧ 0 < utterances.wordEveryMs := by
    rw [framed.pause_eq, framed.every_eq]
    exact ⟨Nat.mul_pos framed.paused some,
      Nat.mul_pos (Nat.lt_of_le_of_lt (Nat.zero_le _) framed.pause_lt) some⟩
  have phase : seq * utterances.frameMs % utterances.cycleMs =
      seq % (speech + gap) * utterances.frameMs := by
    rw [framed.cycleMs_eq, Nat.mul_mod_mul_right]
  have word : seq % (speech + gap) * utterances.frameMs % utterances.wordEveryMs =
      seq % (speech + gap) % every * utterances.frameMs := by
    rw [framed.every_eq, Nat.mul_mod_mul_right]
  have within : ∀ p, p * utterances.frameMs < utterances.speechMs ↔ p < speech := by
    intro p
    rw [framed.speech_eq, Nat.mul_lt_mul_right some]
  have before : ∀ p, p * utterances.frameMs < utterances.wordEveryMs - utterances.wordGapMs ↔
      p + pause < every := by
    intro p
    rw [framed.every_eq, framed.pause_eq, ← Nat.mul_sub_right_distrib, Nat.mul_lt_mul_right some]
    omega
  unfold Utterances.speech
  rw [if_pos cycle]
  dsimp only
  rw [phase]
  split
  · rename_i inside
    rw [word, decide_eq_true_eq, before]
    exact ⟨fun spoken => ⟨(within _).mp inside.1, spoken⟩, And.right⟩
  · rename_i outside
    have silent : ¬ seq % (speech + gap) * utterances.frameMs < utterances.speechMs :=
      fun inside => outside ⟨inside, words⟩
    rw [decide_eq_true_eq]
    exact ⟨fun inside => absurd inside silent,
      fun spoken => absurd ((within _).mpr spoken.1) silent⟩

/-! ## Bursts and pauses of the schedule -/

/-- A position is followed in its cycle by the next, or by the beginning of the next cycle. -/
theorem succ_mod (i : Nat) {n : Nat} (next : i % n + 1 < n) : (i + 1) % n = i % n + 1 := by
  rw [Nat.add_mod, Nat.mod_eq_of_lt (Nat.lt_of_le_of_lt (Nat.le_add_left 1 _) next),
    Nat.mod_eq_of_lt next]

/-- Going back inside a cycle. -/
theorem mod_of_add {k m n : Nat} (inside : m ≤ (k + m) % n) : k % n = (k + m) % n - m := by
  rcases Nat.eq_zero_or_pos n with rfl | positive
  · simp
  · have whole := Nat.div_add_mod (k + m) n
    have small := Nat.mod_lt (k + m) positive
    have split : k = (k + m) % n - m + n * ((k + m) / n) := by omega
    rw [split, Nat.add_mul_mod_self_left, ← split]
    exact Nat.mod_eq_of_lt (by omega)

/-- Where the schedule falls silent, a word ends or the utterance does. -/
theorem Framed.burst_ends (framed : utterances.Framed speech gap pause every) (parted : 0 < gap)
    {i : Nat} (last : utterances.speech i = true) (quiet : utterances.speech (i + 1) = false) :
    i % (speech + gap) % every + 1 + pause = every ∨ i % (speech + gap) + 1 = speech := by
  obtain ⟨inside, word⟩ := (framed.speech_iff i).mp last
  have next : (i + 1) % (speech + gap) = i % (speech + gap) + 1 := succ_mod i (by omega)
  have silent : ¬ ((i + 1) % (speech + gap) < speech ∧
      (i + 1) % (speech + gap) % every + pause < every) := by
    rw [← framed.speech_iff, quiet]
    decide
  rw [next] at silent
  by_cases final : i % (speech + gap) + 1 = speech
  · exact .inr final
  · left
    have paused := framed.paused
    have inner : (i % (speech + gap) + 1) % every = i % (speech + gap) % every + 1 :=
      succ_mod _ (by omega)
    rw [inner] at silent
    omega

/-- The frames of a word before one of its frames are spoken as well. -/
theorem Framed.le_run (framed : utterances.Framed speech gap pause every) {i : Nat}
    (spoken : utterances.speech i = true) :
    i % (speech + gap) % every + 1 ≤ Hysteresis.run utterances.speech (i + 1) := by
  obtain ⟨inside, word⟩ := (framed.speech_iff i).mp spoken
  have below := Nat.mod_le (i % (speech + gap)) every
  have within := Nat.mod_le i (speech + gap)
  refine Hysteresis.le_run_iff.mpr ⟨by omega, fun k before beyond => ?_⟩
  obtain ⟨m, rfl⟩ : ∃ m, i = k + m := ⟨i - k, by omega⟩
  have outer : k % (speech + gap) = (k + m) % (speech + gap) - m := mod_of_add (by omega)
  have inner : ((k + m) % (speech + gap) - m) % every =
      (k + m) % (speech + gap) % every - m := by
    obtain ⟨r, same⟩ : ∃ r, (k + m) % (speech + gap) = r + m :=
      ⟨(k + m) % (speech + gap) - m, by omega⟩
    rw [same] at below beyond ⊢
    rw [Nat.add_sub_cancel]
    exact mod_of_add (by omega)
  rw [framed.speech_iff, outer, inner]
  omega

/-- Every word is long enough to be an onset. -/
theorem Framed.solid (framed : utterances.Framed speech gap pause every) (parted : 0 < gap)
    {onset : Nat} (words : onset + pause ≤ every) (last : onset ≤ speech % every) (n : Nat) :
    Hysteresis.Solid utterances.speech onset n := by
  intro i _ spoken quiet
  apply Nat.le_trans _ (framed.le_run spoken)
  rcases framed.burst_ends parted spoken quiet with word | utterance
  · omega
  · obtain ⟨-, inside⟩ := (framed.speech_iff i).mp spoken
    have paused := framed.paused
    have inner : (i % (speech + gap) + 1) % every = i % (speech + gap) % every + 1 :=
      succ_mod _ (by omega)
    rw [utterance] at inner
    omega

/-- The endpoint of an utterance: the hangover after its last frame. -/
def Endpoint (speech gap fall j : Nat) : Prop :=
  fall ≤ j ∧ (j - fall) % (speech + gap) + 1 = speech

instance (speech gap fall : Nat) : DecidablePred (Endpoint speech gap fall) :=
  fun _ => inferInstanceAs (Decidable (_ ∧ _))

/-- A hangover that fits into the gap runs out after every utterance. -/
theorem Framed.lapses_of_endpoint (framed : utterances.Framed speech gap pause every)
    {fall j : Nat} (fits : fall ≤ gap) (endpoint : Endpoint speech gap fall j) :
    Hysteresis.Lapses utterances.speech fall j := by
  obtain ⟨inside, final⟩ := endpoint
  have worded := framed.worded
  have ends := framed.ends
  have positive := framed.speech_pos
  refine ⟨inside, (framed.speech_iff _).mpr ⟨by omega, ?_⟩, fun k after below => ?_⟩
  · have whole : ((j - fall) % (speech + gap) + 1) % every = speech % every :=
      congrArg (· % every) final
    have back : (j - fall) % (speech + gap) % every =
        ((j - fall) % (speech + gap) + 1) % every - 1 := mod_of_add (by rw [whole]; exact worded)
    omega
  · obtain ⟨m, rfl⟩ : ∃ m, k = j - fall + m := ⟨k - (j - fall), by omega⟩
    have ahead : (j - fall + m) % (speech + gap) = (j - fall) % (speech + gap) + m := by
      rw [Nat.add_mod, Nat.mod_eq_of_lt (show m < speech + gap by omega)]
      exact Nat.mod_eq_of_lt (by omega)
    rw [Bool.eq_false_iff]
    intro spoken
    have contrary := ((framed.speech_iff _).mp spoken).1
    omega

/-- A hangover longer than the pauses between words runs out nowhere else. -/
theorem Framed.endpoint_of_lapses (framed : utterances.Framed speech gap pause every)
    (parted : 0 < gap) {fall j : Nat} (longer : pause < fall)
    (lapses : Hysteresis.Lapses utterances.speech fall j) : Endpoint speech gap fall j := by
  obtain ⟨inside, last, quiet⟩ := lapses
  refine ⟨inside, ?_⟩
  rcases framed.burst_ends parted last (quiet _ (Nat.lt_succ_self _) (by omega)) with word | final
  · by_contra other
    have spoken := ((framed.speech_iff _).mp last).1
    have worded := framed.worded
    have ends := framed.ends
    -- the next word would begin before the hangover has run out
    generalize phase : (j - fall) % (speech + gap) = p at word spoken other
    by_cases more : p + (pause + 1) < speech
    · have ahead : (j - fall + (pause + 1)) % (speech + gap) = p + (pause + 1) := by
        rw [Nat.add_mod, phase, Nat.mod_eq_of_lt (show pause + 1 < speech + gap by omega)]
        exact Nat.mod_eq_of_lt (by omega)
      have whole : (p + (pause + 1)) % every = 0 := by
        have split := Nat.div_add_mod p every
        have turn : p + (pause + 1) = every * (p / every) + every := by omega
        rw [turn, Nat.add_mod_right, Nat.mul_mod_right]
      have again : utterances.speech (j - fall + (pause + 1)) = true := by
        rw [framed.speech_iff, ahead, whole]
        exact ⟨more, by omega⟩
      rw [quiet _ (by omega) (by omega)] at again
      cases again
    · obtain ⟨m, last⟩ : ∃ m, speech = p + 1 + m := ⟨speech - (p + 1), by omega⟩
      have split := Nat.div_add_mod p every
      have turn : speech = every * (p / every) + (p % every + 1 + m) := by omega
      rw [turn, Nat.mul_add_mod] at worded ends
      by_cases full : m = pause
      · rw [full, word, Nat.mod_self] at worded
        cases worded
      · rw [Nat.mod_eq_of_lt (by omega)] at ends
        omega
  · exact final

/-- A hangover no longer than the pauses between words cuts the first utterance after a word. -/
theorem Framed.false_cut (framed : utterances.Framed speech gap pause every) {fall : Nat}
    (falling : 0 < fall) (shorter : fall ≤ pause) (words : every ≤ speech) :
    Hysteresis.Lapses utterances.speech fall (every - pause - 1 + fall) ∧
      ¬ Endpoint speech gap fall (every - pause - 1 + fall) := by
  have worded := framed.worded
  have ends := framed.ends
  have longer : every < speech := by
    apply Nat.lt_of_le_of_ne words
    intro same
    rw [same, Nat.mod_self] at worded
    cases worded
  have early : ∀ k, k < every → k % (speech + gap) = k ∧ k % (speech + gap) % every = k := by
    intro k inside
    have outer : k % (speech + gap) = k := Nat.mod_eq_of_lt (by omega)
    exact ⟨outer, by rw [outer, Nat.mod_eq_of_lt inside]⟩
  constructor
  · refine ⟨Nat.le_add_left _ _, ?_, fun k after below => ?_⟩
    · rw [Nat.add_sub_cancel, framed.speech_iff]
      obtain ⟨outer, inner⟩ := early (every - pause - 1) (by omega)
      omega
    · rw [Bool.eq_false_iff]
      intro spoken
      obtain ⟨outer, inner⟩ := early k (by omega)
      have contrary := ((framed.speech_iff k).mp spoken).2
      omega
  · rintro ⟨-, final⟩
    rw [Nat.add_sub_cancel, (early (every - pause - 1) (by omega)).1] at final
    omega

/-! ## Counting -/

theorem count_congr {p q : Nat → Prop} [DecidablePred p] [DecidablePred q] {n : Nat}
    (same : ∀ k, k < n → (p k ↔ q k)) : Nat.count p n = Nat.count q n :=
  Nat.le_antisymm (Nat.count_mono_left fun k inside => (same k inside).mp)
    (Nat.count_mono_left fun k inside => (same k inside).mpr)

theorem count_lt_count {p q : Nat → Prop} [DecidablePred p] [DecidablePred q] {n k : Nat}
    (implies : ∀ k, p k → q k) (inside : k < n) (more : q k) (fails : ¬ p k) :
    Nat.count p n < Nat.count q n := by
  obtain ⟨m, rfl⟩ : ∃ m, n = k + 1 + m := ⟨n - (k + 1), by omega⟩
  have upto : Nat.count p (k + 1) < Nat.count q (k + 1) := by
    rw [Nat.count_succ, Nat.count_succ, if_neg fails, if_pos more]
    exact Nat.lt_succ_of_le (Nat.count_mono_left fun j _ => implies j)
  have beyond : Nat.count (fun j => p (k + 1 + j)) m ≤ Nat.count (fun j => q (k + 1 + j)) m :=
    Nat.count_mono_left fun j _ => implies _
  rw [Nat.count_add p (k + 1), Nat.count_add q (k + 1)]
  exact Nat.add_lt_add_of_lt_of_le upto beyond

/-- The first endpoint comes after an utterance and the hangover, the others a cycle apart. -/
theorem count_endpoint {speech gap fall : Nat} (positive : 0 < speech) (n : Nat) :
    Nat.count (Endpoint speech gap fall) n =
      if n < speech + fall then 0 else (n - (speech + fall)) / (speech + gap) + 1 := by
  induction n with
  | zero => rw [if_pos (by omega), Nat.count_zero]
  | succ n ih =>
      rw [Nat.count_succ, ih]
      rcases Nat.lt_trichotomy (n + 1) (speech + fall) with early | first | later
      · have before : ¬ Endpoint speech gap fall n := by
          rintro ⟨inside, final⟩
          rw [Nat.mod_eq_of_lt (by omega)] at final
          omega
        rw [if_pos (Nat.lt_of_succ_lt early), if_neg before, if_pos early]
      · have here : Endpoint speech gap fall n := by
          refine ⟨by omega, ?_⟩
          rw [Nat.mod_eq_of_lt (by omega)]
          omega
        rw [if_pos (Nat.lt_of_succ_le (Nat.le_of_eq first)), if_pos here,
          if_neg (Nat.not_lt_of_le (Nat.le_of_eq first.symm)), first, Nat.sub_self, Nat.zero_div]
      · obtain ⟨m, rfl⟩ : ∃ m, n = speech + fall + m := ⟨n - (speech + fall), by omega⟩
        have past : speech + fall + m + 1 - (speech + fall) = m + 1 := by omega
        have turn : speech + fall + m - fall = m + 1 + (speech - 1) := by omega
        have small : (speech - 1) % (speech + gap) = speech - 1 := Nat.mod_eq_of_lt (by omega)
        have again : Endpoint speech gap fall (speech + fall + m) ↔ speech + gap ∣ m + 1 := by
          rw [Endpoint, turn, Nat.dvd_iff_mod_eq_zero, Nat.add_mod, small]
          have below := Nat.mod_lt (m + 1) (show 0 < speech + gap by omega)
          constructor
          · rintro ⟨-, final⟩
            by_cases within : (m + 1) % (speech + gap) + (speech - 1) < speech + gap
            · rw [Nat.mod_eq_of_lt within] at final
              omega
            · rw [Nat.mod_eq_sub_mod (Nat.le_of_not_lt within),
                Nat.mod_eq_of_lt (by omega)] at final
              omega
          · intro whole
            rw [whole, Nat.zero_add, small]
            omega
        have reached : ¬ speech + fall + m < speech + fall := by omega
        rw [if_neg reached, if_neg (Nat.lt_asymm later), past, Nat.add_sub_cancel_left,
          Nat.succ_div]
        by_cases turns : speech + gap ∣ m + 1
        · rw [if_pos (again.mpr turns), if_pos turns]
        · rw [if_neg fun found => turns (again.mp found), if_neg turns]

/-- The endpoints inside a run are those the script computes. -/
theorem Framed.count_endpoints (framed : utterances.Framed speech gap pause every) (fall n : Nat) :
    Nat.count (Endpoint speech gap fall) n =
      utterances.expectedForHangover (n * utterances.frameMs) (fall * utterances.frameMs) := by
  have scale : (0 : Int) < utterances.frameMs := Int.natCast_pos.mpr framed.some
  have scaled : ((n * utterances.frameMs : Nat) : Int) - utterances.speechMs -
      ((fall * utterances.frameMs : Nat) : Int) =
      ((n : Int) - (speech + fall : Nat)) * utterances.frameMs := by
    rw [framed.speech_eq]
    push_cast
    ring
  rw [count_endpoint framed.speech_pos, expectedForHangover, scaled, framed.cycleMs_eq]
  by_cases early : n < speech + fall
  · rw [if_pos early, if_pos]
    exact mul_neg_of_neg_of_pos (by omega) scale
  · have late : ¬ ((n : Int) - (speech + fall : Nat)) * utterances.frameMs < 0 :=
      not_lt.mpr (mul_nonneg (by omega) (le_of_lt scale))
    have whole : (n : Int) - (speech + fall : Nat) = ((n - (speech + fall) : Nat) : Int) := by
      omega
    rw [if_neg early, if_neg late, Nat.cast_mul, Int.mul_ediv_mul_of_pos_left _ _ scale, whole,
      ← Int.natCast_ediv, Int.toNat_natCast_add_one]

end Utterances

namespace ChunkAssembler

/-- The trailing runs of the frames received are those of the schedule. -/
theorem trailing_eq_run {stream : Stream} {p : AudioFrame → Bool} {q : Nat → Bool}
    (same : ∀ j frame, stream.frames[j]? = some frame → p frame = q j) {n : Nat}
    (inside : n ≤ stream.length) :
    Run.trailing p (stream.frames.take n) = Hysteresis.run q n := by
  induction n with
  | zero => rfl
  | succ n ih =>
      obtain ⟨frame, nowNs, here⟩ := Stream.exists_getElem? inside
      have shown := same n frame (Stream.frames_getElem? here)
      rw [Stream.frames_take_succ here]
      cases holds : q n with
      | true =>
          rw [holds] at shown
          rw [Run.trailing_snoc_of_pos shown, Hysteresis.run_succ_of_pos holds,
            ih (Nat.le_of_succ_le inside)]
      | false =>
          rw [holds] at shown
          rw [Run.trailing_snoc_of_neg shown, Hysteresis.run_succ_of_neg holds]

section

variable [RationalSqrt]

/-- How many chunks the hangover closes over a stream. -/
def hangoverChunks (config : ChunkerConfig ℚ) (stream : Stream) : Nat :=
  (events config stream.calls).countP fun event =>
    event.map ChunkEvent.reason = some CloseReason.hangover

theorem hangoverChunks_eq (config : ChunkerConfig ℚ) (stream : Stream) :
    hangoverChunks config stream =
      Nat.count (fun j => reasonAt config stream j = some .hangover) stream.length := by
  have counted : ∀ events : List (Option ChunkEvent),
      events.countP (fun event => event.map ChunkEvent.reason = some CloseReason.hangover) =
        Nat.count (fun j => events[j]?.join.map ChunkEvent.reason = some CloseReason.hangover)
          events.length := by
    intro events
    induction events using List.reverseRecOn with
    | nil => rfl
    | append_singleton events last ih =>
        have here : (events ++ [last])[events.length]? = some last := List.getElem?_concat_length
        have before : ∀ j, j < events.length → (events ++ [last])[j]? = events[j]? :=
          fun j inside => List.getElem?_append_left inside
        have earlier : Nat.count (fun j => (events ++ [last])[j]?.join.map ChunkEvent.reason =
              some CloseReason.hangover) events.length =
            Nat.count (fun j => events[j]?.join.map ChunkEvent.reason =
              some CloseReason.hangover) events.length :=
          Utterances.count_congr fun j inside => by rw [before j inside]
        rw [List.countP_append, ih, List.length_append, List.length_singleton, Nat.count_succ, here,
          earlier, List.countP_singleton]
        simp
  have length : (events config stream.calls).length = stream.length := by
    rw [events, Machine.length_outputs, Stream.calls, List.length_map]
  rw [hangoverChunks, counted, length]
  rfl

variable {config : ChunkerConfig ℚ} {stream : Stream} {utterances : Utterances}

/-- A frame is loud exactly if the schedule has it spoken. -/
def Speaks (config : ChunkerConfig ℚ) (utterances : Utterances) (stream : Stream) : Prop :=
  ∀ j frame, stream.frames[j]? = some frame → config.loudFrame frame = utterances.speech j

instance (config : ChunkerConfig ℚ) (utterances : Utterances) (stream : Stream) :
    Decidable (Speaks config utterances stream) :=
  decidable_of_iff (∀ j : Fin stream.frames.length,
      config.loudFrame (stream.frames.get j) = utterances.speech j)
    ⟨fun every j _ here => by
        obtain ⟨inside, same⟩ := List.getElem?_eq_some_iff.mp here
        exact same ▸ every ⟨j, inside⟩,
      fun speaks j => speaks j _ (List.getElem?_eq_getElem j.isLt)⟩

/-- Without a cooldown the gate is the hysteresis of the schedule. -/
theorem speakingAfter_eq_on (lasting : 0 < config.gate.silenceFrames)
    (disabled : config.gate.cooldownMs ≤ 0) (short : stream.length < 2 ^ 32)
    (speaks : Speaks config utterances stream) {n : Nat} (inside : n ≤ stream.length) :
    speakingAfter config stream n =
      Hysteresis.on utterances.speech config.onsetRun config.gate.silenceFrames.toNat n := by
  induction n with
  | zero => rfl
  | succ n ih =>
      obtain ⟨frame, nowNs, here⟩ := Stream.exists_getElem? inside
      have counts := counts_take lasting stream n
      have before : (afterStream config (stream.take n)).gate.speaking =
          Hysteresis.on utterances.speech config.onsetRun config.gate.silenceFrames.toNat n :=
        ih (Nat.le_of_succ_le inside)
      have bounded := Run.trailing_le_length config.loudFrame (stream.frames.take n)
      rw [List.length_take] at bounded
      have going := counts.speaking_gated lasting frame nowNs
      have onset := counts.onset_gated (by omega) frame nowNs
      have loud := trailing_eq_run speaks inside
      have quiet : Run.trailing config.quietFrame (stream.frames.take (n + 1)) =
          Hysteresis.run (fun i => !utterances.speech i) (n + 1) :=
        trailing_eq_run (fun j frame there => congrArg not (speaks j frame there)) inside
      have rested : (afterStream config (stream.take n)).gate.cooling (nsToMs nowNs) = false := by
        apply SpeechThresholdGate.cooling_of_disabled
        rw [counts.cfg]
        exact not_lt.mpr disabled
      rw [← Stream.frames_take_succ here, quiet, ← speakingAfter_succ here, before] at going
      rw [← Stream.frames_take_succ here, loud, before] at onset
      rw [Bool.eq_iff_iff, going, onset, Hysteresis.on]
      cases Hysteresis.on utterances.speech config.onsetRun config.gate.silenceFrames.toNat n with
      | true => simp
      | false => simp [rested]

/-- The hangover closes a chunk exactly where it runs out in the schedule. -/
theorem reasonAt_hangover_iff {speech gap pause every : Nat}
    (framed : utterances.Framed speech gap pause every) (lasting : 0 < config.gate.silenceFrames)
    (disabled : config.gate.cooldownMs ≤ 0) (fits : config.gate.silenceFrames.toNat ≤ gap)
    (words : config.onsetRun + pause ≤ every) (last : config.onsetRun ≤ speech % every)
    (short : stream.length < 2 ^ 32) (speaks : Speaks config utterances stream) {j : Nat}
    (inside : j < stream.length) :
    reasonAt config stream j = some .hangover ↔
      Hysteresis.Lapses utterances.speech config.gate.silenceFrames.toNat j := by
  have falling : 0 < config.gate.silenceFrames.toNat := UInt32.lt_iff_toNat_lt.mp lasting
  have solid : Hysteresis.Solid utterances.speech config.onsetRun stream.length :=
    framed.solid (Nat.lt_of_lt_of_le falling fits) words last stream.length
  rw [reasonAt_hangover lasting inside,
    speakingAfter_eq_on lasting disabled short speaks (Nat.le_of_lt inside),
    speakingAfter_eq_on lasting disabled short speaks inside]
  exact Hysteresis.falls_iff (Nat.le_max_left _ _) falling solid inside

/--
The script's ground truth: the hangover closes as many chunks as there are
utterances whose endpoint falls into the run if it is longer than the pauses
between words, and never fewer; if it is not, and a word and its pause fit into
an utterance of a run that contains one, it closes more.
-/
theorem sweep_ground_truth (config : ChunkerConfig ℚ) (utterances : Utterances) (stream : Stream)
    {speech gap pause every : Nat} (framed : utterances.Framed speech gap pause every)
    (lasting : 1 ≤ config.gate.silenceFrames) (disabled : config.gate.cooldownMs ≤ 0)
    (fits : config.gate.silenceFrames.toNat ≤ gap) (words : config.onsetRun + pause ≤ every)
    (last : config.onsetRun ≤ speech % every) (short : stream.length < 2 ^ 32)
    (speaks : Speaks config utterances stream) :
    let runMs := stream.length * utterances.frameMs
    let hangoverMs := config.gate.silenceFrames.toNat * utterances.frameMs
    utterances.expectedForHangover runMs hangoverMs ≤ hangoverChunks config stream ∧
      (utterances.wordGapMs < hangoverMs →
        hangoverChunks config stream = utterances.expectedForHangover runMs hangoverMs) ∧
      (hangoverMs ≤ utterances.wordGapMs → utterances.wordEveryMs ≤ utterances.speechMs →
        utterances.speechMs ≤ runMs →
          utterances.expectedForHangover runMs hangoverMs < hangoverChunks config stream) := by
  intro runMs hangoverMs
  have present : 0 < config.gate.silenceFrames :=
    UInt32.lt_iff_toNat_lt.mpr (UInt32.le_iff_toNat_le.mp lasting)
  have falling : 0 < config.gate.silenceFrames.toNat := UInt32.lt_iff_toNat_lt.mp present
  have parted : 0 < gap := Nat.lt_of_lt_of_le falling fits
  have chunks : hangoverChunks config stream =
      Nat.count (Hysteresis.Lapses utterances.speech config.gate.silenceFrames.toNat)
        stream.length := by
    rw [hangoverChunks_eq]
    exact Utterances.count_congr fun j inside =>
      reasonAt_hangover_iff framed present disabled fits words last short speaks inside
  have expected := framed.count_endpoints config.gate.silenceFrames.toNat stream.length
  have found : ∀ j, Utterances.Endpoint speech gap config.gate.silenceFrames.toNat j →
      Hysteresis.Lapses utterances.speech config.gate.silenceFrames.toNat j :=
    fun j endpoint => framed.lapses_of_endpoint fits endpoint
  rw [chunks, ← expected]
  refine ⟨Nat.count_mono_left fun j _ => found j, fun longer => ?_, fun shorter worded ran => ?_⟩
  · rw [framed.pause_eq, Nat.mul_lt_mul_right framed.some] at longer
    exact Utterances.count_congr fun j _ =>
      ⟨framed.endpoint_of_lapses parted longer, found j⟩
  · rw [framed.pause_eq, Nat.mul_le_mul_right_iff framed.some] at shorter
    rw [framed.every_eq, framed.speech_eq, Nat.mul_le_mul_right_iff framed.some] at worded
    rw [framed.speech_eq, Nat.mul_le_mul_right_iff framed.some] at ran
    obtain ⟨lapses, other⟩ := framed.false_cut falling shorter worded
    have before := framed.pause_lt
    have inside : every - pause - 1 + config.gate.silenceFrames.toNat < stream.length := by omega
    exact Utterances.count_lt_count found inside lapses other

end

section

open Scenario

/-- Two words of an utterance, each followed by two silent frames. -/
def twoWords : Stream :=
  [(toneFrame 0, 0), (toneFrame 1, 20000000), (silentFrame 2, 40000000),
    (silentFrame 3, 60000000), (toneFrame 4, 80000000), (toneFrame 5, 100000000),
    (silentFrame 6, 120000000), (silentFrame 7, 140000000)]

def twoWordSchedule : Utterances :=
  { frameMs := 20, speechMs := 120, gapMs := 40, wordGapMs := 40, wordEveryMs := 80 }

theorem framed_twoWordSchedule : twoWordSchedule.Framed 6 2 2 4 :=
  ⟨by decide, by decide, by decide, by decide, by decide, by decide, by decide, by decide⟩

theorem sweep_ground_truth_twoWords :
    let hangoverMs := shortConfig.gate.silenceFrames.toNat * twoWordSchedule.frameMs
    hangoverMs ≤ twoWordSchedule.wordGapMs ∧
      twoWordSchedule.expectedForHangover 160 hangoverMs < hangoverChunks shortConfig twoWords :=
  ⟨by decide,
    (sweep_ground_truth shortConfig twoWordSchedule twoWords framed_twoWordSchedule (by decide)
      (by decide +kernel) (by decide) (by decide) (by decide) (by decide) (by decide +kernel)).2.2
      (by decide) (by decide) (by decide)⟩

end

end ChunkAssembler

end VoiceHotPath
