import Mathlib.Data.List.Basic

/-!
# Segmentation of a sequence into intervals

Intervals alternate with silence: an interval begins at the first position from
the end of the previous one that satisfies `begins`, and ends at the first later
one that satisfies `ends`.  The intervals a boolean signal draws are this
segmentation when the signal rises and falls at such positions.
-/

namespace Segments

/-- The first position from `start` on with a property. -/
structure IsFirst (p : Nat → Prop) (start i : Nat) : Prop where
  start_le : start ≤ i
  holds : p i
  least : ∀ k, start ≤ k → k < i → ¬ p k

/-- Completed intervals, each from its first position to its last, and one still open. -/
structure Intervals where
  closed : List (Nat × Nat) := []
  current : Option Nat := none
  deriving DecidableEq, Repr

/-- The position after the last completed interval. -/
def resume (closed : List (Nat × Nat)) : Nat :=
  (closed.getLast?.map fun interval => interval.2 + 1).getD 0

/-- Where the last completed interval began. -/
def previous (closed : List (Nat × Nat)) : Option Nat :=
  closed.getLast?.map fun interval => interval.1

@[simp] theorem resume_snoc (closed : List (Nat × Nat)) (i j : Nat) :
    resume (closed ++ [(i, j)]) = j + 1 := by
  simp [resume]

@[simp] theorem previous_snoc (closed : List (Nat × Nat)) (i j : Nat) :
    previous (closed ++ [(i, j)]) = some i := by
  simp [previous]

/-- Where the latest interval began, completed or not. -/
def Intervals.latest (intervals : Intervals) : Option Nat :=
  intervals.current.or (previous intervals.closed)

/-- An interval that began at `i` contains `j` and goes on after it. -/
def Intervals.GoesOn (intervals : Intervals) (i j : Nat) : Prop :=
  i ≤ j ∧ (intervals.current = some i ∨ ∃ last, (i, last) ∈ intervals.closed ∧ j < last)

/-- An interval begins at the position. -/
def Intervals.BeginsAt (intervals : Intervals) (i : Nat) : Prop :=
  intervals.current = some i ∨ ∃ last, (i, last) ∈ intervals.closed

/-- An interval ends at the position. -/
def Intervals.EndsAt (intervals : Intervals) (j : Nat) : Prop :=
  ∃ first, (first, j) ∈ intervals.closed

/-! ## The declarative segmentation -/

section

variable (begins : Option Nat → Nat → Prop) (ends : Nat → Nat → Prop)

/-- Each interval begins and ends at the first positions that allow it. -/
inductive Alternating : List (Nat × Nat) → Prop where
  | nil : Alternating []
  | snoc {closed : List (Nat × Nat)} {i j : Nat} : Alternating closed →
      IsFirst (begins (previous closed)) (resume closed) i → IsFirst (ends i) (i + 1) j →
        Alternating (closed ++ [(i, j)])

/-- The segmentation of the positions below `n`. -/
structure Segmentation (n : Nat) (intervals : Intervals) : Prop where
  closed : Alternating begins ends intervals.closed
  resume_le : resume intervals.closed ≤ n
  silent : intervals.current = none → ∀ k, resume intervals.closed ≤ k → k < n →
    ¬ begins (previous intervals.closed) k
  opened : ∀ i, intervals.current = some i → i < n ∧
    IsFirst (begins (previous intervals.closed)) (resume intervals.closed) i ∧
      ∀ k, i < k → k < n → ¬ ends i k

end

section

variable {begins : Option Nat → Nat → Prop} {ends : Nat → Nat → Prop}

theorem segmentation_zero : Segmentation begins ends 0 {} :=
  ⟨.nil, Nat.le_refl 0, (fun _ _ _ absent => by cases absent), fun _ absent => by cases absent⟩

/-- Silence goes on past a position at which nothing begins. -/
theorem Segmentation.stay_silent {n : Nat} {closed : List (Nat × Nat)}
    (segmentation : Segmentation begins ends n ⟨closed, none⟩)
    (fails : ¬ begins (previous closed) n) : Segmentation begins ends (n + 1) ⟨closed, none⟩ := by
  refine ⟨segmentation.closed, Nat.le_succ_of_le segmentation.resume_le, ?_,
    fun _ absent => by cases absent⟩
  intro _ k after before
  rcases Nat.lt_succ_iff_lt_or_eq.mp before with earlier | rfl
  · exact segmentation.silent rfl k after earlier
  · exact fails

/-- An interval opens at the first position at which one may begin. -/
theorem Segmentation.begin {n : Nat} {closed : List (Nat × Nat)}
    (segmentation : Segmentation begins ends n ⟨closed, none⟩)
    (holds : begins (previous closed) n) : Segmentation begins ends (n + 1) ⟨closed, some n⟩ := by
  refine ⟨segmentation.closed, Nat.le_succ_of_le segmentation.resume_le,
    (fun absent => by cases absent), ?_⟩
  intro i same
  obtain rfl := Option.some.inj same
  refine ⟨Nat.lt_succ_self _, ⟨segmentation.resume_le, holds, segmentation.silent rfl⟩, ?_⟩
  intro k after before
  omega

/-- An interval goes on past a position at which it may not end. -/
theorem Segmentation.stay_open {n i : Nat} {closed : List (Nat × Nat)}
    (segmentation : Segmentation begins ends n ⟨closed, some i⟩) (fails : ¬ ends i n) :
    Segmentation begins ends (n + 1) ⟨closed, some i⟩ := by
  obtain ⟨inside, first, going⟩ := segmentation.opened i rfl
  refine ⟨segmentation.closed, Nat.le_succ_of_le segmentation.resume_le,
    (fun absent => by cases absent), ?_⟩
  intro i' same
  obtain rfl := Option.some.inj same
  refine ⟨Nat.lt_succ_of_lt inside, first, fun k after before => ?_⟩
  rcases Nat.lt_succ_iff_lt_or_eq.mp before with earlier | rfl
  · exact going k after earlier
  · exact fails

/-- An open interval ends at the first position at which it may. -/
theorem Segmentation.close {n i : Nat} {closed : List (Nat × Nat)}
    (segmentation : Segmentation begins ends n ⟨closed, some i⟩) (holds : ends i n) :
    Segmentation begins ends (n + 1) ⟨closed ++ [(i, n)], none⟩ := by
  obtain ⟨inside, first, going⟩ := segmentation.opened i rfl
  refine ⟨.snoc segmentation.closed first ⟨inside, holds, going⟩, ?_, ?_,
    fun _ absent => by cases absent⟩
  · simp
  · intro _ k after before
    simp only [resume_snoc] at after
    omega

end

/-! ## The intervals of a boolean signal -/

/-- Position `n` begins an interval, ends one, or leaves things as they are. -/
def Intervals.advance (intervals : Intervals) (n : Nat) (high : Bool) : Intervals :=
  match intervals.current, high with
  | none, false => intervals
  | none, true => ⟨intervals.closed, some n⟩
  | some i, false => ⟨intervals.closed ++ [(i, n)], none⟩
  | some _, true => intervals

/-- Only a position that begins an interval changes the latest beginning. -/
theorem Intervals.latest_advance (intervals : Intervals) (n : Nat) (high : Bool) :
    (intervals.advance n high).latest =
      if intervals.current.isSome = false ∧ high = true then some n else intervals.latest := by
  obtain ⟨closed, current⟩ := intervals
  cases current <;> cases high <;> simp [advance, latest]

theorem Intervals.current_advance (intervals : Intervals) (n : Nat) :
    (intervals.advance n true).current = some (intervals.current.getD n) := by
  obtain ⟨closed, current⟩ := intervals
  cases current <;> rfl

/-- The intervals of a signal that is high or low after each number of positions. -/
def ofSignal (signal : Nat → Bool) : Nat → Intervals
  | 0 => {}
  | n + 1 => (ofSignal signal n).advance n (signal (n + 1))

section

variable {signal : Nat → Bool}

/-- An interval is open exactly while the signal is high. -/
theorem current_ofSignal (low : signal 0 = false) (n : Nat) :
    (ofSignal signal n).current.isSome = signal n := by
  induction n with
  | zero => exact low.symm
  | succ n ih =>
      cases current : (ofSignal signal n).current <;> cases next : signal (n + 1) <;>
        simp [ofSignal, Intervals.advance, current, next]

/-- The intervals of the first `n` positions lie among them. -/
theorem ofSignal_within (signal : Nat → Bool) (n : Nat) :
    (∀ i, (ofSignal signal n).current = some i → i < n) ∧
      ∀ i j, (i, j) ∈ (ofSignal signal n).closed → i < j ∧ j < n := by
  induction n with
  | zero => exact ⟨(fun _ absent => by cases absent), fun _ _ absent => by cases absent⟩
  | succ n ih =>
      obtain ⟨opened, ended⟩ := ih
      have earlier : ∀ i j, (i, j) ∈ (ofSignal signal n).closed → i < j ∧ j < n + 1 := by
        intro i j member
        exact ⟨(ended i j member).1, Nat.lt_succ_of_lt (ended i j member).2⟩
      cases current : (ofSignal signal n).current with
      | none =>
          cases next : signal (n + 1) with
          | false => simpa [ofSignal, Intervals.advance, current, next] using earlier
          | true => simpa [ofSignal, Intervals.advance, current, next] using earlier
      | some first =>
          have inside := opened first current
          cases next : signal (n + 1) with
          | false =>
              simp only [ofSignal, Intervals.advance, current, next]
              refine ⟨(fun _ absent => by cases absent), fun i j member => ?_⟩
              rcases List.mem_append.mp member with old | new
              · exact earlier i j old
              · obtain ⟨rfl, rfl⟩ := Prod.mk.inj (List.mem_singleton.mp new)
                exact ⟨inside, Nat.lt_succ_self _⟩
          | true =>
              simp only [ofSignal, Intervals.advance, current, next]
              refine ⟨fun i same => ?_, earlier⟩
              obtain rfl := Option.some.inj same
              exact Nat.lt_succ_of_lt inside

/-- Intervals end where the signal falls. -/
theorem endsAt_ofSignal (low : signal 0 = false) {n j : Nat} (inside : j < n) :
    (ofSignal signal n).EndsAt j ↔ signal j = true ∧ signal (j + 1) = false := by
  induction n with
  | zero => cases inside
  | succ n ih =>
      have within := (ofSignal_within signal n).2
      have high := current_ofSignal low n
      rcases Nat.lt_succ_iff_lt_or_eq.mp inside with before | rfl
      · rw [← ih before]
        cases current : (ofSignal signal n).current <;> cases next : signal (n + 1) <;>
          simp [ofSignal, Intervals.advance, current, next, Intervals.EndsAt, Nat.ne_of_lt before]
      · have fresh : ∀ first, (first, j) ∉ (ofSignal signal j).closed := fun first member =>
          Nat.lt_irrefl j (within first j member).2
        cases current : (ofSignal signal j).current <;> cases next : signal (j + 1) <;>
          simp [ofSignal, Intervals.advance, current, next, Intervals.EndsAt, fresh, ← high]

/-- Intervals begin where the signal rises. -/
theorem beginsAt_ofSignal (low : signal 0 = false) {n j : Nat} (inside : j < n) :
    (ofSignal signal n).BeginsAt j ↔ signal j = false ∧ signal (j + 1) = true := by
  induction n with
  | zero => cases inside
  | succ n ih =>
      obtain ⟨opened, ended⟩ := ofSignal_within signal n
      have high := current_ofSignal low n
      rcases Nat.lt_succ_iff_lt_or_eq.mp inside with before | rfl
      · rw [← ih before]
        have apart : n ≠ j := Nat.ne_of_gt before
        cases current : (ofSignal signal n).current <;> cases next : signal (n + 1) <;>
          simp [ofSignal, Intervals.advance, current, next, Intervals.BeginsAt, apart, or_comm,
            exists_or, @eq_comm Nat j]
      · have fresh : ∀ last, (j, last) ∉ (ofSignal signal j).closed := fun last member =>
          Nat.lt_asymm (ended j last member).1 (ended j last member).2
        cases current : (ofSignal signal j).current with
        | none =>
            cases next : signal (j + 1) <;>
              simp [ofSignal, Intervals.advance, current, next, Intervals.BeginsAt, fresh, ← high]
        | some first =>
            have apart : first ≠ j := Nat.ne_of_lt (opened first current)
            cases next : signal (j + 1) <;>
              simp [ofSignal, Intervals.advance, current, next, Intervals.BeginsAt, fresh, ← high,
                apart, apart.symm]

/-- The interval open after a position is the one that goes on there. -/
theorem goesOn_ofSignal {n j : Nat} (inside : j < n) (i : Nat) :
    (ofSignal signal n).GoesOn i j ↔ (ofSignal signal (j + 1)).current = some i := by
  induction n with
  | zero => cases inside
  | succ n ih =>
      obtain ⟨opened, ended⟩ := ofSignal_within signal n
      rcases Nat.lt_succ_iff_lt_or_eq.mp inside with before | rfl
      · rw [← ih before]
        cases current : (ofSignal signal n).current with
        | none =>
            cases next : signal (n + 1) with
            | false => simp [ofSignal, Intervals.advance, current, next, Intervals.GoesOn]
            | true =>
                simp only [ofSignal, Intervals.advance, current, next, Intervals.GoesOn]
                refine and_congr_right fun order => ?_
                have apart : n ≠ i := by omega
                simp [apart]
        | some first =>
            cases next : signal (n + 1) with
            | false =>
                simp only [ofSignal, Intervals.advance, current, next, Intervals.GoesOn]
                refine and_congr_right fun order => ?_
                simp only [List.mem_append, List.mem_singleton, Prod.mk.injEq, or_and_right,
                  exists_or]
                constructor
                · rintro (absent | old | ⟨last, ⟨rfl, -⟩, -⟩)
                  · cases absent
                  · exact Or.inr old
                  · exact Or.inl rfl
                · rintro (same | old)
                  · exact Or.inr (Or.inr ⟨n, ⟨(Option.some.inj same).symm, rfl⟩, before⟩)
                  · exact Or.inr (Or.inl old)
            | true => simp [ofSignal, Intervals.advance, current, next, Intervals.GoesOn]
      · have past : ∀ last, (i, last) ∈ (ofSignal signal (j + 1)).closed → last ≤ j :=
          fun last member => Nat.lt_succ_iff.mp ((ofSignal_within signal (j + 1)).2 i last member).2
        constructor
        · rintro ⟨-, current | ⟨last, member, later⟩⟩
          · exact current
          · exact absurd (past last member) (Nat.not_le.mpr later)
        · intro current
          exact ⟨Nat.lt_succ_iff.mp ((ofSignal_within signal (j + 1)).1 i current), Or.inl current⟩

/--
A signal that rises where an interval may begin and falls where it may end
draws the segmentation.
-/
theorem segmentation_ofSignal {begins : Option Nat → Nat → Prop} {ends : Nat → Nat → Prop}
    (low : signal 0 = false) (n : Nat)
    (rises : ∀ k < n, signal k = false →
      (signal (k + 1) = true ↔ begins (previous (ofSignal signal k).closed) k))
    (falls : ∀ k < n, ∀ i, (ofSignal signal k).current = some i → i < k →
      begins (previous (ofSignal signal k).closed) i → (signal (k + 1) = false ↔ ends i k)) :
    Segmentation begins ends n (ofSignal signal n) := by
  induction n with
  | zero => exact segmentation_zero
  | succ n ih =>
      have segmentation := ih (fun k before => rises k (Nat.lt_succ_of_lt before))
        (fun k before => falls k (Nat.lt_succ_of_lt before))
      have high := current_ofSignal low n
      have rise := rises n (Nat.lt_succ_self n)
      have fall := falls n (Nat.lt_succ_self n)
      simp only [ofSignal]
      generalize ofSignal signal n = intervals at segmentation high rise fall ⊢
      obtain ⟨closed, current⟩ := intervals
      cases current with
      | none =>
          have begun := rise high.symm
          cases next : signal (n + 1) with
          | false => exact segmentation.stay_silent fun holds => by simp [begun.mpr holds] at next
          | true => exact segmentation.begin (begun.mp next)
      | some i =>
          obtain ⟨inside, first, -⟩ := segmentation.opened i rfl
          have ended := fall i rfl inside first.holds
          cases next : signal (n + 1) with
          | false => exact segmentation.close (ended.mp next)
          | true => exact segmentation.stay_open fun holds => by simp [ended.mpr holds] at next

end

/-! ## There is only one segmentation -/

section

variable {begins : Option Nat → Nat → Prop} {ends : Nat → Nat → Prop}

/-- Whether an interval is open after position `n`, given the intervals before it. -/
def OpenAfter (begins : Option Nat → Nat → Prop) (ends : Nat → Nat → Prop) (n : Nat)
    (intervals : Intervals) : Prop :=
  match intervals.current with
  | none => begins (previous intervals.closed) n
  | some i => ¬ ends i n

/-- A segmentation of one more position advances a segmentation of the others. -/
theorem Segmentation.pred {n : Nat} {intervals : Intervals}
    (segmentation : Segmentation begins ends (n + 1) intervals) :
    ∃ before high, Segmentation begins ends n before ∧ intervals = before.advance n high ∧
      (high = true ↔ OpenAfter begins ends n before) := by
  obtain ⟨closed, current⟩ := intervals
  obtain ⟨alternating, resume_le, silent, opened⟩ := segmentation
  dsimp only at alternating resume_le silent opened
  cases current with
  | some i =>
      obtain ⟨inside, first, going⟩ := opened i rfl
      rcases Nat.lt_succ_iff_lt_or_eq.mp inside with before | rfl
      · refine ⟨⟨closed, some i⟩, true, ?_, rfl, ?_⟩
        · refine ⟨alternating, Nat.le_trans first.start_le (Nat.le_of_lt before),
            (fun absent => by cases absent), ?_⟩
          intro i' same
          obtain rfl := Option.some.inj same
          exact ⟨before, first, fun k after early => going k after (Nat.lt_succ_of_lt early)⟩
        · simpa [OpenAfter] using going n before (Nat.lt_succ_self n)
      · refine ⟨⟨closed, none⟩, true, ?_, rfl, by simpa [OpenAfter] using first.holds⟩
        exact ⟨alternating, first.start_le, (fun _ => first.least), fun _ absent => by cases absent⟩
  | none =>
      have quiet := silent rfl
      rcases Nat.lt_succ_iff_lt_or_eq.mp (Nat.lt_succ_of_le resume_le) with before | last
      · refine ⟨⟨closed, none⟩, false, ?_, rfl, ?_⟩
        · refine ⟨alternating, Nat.lt_succ_iff.mp before, (fun _ k after early =>
            quiet k after (Nat.lt_succ_of_lt early)), fun _ absent => by cases absent⟩
        · simpa [OpenAfter] using quiet n (Nat.lt_succ_iff.mp before) (Nat.lt_succ_self n)
      · cases alternating with
        | nil => cases last
        | @snoc closed i j alternating first final =>
            obtain rfl : j = n := by simpa using last
            refine ⟨⟨closed, some i⟩, false, ?_, rfl, by simpa [OpenAfter] using final.holds⟩
            refine ⟨alternating, Nat.le_trans first.start_le ?_,
              (fun absent => by cases absent), ?_⟩
            · exact Nat.le_of_succ_le final.start_le
            · intro i' same
              obtain rfl := Option.some.inj same
              exact ⟨final.start_le, first, final.least⟩

/-- Two segmentations of the same positions are equal. -/
theorem Segmentation.unique {n : Nat} {first second : Intervals}
    (one : Segmentation begins ends n first) (other : Segmentation begins ends n second) :
    first = second := by
  induction n generalizing first second with
  | zero =>
      have only : ∀ intervals, Segmentation begins ends 0 intervals → intervals = {} := by
        rintro ⟨closed, current⟩ ⟨alternating, resume_le, -, opened⟩
        cases current with
        | some i => exact absurd (opened i rfl).1 (Nat.not_lt_zero i)
        | none =>
            cases alternating with
            | nil => rfl
            | snoc => simp at resume_le
      rw [only first one, only second other]
  | succ n ih =>
      obtain ⟨before, high, previous, rfl, opens⟩ := one.pred
      obtain ⟨before', high', previous', rfl, opens'⟩ := other.pred
      obtain rfl := ih previous previous'
      obtain rfl : high = high' := Bool.eq_iff_iff.mpr (opens.trans opens'.symm)
      rfl

end

end Segments
