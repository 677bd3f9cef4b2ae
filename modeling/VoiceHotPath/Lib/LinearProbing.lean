import Mathlib.Data.Fintype.Card
import Mathlib.Data.Nat.Find
import Mathlib.Data.Nat.ModEq
import Mathlib.Logic.Function.Basic

/-!
# Linear probing with tombstones

An open-addressed table over `n` slots.  Every member sits in one slot, reached
from its home without crossing an empty slot; erasing a member leaves a
tombstone, so that no probe chain is cut.
-/

namespace LinearProbing

inductive Slot (α : Type*) where
  | empty
  | tombstone
  | full (member : α)
  deriving DecidableEq, Repr

/-- How a lookup ends: on a hit, or with a slot to insert at, if there is one. -/
inductive Outcome (α : Type*) where
  | found (member : α)
  | vacant (slot : Option ℕ)
  deriving DecidableEq, Repr

variable {α : Type*}

/-- A probe of `steps` slots from `home` crosses no empty slot. -/
def Crossed (n : ℕ) (slots : ℕ → Slot α) (home steps : ℕ) : Prop :=
  ∀ j < steps, slots ((home + j) % n) ≠ .empty

/-- The members of a table, each reachable from its home and stored once. -/
structure Linked (n : ℕ) (slots : ℕ → Slot α) (home : α → ℕ) (members : Finset α) : Prop where
  sound : ∀ p < n, ∀ a, slots p = .full a → a ∈ members
  placed : ∀ a ∈ members, ∃ k < n, slots ((home a + k) % n) = .full a ∧
    Crossed n slots (home a) k
  once : ∀ p < n, ∀ q < n, ∀ a, slots p = .full a → slots q = .full a → p = q

/-- Two different steps of one probe visit different slots. -/
theorem step_injective {n home j k : ℕ} (jInside : j < n) (kInside : k < n)
    (same : (home + j) % n = (home + k) % n) : j = k := by
  have congruent : j ≡ k [MOD n] := Nat.ModEq.add_left_cancel' home same
  rwa [Nat.ModEq, Nat.mod_eq_of_lt jInside, Nat.mod_eq_of_lt kInside] at congruent

/-- Every slot is visited by a full probe from any home. -/
theorem exists_step {n p : ℕ} (inside : p < n) (home : ℕ) :
    ∃ k < n, (home + k) % n = p := by
  have positive : 0 < n := Nat.lt_of_le_of_lt (Nat.zero_le p) inside
  have short : home % n < n := Nat.mod_lt home positive
  refine ⟨(p + (n - home % n)) % n, Nat.mod_lt _ positive, ?_⟩
  have whole : home + (p + (n - home % n)) = p + n * (home / n + 1) := by
    have parts := Nat.div_add_mod home n
    rw [Nat.mul_add, Nat.mul_one]
    omega
  rw [Nat.add_mod_mod, whole, Nat.add_mul_mod_self_left, Nat.mod_eq_of_lt inside]

section

variable {n : ℕ} {slots : ℕ → Slot α} {home : α → ℕ} {members : Finset α}

theorem Crossed.zero (home : ℕ) : Crossed n slots home 0 :=
  fun _ absent => by cases absent

theorem Crossed.succ {home steps : ℕ} (crossed : Crossed n slots home steps)
    (here : slots ((home + steps) % n) ≠ .empty) : Crossed n slots home (steps + 1) := by
  intro j before
  rcases Nat.lt_succ_iff_lt_or_eq.mp before with earlier | rfl
  · exact crossed j earlier
  · exact here

/-- Filling a slot, or leaving a tombstone in it, keeps what a probe crosses. -/
theorem Crossed.update {home steps p : ℕ} (crossed : Crossed n slots home steps)
    {slot : Slot α} (kept : slot ≠ .empty) :
    Crossed n (Function.update slots p slot) home steps := by
  intro j before
  by_cases here : (home + j) % n = p
  · rw [here, Function.update_self]
    exact kept
  · rw [Function.update_of_ne here]
    exact crossed j before

theorem linked_empty (n : ℕ) (home : α → ℕ) : Linked n (fun _ => .empty) home ∅ :=
  ⟨(fun _ _ _ absent => by cases absent), (fun _ absent => by cases absent),
    fun _ _ _ _ _ absent => by cases absent⟩

/-- Only the homes of members matter. -/
theorem Linked.congr_home {home' : α → ℕ} (linked : Linked n slots home members)
    (same : ∀ a ∈ members, home' a = home a) : Linked n slots home' members := by
  refine ⟨linked.sound, fun a member => ?_, linked.once⟩
  rw [same a member]
  exact linked.placed a member

/-- Only the slots of the table matter. -/
theorem Linked.congr_slots {slots' : ℕ → Slot α} (linked : Linked n slots home members)
    (same : ∀ p < n, slots' p = slots p) : Linked n slots' home members := by
  constructor
  · intro p inside a here
    exact linked.sound p inside a ((same p inside).symm.trans here)
  · intro a member
    obtain ⟨k, short, here, crossed⟩ := linked.placed a member
    have positive : 0 < n := Nat.lt_of_le_of_lt (Nat.zero_le k) short
    refine ⟨k, short, ?_, fun j before => ?_⟩
    · rw [same _ (Nat.mod_lt _ positive), here]
    · rw [same _ (Nat.mod_lt _ positive)]
      exact crossed j before
  · intro p pInside q qInside a here there
    rw [same p pInside] at here
    rw [same q qInside] at there
    exact linked.once p pInside q qInside a here there

/-- A new member may take any vacant slot its probe reaches. -/
theorem Linked.insert [DecidableEq α] (linked : Linked n slots home members) {a : α}
    (fresh : a ∉ members) {k : ℕ} (short : k < n) (crossed : Crossed n slots (home a) k)
    (vacant : ∀ b, slots ((home a + k) % n) ≠ .full b) :
    Linked n (Function.update slots ((home a + k) % n) (.full a)) home
      (insert a members) := by
  have positive : 0 < n := Nat.lt_of_le_of_lt (Nat.zero_le k) short
  have elsewhere : ∀ p b, Function.update slots ((home a + k) % n) (.full a) p = .full b →
      p = (home a + k) % n ∧ b = a ∨ p ≠ (home a + k) % n ∧ slots p = .full b := by
    intro p b here
    by_cases same : p = (home a + k) % n
    · subst same
      rw [Function.update_self] at here
      cases here
      exact Or.inl ⟨rfl, rfl⟩
    · rw [Function.update_of_ne same] at here
      exact Or.inr ⟨same, here⟩
  have absent : ∀ p < n, slots p ≠ .full a := fun p inside here =>
    fresh (linked.sound p inside a here)
  constructor
  · intro p inside b here
    rcases elsewhere p b here with ⟨-, rfl⟩ | ⟨-, old⟩
    · exact Finset.mem_insert_self _ _
    · exact Finset.mem_insert_of_mem (linked.sound p inside b old)
  · intro b member
    rcases Finset.mem_insert.mp member with rfl | old
    · refine ⟨k, short, Function.update_self _ _ _, crossed.update ?_⟩
      rintro ⟨⟩
    · obtain ⟨j, jShort, here, reached⟩ := linked.placed b old
      have apart : (home b + j) % n ≠ (home a + k) % n := by
        intro same
        rw [same] at here
        exact vacant b here
      refine ⟨j, jShort, ?_, reached.update ?_⟩
      · rw [Function.update_of_ne apart, here]
      · rintro ⟨⟩
  · intro p pInside q qInside b here there
    rcases elsewhere p b here with ⟨rfl, rfl⟩ | ⟨-, oldHere⟩
    · rcases elsewhere q b there with ⟨rfl, -⟩ | ⟨-, oldThere⟩
      · rfl
      · exact absurd oldThere (absent q qInside)
    · rcases elsewhere q b there with ⟨-, rfl⟩ | ⟨-, oldThere⟩
      · exact absurd oldHere (absent p pInside)
      · exact linked.once p pInside q qInside b oldHere oldThere

/-- Leaving a tombstone in a member's slot forgets that member only. -/
theorem Linked.erase [DecidableEq α] (linked : Linked n slots home members) {a : α} {p : ℕ}
    (inside : p < n) (here : slots p = .full a) :
    Linked n (Function.update slots p .tombstone) home (members.erase a) := by
  have elsewhere : ∀ q b, Function.update slots p .tombstone q = .full b →
      q ≠ p ∧ slots q = .full b := by
    intro q b there
    by_cases same : q = p
    · subst same
      rw [Function.update_self] at there
      cases there
    · rw [Function.update_of_ne same] at there
      exact ⟨same, there⟩
  constructor
  · intro q qInside b there
    obtain ⟨apart, old⟩ := elsewhere q b there
    refine Finset.mem_erase.mpr ⟨?_, linked.sound q qInside b old⟩
    rintro rfl
    exact apart (linked.once q qInside p inside b old here)
  · intro b member
    obtain ⟨different, old⟩ := Finset.mem_erase.mp member
    obtain ⟨k, short, there, crossed⟩ := linked.placed b old
    have apart : (home b + k) % n ≠ p := by
      rintro rfl
      rw [here] at there
      cases there
      exact different rfl
    refine ⟨k, short, ?_, crossed.update ?_⟩
    · rw [Function.update_of_ne apart, there]
    · rintro ⟨⟩
  · intro q qInside r rInside b first second
    exact linked.once q qInside r rInside b (elsewhere q b first).2 (elsewhere r b second).2

/-- With fewer members than slots, some slot is not full. -/
theorem Linked.exists_vacant (linked : Linked n slots home members) (few : members.card < n) :
    ∃ p < n, ∀ a, slots p ≠ .full a := by
  by_contra crowded
  push Not at crowded
  have filled : ∀ p : Fin n, ∃ a, slots p = .full a := fun p => crowded p p.isLt
  choose occupant full using filled
  have injective : Function.Injective occupant := by
    intro p q same
    have there := full q
    rw [← same] at there
    exact Fin.ext (linked.once p p.isLt q q.isLt (occupant p) (full p) there)
  have many : (Finset.univ : Finset (Fin n)).card ≤ members.card :=
    Finset.card_le_card_of_injOn occupant (fun p _ => linked.sound p p.isLt _ (full p))
      injective.injOn
  rw [Finset.card_univ, Fintype.card_fin] at many
  exact Nat.not_lt.mpr many few

end

/-! ## Lookup -/

/-- Probe for a hit, remembering the first tombstone as a slot to insert at. -/
def probe (next : ℕ → ℕ) (slots : ℕ → Slot α) (hit : α → Bool) :
    ℕ → ℕ → Option ℕ → Outcome α
  | 0, _, tomb => .vacant tomb
  | fuel + 1, slot, tomb =>
      match slots slot with
      | .empty => .vacant (some (tomb.getD slot))
      | .tombstone => probe next slots hit fuel (next slot) (tomb.or (some slot))
      | .full a =>
          if hit a then .found a else probe next slots hit fuel (next slot) tomb

/-- Probe for the first slot on which a test answers. -/
def scan {β : Type*} (next : ℕ → ℕ) (test : ℕ → Option β) : ℕ → ℕ → Option β
  | 0, _ => none
  | fuel + 1, slot => (test slot).or (scan next test fuel (next slot))

section

variable {n : ℕ} {next : ℕ → ℕ} {slots : ℕ → Slot α} {hit : α → Bool} {home : ℕ}

/-- No member reachable from `home` is a hit. -/
def Missed (n : ℕ) (slots : ℕ → Slot α) (hit : α → Bool) (home : ℕ) : Prop :=
  ∀ k < n, Crossed n slots home k → ∀ a, slots ((home + k) % n) = .full a → hit a = false

/-- A vacant slot that a probe from `home` reaches. -/
def Reached (n : ℕ) (slots : ℕ → Slot α) (home p : ℕ) : Prop :=
  ∃ k < n, p = (home + k) % n ∧ Crossed n slots home k ∧ ∀ a, slots p ≠ .full a

/-- What a full probe from `home` finds. -/
def Probed (n : ℕ) (slots : ℕ → Slot α) (hit : α → Bool) (home : ℕ) : Outcome α → Prop
  | .found a => hit a = true ∧ ∃ p < n, slots p = .full a
  | .vacant (some p) => Reached n slots home p ∧ Missed n slots hit home
  | .vacant none => (∀ p < n, ∃ a, slots p = .full a) ∧ Missed n slots hit home

/-- What is known after a number of steps without a hit. -/
structure Probing (n : ℕ) (slots : ℕ → Slot α) (hit : α → Bool) (home k : ℕ)
    (tomb : Option ℕ) : Prop where
  crossed : Crossed n slots home k
  missed : ∀ j < k, ∀ a, slots ((home + j) % n) = .full a → hit a = false
  filled : tomb = none → ∀ j < k, ∃ a, slots ((home + j) % n) = .full a
  vacant : ∀ p, tomb = some p → Reached n slots home p

theorem Probing.missed_empty {k : ℕ} {tomb : Option ℕ}
    (probing : Probing n slots hit home k tomb)
    (here : slots ((home + k) % n) = .empty) : Missed n slots hit home := by
  intro j short crossed a there
  rcases Nat.lt_trichotomy j k with before | rfl | after
  · exact probing.missed j before a there
  · rw [here] at there
    cases there
  · exact absurd here (crossed k after)

/-- The step over a tombstone. -/
theorem Probing.tombstone {k : ℕ} {tomb : Option ℕ} (probing : Probing n slots hit home k tomb)
    (short : k < n) (here : slots ((home + k) % n) = .tombstone) :
    Probing n slots hit home (k + 1) (tomb.or (some ((home + k) % n))) := by
  constructor
  · exact probing.crossed.succ (by simp [here])
  · intro j before a there
    rcases Nat.lt_succ_iff_lt_or_eq.mp before with earlier | rfl
    · exact probing.missed j earlier a there
    · rw [here] at there
      cases there
  · intro absent
    cases tomb <;> cases absent
  · intro p same
    cases tomb with
    | none =>
        obtain rfl := Option.some.inj same
        exact ⟨k, short, rfl, probing.crossed, by simp [here]⟩
    | some first => exact probing.vacant p same

/-- The step over a member that is no hit. -/
theorem Probing.full {k : ℕ} {tomb : Option ℕ} (probing : Probing n slots hit home k tomb)
    {a : α} (here : slots ((home + k) % n) = .full a) (miss : hit a = false) :
    Probing n slots hit home (k + 1) tomb := by
  refine ⟨probing.crossed.succ (by simp [here]), ?_, ?_, probing.vacant⟩
  · intro j before b there
    rcases Nat.lt_succ_iff_lt_or_eq.mp before with earlier | rfl
    · exact probing.missed j earlier b there
    · rw [here] at there
      cases there
      exact miss
  · intro none j before
    rcases Nat.lt_succ_iff_lt_or_eq.mp before with earlier | rfl
    · exact probing.filled none j earlier
    · exact ⟨a, here⟩

theorem probed_of_probing (wraps : ∀ p < n, next p = (p + 1) % n) {fuel k : ℕ}
    {tomb : Option ℕ} (whole : fuel + k = n) (probing : Probing n slots hit home k tomb) :
    Probed n slots hit home (probe next slots hit fuel ((home + k) % n) tomb) := by
  induction fuel generalizing k tomb with
  | zero =>
      obtain rfl : k = n := by omega
      have missed : Missed k slots hit home := fun j short _ a there =>
        probing.missed j short a there
      cases tomb with
      | some p => exact ⟨probing.vacant p rfl, missed⟩
      | none =>
          refine ⟨fun p inside => ?_, missed⟩
          obtain ⟨j, short, rfl⟩ := exists_step inside home
          exact probing.filled rfl j short
  | succ fuel ih =>
      have short : k < n := by omega
      have further : next ((home + k) % n) = (home + (k + 1)) % n := by
        rw [wraps _ (Nat.mod_lt _ (Nat.lt_of_le_of_lt (Nat.zero_le k) short)), Nat.mod_add_mod]
        rfl
      rw [probe, further]
      cases here : slots ((home + k) % n) with
      | empty =>
          refine ⟨?_, probing.missed_empty here⟩
          cases tomb with
          | some p => exact probing.vacant p rfl
          | none => exact ⟨k, short, rfl, probing.crossed, by simp [here]⟩
      | tombstone => exact ih (by omega) (probing.tombstone short here)
      | full a =>
          cases found : hit a with
          | true =>
              have positive : 0 < n := Nat.lt_of_le_of_lt (Nat.zero_le k) short
              simp only [found, if_true]
              exact ⟨found, _, Nat.mod_lt _ positive, here⟩
          | false =>
              simp only [found, Bool.false_eq_true, if_false]
              exact ih (by omega) (probing.full here found)

/-- A probe of all slots finds a hit, or a slot to insert at, or a full table. -/
theorem probe_spec (wraps : ∀ p < n, next p = (p + 1) % n) (inside : home < n) :
    Probed n slots hit home (probe next slots hit n home none) := by
  have start : Probing n slots hit home 0 none :=
    ⟨Crossed.zero home, (fun _ absent => by cases absent), (fun _ _ absent => by cases absent),
      fun _ absent => by cases absent⟩
  have probed := probed_of_probing wraps (Nat.add_zero n) start
  rwa [Nat.add_zero, Nat.mod_eq_of_lt inside] at probed

/-- A scan answers at the first step on which its test does. -/
theorem scan_of_first {β : Type*} {test : ℕ → Option β} {answer : β}
    (wraps : ∀ p < n, next p = (p + 1) % n) {fuel k i : ℕ} (order : i ≤ k) (short : k < n)
    (enough : k < fuel + i) (first : ∀ j, i ≤ j → j < k → test ((home + j) % n) = none)
    (here : test ((home + k) % n) = some answer) :
    scan next test fuel ((home + i) % n) = some answer := by
  induction fuel generalizing i with
  | zero => omega
  | succ fuel ih =>
      rcases Nat.eq_or_lt_of_le order with rfl | before
      · rw [scan, here]
        rfl
      · have positive : 0 < n := Nat.lt_of_le_of_lt (Nat.zero_le k) short
        have further : next ((home + i) % n) = (home + (i + 1)) % n := by
          rw [wraps _ (Nat.mod_lt _ positive), Nat.mod_add_mod]
          rfl
        rw [scan, first i (Nat.le_refl i) before, further, Option.none_or]
        exact ih before (by omega) (fun j after => first j (Nat.le_of_succ_le after))

/-- A scan of all slots answers at the first step on which its test does. -/
theorem scan_spec {β : Type*} {test : ℕ → Option β} {answer : β}
    (wraps : ∀ p < n, next p = (p + 1) % n) (inside : home < n) {k : ℕ} (short : k < n)
    (first : ∀ j < k, test ((home + j) % n) = none)
    (here : test ((home + k) % n) = some answer) :
    scan next test n home = some answer := by
  have found := scan_of_first wraps (Nat.zero_le k) short short (fun j _ => first j) here
  rwa [Nat.add_zero, Nat.mod_eq_of_lt inside] at found

end

section

variable {n : ℕ} {slots : ℕ → Slot α} {home : α → ℕ} {members : Finset α}

/-- If the probe from a key's home misses, no member with that home is a hit. -/
theorem Linked.missed (linked : Linked n slots home members) {hit : α → Bool} {start : ℕ}
    (missed : Missed n slots hit start) {a : α} (member : a ∈ members) (same : home a = start) :
    hit a = false := by
  obtain ⟨k, short, here, crossed⟩ := linked.placed a member
  rw [same] at here crossed
  exact missed k short crossed a here

/-- The first empty slot on a probe from `home`. -/
theorem exists_first_empty {p : ℕ} (inside : p < n) (vacant : slots p = .empty) (home : ℕ) :
    ∃ k < n, slots ((home + k) % n) = .empty ∧ Crossed n slots home k := by
  have reachable : ∃ k, k < n ∧ slots ((home + k) % n) = .empty := by
    obtain ⟨k, short, rfl⟩ := exists_step inside home
    exact ⟨k, short, vacant⟩
  classical
  refine ⟨Nat.find reachable, (Nat.find_spec reachable).1, (Nat.find_spec reachable).2, ?_⟩
  intro j before here
  exact Nat.find_min reachable before ⟨Nat.lt_trans before (Nat.find_spec reachable).1, here⟩

end

end LinearProbing
