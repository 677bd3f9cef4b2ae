import Mathlib.Data.Nat.Count

/-!
# Hysteresis

A detector over a boolean signal switches on after `rise` highs in a row and off
after `fall` lows in a row.  Where no burst of highs is too short to switch it on,
it switches off exactly at the end of the first `fall` lows after a burst.
-/

namespace Hysteresis

/-- How many positions in a row before `n` have the property. -/
def run (p : Nat → Bool) : Nat → Nat
  | 0 => 0
  | n + 1 => if p n then run p n + 1 else 0

section

variable {p : Nat → Bool} {n k : Nat}

theorem run_succ_of_pos (holds : p n = true) : run p (n + 1) = run p n + 1 :=
  if_pos holds

theorem run_succ_of_neg (fails : p n = false) : run p (n + 1) = 0 :=
  if_neg (by simp [fails])

/-- A run reaches a length when that many positions in a row have the property. -/
theorem le_run_iff : k ≤ run p n ↔ k ≤ n ∧ ∀ i, i < n → n ≤ i + k → p i = true := by
  induction n generalizing k with
  | zero =>
      constructor
      · intro zero
        exact ⟨zero, fun i absent => absurd absent (Nat.not_lt_zero i)⟩
      · exact And.left
  | succ n ih =>
      cases k with
      | zero =>
          refine ⟨fun _ => ⟨Nat.zero_le _, fun i inside beyond => ?_⟩, fun _ => Nat.zero_le _⟩
          omega
      | succ k =>
          cases holds : p n with
          | false =>
              rw [run_succ_of_neg holds]
              constructor
              · intro absent
                cases absent
              · rintro ⟨-, every⟩
                have contrary := every n (Nat.lt_succ_self n) (by omega)
                rw [holds] at contrary
                cases contrary
          | true =>
              rw [run_succ_of_pos holds, Nat.add_le_add_iff_right, ih, Nat.add_le_add_iff_right]
              refine and_congr_right fun _ => ?_
              constructor
              · intro every i inside beyond
                rcases Nat.lt_succ_iff_lt_or_eq.mp inside with before | rfl
                · exact every i before (by omega)
                · exact holds
              · intro every i inside beyond
                exact every i (Nat.lt_succ_of_lt inside) (by omega)

end

/-- Whether the detector is on after `n` positions. -/
def on (high : Nat → Bool) (rise fall : Nat) : Nat → Bool
  | 0 => false
  | n + 1 =>
      if on high rise fall n then run (fun i => !high i) (n + 1) < fall
      else rise ≤ run high (n + 1)

/-- No burst of highs before `n` ends before it has switched the detector on. -/
def Solid (high : Nat → Bool) (rise n : Nat) : Prop :=
  ∀ i, i + 1 < n → high i = true → high (i + 1) = false → rise ≤ run high (i + 1)

/-- The `fall`-th low in a row after a high. -/
structure Lapses (high : Nat → Bool) (fall j : Nat) : Prop where
  inside : fall ≤ j
  last : high (j - fall) = true
  quiet : ∀ k, j - fall < k → k ≤ j → high k = false

instance (high : Nat → Bool) (fall j : Nat) : Decidable (Lapses high fall j) :=
  decidable_of_iff (fall ≤ j ∧ high (j - fall) = true ∧ ∀ k ≤ j, j - fall < k → high k = false)
    ⟨fun ⟨inside, last, quiet⟩ => ⟨inside, last, fun k after below => quiet k below after⟩,
      fun lapses => ⟨lapses.inside, lapses.last, fun k below after => lapses.quiet k after below⟩⟩

section

variable {high : Nat → Bool} {rise fall n : Nat}

/-- While the detector is on, fewer than `fall` lows have gone by since the last high. -/
theorem low_lt_of_on (rising : 0 < rise) (falling : 0 < fall)
    (active : on high rise fall n = true) : run (fun i => !high i) n < fall := by
  cases n with
  | zero => cases active
  | succ n =>
      rw [on] at active
      split at active
      · exact of_decide_eq_true active
      · have reached := of_decide_eq_true active
        have last : high n = true := by
          have first := Nat.le_trans rising reached
          exact (le_run_iff.mp first).2 n (Nat.lt_succ_self n) (Nat.le_refl _)
        rw [run_succ_of_neg (by simp [last])]
        exact falling

/-- The detector is on only if there has been a high. -/
theorem exists_high_of_on (rising : 0 < rise) (active : on high rise fall n = true) :
    ∃ i, i < n ∧ high i = true := by
  induction n with
  | zero => cases active
  | succ n ih =>
      cases before : on high rise fall n with
      | true =>
          obtain ⟨i, inside, here⟩ := ih before
          exact ⟨i, Nat.lt_succ_of_lt inside, here⟩
      | false =>
          rw [on, before, if_neg (by decide)] at active
          have first := Nat.le_trans rising (of_decide_eq_true active)
          exact ⟨n, Nat.lt_succ_self n,
            (le_run_iff.mp first).2 n (Nat.lt_succ_self n) (Nat.le_refl _)⟩

/-- At the end of a burst the detector is on, and it stays on for less than `fall` lows. -/
theorem on_after_burst (falling : 0 < fall) (solid : Solid high rise n) {i : Nat}
    (last : high i = true) {k : Nat} (short : k < fall) (inside : i + 1 + k < n)
    (quiet : ∀ m, i < m → m ≤ i + 1 + k → high m = false) :
    on high rise fall (i + 1 + k) = true ∧ run (fun i => !high i) (i + 1 + k) = k := by
  induction k with
  | zero =>
      have low : run (fun i => !high i) (i + 1) = 0 := run_succ_of_neg (by simp [last])
      refine ⟨?_, low⟩
      rw [Nat.add_zero, on, low]
      split
      · exact decide_eq_true falling
      · exact decide_eq_true (solid i inside last (quiet (i + 1) (by omega) (by omega)))
  | succ k ih =>
      obtain ⟨active, low⟩ := ih (by omega) (by omega) fun m after below =>
        quiet m after (by omega)
      have here : high (i + 1 + k) = false := quiet _ (by omega) (by omega)
      have longer : run (fun i => !high i) (i + 1 + (k + 1)) = k + 1 := by
        rw [← Nat.add_assoc, run_succ_of_pos (by simp [here]), low]
      refine ⟨?_, longer⟩
      rw [← Nat.add_assoc, on, active, if_pos rfl, Nat.add_assoc, longer]
      exact decide_eq_true short

/--
The detector switches off exactly at the `fall`-th low after a burst.
-/
theorem falls_iff (rising : 0 < rise) (falling : 0 < fall) (solid : Solid high rise n) {j : Nat}
    (inside : j < n) :
    on high rise fall j = true ∧ on high rise fall (j + 1) = false ↔ Lapses high fall j := by
  constructor
  · rintro ⟨active, ended⟩
    rw [on, active, if_pos rfl] at ended
    have reached : fall ≤ run (fun i => !high i) (j + 1) :=
      Nat.le_of_not_lt (of_decide_eq_false ended)
    obtain ⟨within, lows⟩ := le_run_iff.mp reached
    have short := low_lt_of_on rising falling active
    have quiet : ∀ k, j < k + fall → k ≤ j → high k = false := by
      intro k after below
      have low := lows k (Nat.lt_succ_of_le below) after
      simpa using low
    by_cases start : fall ≤ j
    · refine ⟨start, ?_, fun k after below => quiet k (by omega) below⟩
      by_contra low
      have more : fall ≤ run (fun i => !high i) j := by
        refine le_run_iff.mpr ⟨start, fun i before beyond => ?_⟩
        by_cases same : i = j - fall
        · rw [same]
          simpa using low
        · have later := quiet i (by omega) (by omega)
          simpa using later
      omega
    · obtain ⟨i, before, here⟩ := exists_high_of_on rising active
      rw [quiet i (by omega) (by omega)] at here
      cases here
  · rintro ⟨start, last, quiet⟩
    obtain ⟨i, rfl⟩ : ∃ i, j = i + fall := ⟨_, (Nat.sub_add_cancel start).symm⟩
    rw [Nat.add_sub_cancel] at last quiet
    obtain ⟨k, rfl⟩ : ∃ k, fall = k + 1 := ⟨_, (Nat.sub_add_cancel falling).symm⟩
    have same : i + (k + 1) = i + 1 + k := by omega
    obtain ⟨active, low⟩ := on_after_burst falling solid last (Nat.lt_succ_self k)
      (by omega) fun m after below => quiet m after (by omega)
    have here : high (i + 1 + k) = false := quiet _ (by omega) (by omega)
    rw [same]
    refine ⟨active, ?_⟩
    rw [on, active, if_pos rfl, run_succ_of_pos (by simp [here]), low]
    exact decide_eq_false (Nat.lt_irrefl _)

end

end Hysteresis
