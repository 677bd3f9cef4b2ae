import Mathlib.Order.Basic

/-!
# Progress under fair scheduling

An unending schedule picks one input after the other.  A goal is reached if a rank
never grows on the way to it and falls on every helpful input, and helpful inputs
recur.
-/

namespace Progress

section

variable {σ ι : Type*}

/-- The states an unending schedule leads through. -/
def states (step : σ → ι → σ) (schedule : Nat → ι) (start : σ) : Nat → σ
  | 0 => start
  | n + 1 => step (states step schedule start n) (schedule n)

/-- Helpful inputs come again and again. -/
def Recurs (schedule : Nat → ι) (helpful : ι → Prop) : Prop :=
  ∀ n, ∃ m, n ≤ m ∧ helpful (schedule m)

/-- What one step does on the way to a goal. -/
structure Approaches (step : σ → ι → σ) (allowed helpful : ι → Prop) (inv goal : σ → Prop)
    (rank : σ → Nat) : Prop where
  step : ∀ state input, allowed input → inv state →
    goal (step state input) ∨
      inv (step state input) ∧ rank (step state input) ≤ rank state ∧
        (helpful input → rank (step state input) < rank state)

variable {step : σ → ι → σ} {schedule : Nat → ι} {start : σ} {allowed helpful : ι → Prop}
  {inv goal : σ → Prop} {rank : σ → Nat}

/-- What every step keeps holds from then on. -/
theorem always (inv : σ → Prop) (keeps : ∀ state input, inv state → inv (step state input))
    {n : Nat} (now : inv (states step schedule start n)) {m : Nat} (later : n ≤ m) :
    inv (states step schedule start m) := by
  induction later with
  | refl => exact now
  | step _ ih => exact keeps _ _ ih

/-- Until a helpful input comes, the goal is reached or the rank has not grown. -/
theorem Approaches.wait (approaches : Approaches step allowed helpful inv goal rank) {n : Nat}
    (allows : ∀ m, n ≤ m → allowed (schedule m)) (now : inv (states step schedule start n))
    {m : Nat} (later : n ≤ m) :
    (∃ k, n ≤ k ∧ goal (states step schedule start k)) ∨
      inv (states step schedule start m) ∧
        rank (states step schedule start m) ≤ rank (states step schedule start n) := by
  induction later with
  | refl => exact .inr ⟨now, Nat.le_refl _⟩
  | @step m past ih =>
      rcases ih with reached | ⟨holds, small⟩
      · exact .inl reached
      · rcases approaches.step _ (schedule m) (allows m past) holds with
          reached | ⟨kept, smaller, -⟩
        · exact .inl ⟨m + 1, Nat.le_succ_of_le past, reached⟩
        · exact .inr ⟨kept, Nat.le_trans smaller small⟩

/-- Leads-to rule: a goal that is approached, and helped along again and again, is reached. -/
theorem Approaches.eventually (approaches : Approaches step allowed helpful inv goal rank)
    (recurs : Recurs schedule helpful) {n : Nat} (allows : ∀ m, n ≤ m → allowed (schedule m))
    (now : inv (states step schedule start n)) :
    ∃ m, n ≤ m ∧ goal (states step schedule start m) := by
  induction bound : rank (states step schedule start n) using Nat.strongRecOn
    generalizing n with
  | ind bound' ih =>
      subst bound
      obtain ⟨m, later, helps⟩ := recurs n
      rcases approaches.wait allows now later with reached | ⟨holds, small⟩
      · exact reached
      · rcases approaches.step _ (schedule m) (allows m later) holds with
          reached | ⟨kept, -, falls⟩
        · exact ⟨m + 1, Nat.le_succ_of_le later, reached⟩
        · have passed : n ≤ m + 1 := Nat.le_succ_of_le later
          obtain ⟨k, after, reached⟩ := ih _ (Nat.lt_of_lt_of_le (falls helps) small)
            (fun k beyond => allows k (Nat.le_trans passed beyond)) kept rfl
          exact ⟨k, Nat.le_trans passed after, reached⟩

end

end Progress
