import Mathlib.Data.Nat.Notation
import Mathlib.Logic.Function.Iterate

/-!
# Generators

A generator draws one output after another from a state of its own.  The rules
below package the inductions over its draws once: what a draw keeps, any number
of draws keeps, and generators that simulate each other draw related streams.
-/

namespace Generator

section

variable {σ ο : Type} (next : σ → ο × σ)

/-- The state after a number of draws. -/
def after (state : σ) (n : ℕ) : σ :=
  (fun state => (next state).2)^[n] state

/-- The output drawn after `n` others. -/
def output (state : σ) (n : ℕ) : ο :=
  (next (after next state n)).1

theorem after_succ (state : σ) (n : ℕ) :
    after next state (n + 1) = (next (after next state n)).2 :=
  Function.iterate_succ_apply' _ n state

/-- Invariant rule: what one draw preserves, a stream preserves. -/
theorem after_invariant (inv : σ → Prop)
    (preserved : ∀ state, inv state → inv (next state).2)
    {state : σ} (holds : inv state) (n : ℕ) :
    inv (after next state n) := by
  induction n with
  | zero => exact holds
  | succ n ih =>
      rw [after_succ]
      exact preserved _ ih

end

section

variable {σ τ ο π : Type} (left : σ → ο × σ) (right : τ → π × τ)

/-- Simulation rule: related draws give related streams. -/
theorem output_simulation (rel : σ → τ → Prop) (out : ο → π → Prop)
    (simulates : ∀ s t, rel s t → out (left s).1 (right t).1 ∧ rel (left s).2 (right t).2)
    {s : σ} {t : τ} (related : rel s t) (n : ℕ) :
    out (output left s n) (output right t n) ∧ rel (after left s n) (after right t n) := by
  have run : rel (after left s n) (after right t n) := by
    induction n with
    | zero => exact related
    | succ n ih =>
        rw [after_succ, after_succ]
        exact (simulates _ _ ih).2
  exact ⟨(simulates _ _ run).1, run⟩

end

end Generator
