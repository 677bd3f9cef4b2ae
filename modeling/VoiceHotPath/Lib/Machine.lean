import Mathlib.Data.List.Basic
import Mathlib.Data.List.Forall2

/-!
# Deterministic machines

A machine consumes one input at a time and answers each with one output.  The
rules below package the inductions over a run once: what every step keeps, a run
keeps, and a simulation may relate two machines that are fed different inputs.
-/

namespace Machine

section

variable {σ ι ο : Type} (step : σ → ι → σ × ο)

/-- The state a machine reaches on a list of inputs. -/
def final : σ → List ι → σ
  | state, [] => state
  | state, input :: rest => final (step state input).1 rest

/-- The outputs of a run, one for each input. -/
def outputs : σ → List ι → List ο
  | _, [] => []
  | state, input :: rest => (step state input).2 :: outputs (step state input).1 rest

@[simp] theorem final_nil (state : σ) : final step state [] = state :=
  rfl

@[simp] theorem final_cons (state : σ) (input : ι) (rest : List ι) :
    final step state (input :: rest) = final step (step state input).1 rest :=
  rfl

@[simp] theorem outputs_nil (state : σ) : outputs step state [] = [] :=
  rfl

@[simp] theorem outputs_cons (state : σ) (input : ι) (rest : List ι) :
    outputs step state (input :: rest) =
      (step state input).2 :: outputs step (step state input).1 rest :=
  rfl

theorem final_append (state : σ) (first second : List ι) :
    final step state (first ++ second) = final step (final step state first) second := by
  induction first generalizing state with
  | nil => rfl
  | cons input rest ih => exact ih _

theorem outputs_append (state : σ) (first second : List ι) :
    outputs step state (first ++ second) =
      outputs step state first ++ outputs step (final step state first) second := by
  induction first generalizing state with
  | nil => rfl
  | cons input rest ih => simp [ih]

@[simp] theorem length_outputs (state : σ) (inputs : List ι) :
    (outputs step state inputs).length = inputs.length := by
  induction inputs generalizing state with
  | nil => rfl
  | cons input rest ih => simp [ih]

/-- The output at a position is the answer of the state reached before it. -/
theorem outputs_getElem? (state : σ) (inputs : List ι) (i : Nat) :
    (outputs step state inputs)[i]? =
      inputs[i]?.map fun input => (step (final step state (inputs.take i)) input).2 := by
  induction inputs generalizing state i with
  | nil => simp
  | cons input rest ih =>
      cases i with
      | zero => simp
      | succ i => simpa using ih (step state input).1 i

/-- What an observer sees of a machine before each of its steps. -/
def views {κ : Type} (view : σ → ι → κ) : σ → List ι → List κ
  | _, [] => []
  | state, input :: rest => view state input :: views view (step state input).1 rest

theorem views_append {κ : Type} (view : σ → ι → κ) (state : σ) (first second : List ι) :
    views step view state (first ++ second) =
      views step view state first ++ views step view (final step state first) second := by
  induction first generalizing state with
  | nil => rfl
  | cons input rest ih => simp [views, ih]

@[simp] theorem length_views {κ : Type} (view : σ → ι → κ) (state : σ) (inputs : List ι) :
    (views step view state inputs).length = inputs.length := by
  induction inputs generalizing state with
  | nil => rfl
  | cons input rest ih => simp [views, ih]

/-- Invariant rule: what one step preserves, a run preserves. -/
theorem final_invariant {inv : σ → Prop}
    (preserved : ∀ state input, inv state → inv (step state input).1)
    {state : σ} (holds : inv state) (inputs : List ι) :
    inv (final step state inputs) := by
  induction inputs generalizing state with
  | nil => exact holds
  | cons input rest ih => exact ih (preserved state input holds)

end

section

variable {σ τ ι κ ο π : Type} {left : σ → ι → σ × ο} {right : τ → κ → τ × π}

/-- Simulation rule: related steps on related inputs give related runs. -/
theorem outputs_simulation {rel : σ → τ → Prop} {input : ι → κ → Prop} {out : ο → π → Prop}
    (simulates : ∀ s t i k, rel s t → input i k →
      rel (left s i).1 (right t k).1 ∧ out (left s i).2 (right t k).2)
    {s : σ} {t : τ} (related : rel s t) {is : List ι} {ks : List κ}
    (inputs : List.Forall₂ input is ks) :
    rel (final left s is) (final right t ks) ∧
      List.Forall₂ out (outputs left s is) (outputs right t ks) := by
  induction inputs generalizing s t with
  | nil => exact ⟨related, .nil⟩
  | cons head tail ih =>
      obtain ⟨stepped, answered⟩ := simulates _ _ _ _ related head
      obtain ⟨finals, answers⟩ := ih stepped
      exact ⟨finals, .cons answered answers⟩

end

end Machine
