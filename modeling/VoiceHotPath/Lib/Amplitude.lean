import Mathlib.Algebra.BigOperators.Fin
import Mathlib.Algebra.Order.Chebyshev
import Mathlib.Algebra.Order.BigOperators.Group.List
import Mathlib.Analysis.Real.Sqrt

/-!
# Peak and quadratic mean

Both gauges of a list of amplitudes grow at most affinely when every amplitude
does.  So an error that is affine in the amplitude, of each sample, is one of
the gauges.
-/

namespace Amplitude

noncomputable section

/-- The largest amplitude, and zero of none. -/
def peak (xs : List ℝ) : ℝ :=
  xs.foldl max 0

/-- The root of the mean square, and zero of none. -/
def rms (xs : List ℝ) : ℝ :=
  √((xs.map (· ^ 2)).sum / xs.length)

section

variable {ι : Type} {xs : List ι} {f g : ι → ℝ} {c k : ℝ}

/-! ## The peak -/

theorem foldl_max_le {xs : List ℝ} {start bound : ℝ} (first : start ≤ bound)
    (each : ∀ x ∈ xs, x ≤ bound) : xs.foldl max start ≤ bound := by
  induction xs generalizing start with
  | nil => exact first
  | cons x xs ih =>
      obtain ⟨here, rest⟩ := List.forall_mem_cons.mp each
      exact ih (max_le first here) rest

theorem le_foldl_max (xs : List ℝ) (start : ℝ) : start ≤ xs.foldl max start := by
  induction xs generalizing start with
  | nil => exact le_refl start
  | cons x xs ih => exact (le_max_left start x).trans (ih _)

theorem peak_nonneg (xs : List ℝ) : 0 ≤ peak xs :=
  le_foldl_max xs 0

theorem le_peak {xs : List ℝ} {x : ℝ} (member : x ∈ xs) : x ≤ peak xs := by
  have each : ∀ start, x ≤ xs.foldl max start := by
    induction xs with
    | nil => cases member
    | cons first xs ih =>
        intro start
        rcases List.mem_cons.mp member with rfl | later
        · exact (le_max_right start x).trans (le_foldl_max xs _)
        · exact ih later _
  exact each 0

theorem peak_le (scale : 0 ≤ c) (offset : 0 ≤ k) (each : ∀ x ∈ xs, g x ≤ c * f x + k) :
    peak (xs.map g) ≤ c * peak (xs.map f) + k := by
  have positive := peak_nonneg (xs.map f)
  apply foldl_max_le
  · positivity
  · intro y member
    obtain ⟨x, belongs, rfl⟩ := List.mem_map.mp member
    have top : f x ≤ peak (xs.map f) := le_peak (List.mem_map_of_mem belongs)
    have scaled := mul_le_mul_of_nonneg_left top scale
    linarith [each x belongs]

/-! ## The quadratic mean -/

theorem sum_map_eq (xs : List ι) (f : ι → ℝ) :
    (xs.map f).sum = ∑ i : Fin xs.length, f xs[i] := by
  rw [← List.sum_ofFn]
  congr 1
  apply List.ext_getElem <;> simp

/-- The square of a sum is at most the sum of the squares, as often as there are terms. -/
theorem sq_sum_le (xs : List ι) (f : ι → ℝ) :
    (xs.map f).sum ^ 2 ≤ xs.length * (xs.map fun x => f x ^ 2).sum := by
  rw [sum_map_eq, sum_map_eq]
  have chebyshev := sq_sum_le_card_mul_sum_sq (s := Finset.univ)
    (f := fun i : Fin xs.length => f xs[i])
  rw [Finset.card_univ, Fintype.card_fin] at chebyshev
  exact chebyshev

theorem rms_nonneg (xs : List ℝ) : 0 ≤ rms xs :=
  Real.sqrt_nonneg _

theorem rms_map (xs : List ι) (f : ι → ℝ) :
    rms (xs.map f) = √((xs.map fun x => f x ^ 2).sum / xs.length) := by
  rw [rms, List.map_map, List.length_map]
  rfl

theorem sum_sq_nonneg (xs : List ι) (f : ι → ℝ) : 0 ≤ (xs.map fun x => f x ^ 2).sum :=
  List.sum_nonneg fun _ member => by
    obtain ⟨x, -, rfl⟩ := List.mem_map.mp member
    exact sq_nonneg (f x)

/-- The sum of the amplitudes is at most their number times the quadratic mean. -/
theorem sum_le_rms (xs : List ι) (f : ι → ℝ) :
    (xs.map f).sum ≤ xs.length * rms (xs.map f) := by
  have root : xs.length * rms (xs.map f) = √(xs.length * (xs.map fun x => f x ^ 2).sum) := by
    rw [rms_map]
    rcases Nat.eq_zero_or_pos xs.length with none | some
    · rw [none, Nat.cast_zero, zero_mul, zero_mul, Real.sqrt_zero]
    · have count : (0 : ℝ) < xs.length := by exact_mod_cast some
      have square : (xs.length : ℝ) * (xs.map fun x => f x ^ 2).sum =
          (xs.length : ℝ) ^ 2 * ((xs.map fun x => f x ^ 2).sum / xs.length) := by
        field_simp
      rw [square, Real.sqrt_mul (sq_nonneg _), Real.sqrt_sq count.le]
  rw [root]
  exact Real.le_sqrt_of_sq_le (sq_sum_le xs f)

/-- The square of the quadratic mean is the mean square. -/
theorem length_mul_sq_rms (xs : List ι) (f : ι → ℝ) :
    xs.length * rms (xs.map f) ^ 2 = (xs.map fun x => f x ^ 2).sum := by
  have quotient : 0 ≤ (xs.map fun x => f x ^ 2).sum / (xs.length : ℝ) :=
    div_nonneg (sum_sq_nonneg xs f) (Nat.cast_nonneg _)
  rw [rms_map, Real.sq_sqrt quotient]
  cases xs with
  | nil => simp
  | cons x xs =>
      have count : ((x :: xs).length : ℝ) ≠ 0 := by
        rw [List.length_cons]
        positivity
      exact mul_div_cancel₀ _ count

theorem sum_sq_affine (xs : List ι) (f : ι → ℝ) (c k : ℝ) :
    (xs.map fun x => (c * f x + k) ^ 2).sum =
      c ^ 2 * (xs.map fun x => f x ^ 2).sum + 2 * c * k * (xs.map f).sum + xs.length * k ^ 2 := by
  induction xs with
  | nil => simp
  | cons x xs ih =>
      rw [List.map_cons, List.map_cons, List.map_cons, List.sum_cons, List.sum_cons, List.sum_cons,
        ih, List.length_cons]
      push_cast
      ring

theorem rms_le (scale : 0 ≤ c) (offset : 0 ≤ k) (positive : ∀ x ∈ xs, 0 ≤ g x)
    (each : ∀ x ∈ xs, g x ≤ c * f x + k) :
    rms (xs.map g) ≤ c * rms (xs.map f) + k := by
  have mean := rms_nonneg (xs.map f)
  have bound : 0 ≤ c * rms (xs.map f) + k := by positivity
  cases xs with
  | nil => simpa [rms] using offset
  | cons x xs =>
      have squares : ((x :: xs).map fun y => g y ^ 2).sum ≤
          ((x :: xs).map fun y => (c * f y + k) ^ 2).sum :=
        List.sum_le_sum fun y member => pow_le_pow_left₀ (positive y member) (each y member) 2
      have sum := mul_le_mul_of_nonneg_left (sum_le_rms (x :: xs) f)
        (by positivity : (0 : ℝ) ≤ 2 * c * k)
      have count : (0 : ℝ) < (x :: xs).length := by
        rw [List.length_cons]
        positivity
      rw [rms_map]
      apply Real.sqrt_le_iff.mpr ⟨bound, ?_⟩
      rw [div_le_iff₀ count]
      calc
        _ ≤ ((x :: xs).map fun y => (c * f y + k) ^ 2).sum := squares
        _ ≤ c ^ 2 * ((x :: xs).length * rms ((x :: xs).map f) ^ 2) +
            2 * c * k * ((x :: xs).length * rms ((x :: xs).map f)) +
              (x :: xs).length * k ^ 2 := by
          rw [sum_sq_affine, length_mul_sq_rms]
          linarith
        _ = (c * rms ((x :: xs).map f) + k) ^ 2 * (x :: xs).length := by ring

/-- The quadratic mean is no larger than the peak. -/
theorem rms_le_peak (positive : ∀ x ∈ xs, 0 ≤ f x) : rms (xs.map f) ≤ peak (xs.map f) := by
  have bounded := rms_le (f := f) (le_refl (0 : ℝ)) (peak_nonneg (xs.map f)) positive
    fun x member => by
      rw [zero_mul, zero_add]
      exact le_peak (List.mem_map_of_mem member)
  rwa [zero_mul, zero_add] at bounded

/-- A peak shows in the quadratic mean. -/
theorem peak_le_rms (xs : List ι) (f : ι → ℝ) :
    peak (xs.map f) ≤ √xs.length * rms (xs.map f) := by
  have root : √xs.length * rms (xs.map f) = √((xs.map fun x => f x ^ 2).sum) := by
    rw [← length_mul_sq_rms, Real.sqrt_mul (Nat.cast_nonneg _), Real.sqrt_sq (rms_nonneg _)]
  rw [root]
  apply foldl_max_le (Real.sqrt_nonneg _)
  intro y member
  obtain ⟨x, belongs, rfl⟩ := List.mem_map.mp member
  apply Real.le_sqrt_of_sq_le
  apply List.single_le_sum
  · intro square listed
    obtain ⟨z, -, rfl⟩ := List.mem_map.mp listed
    exact sq_nonneg _
  · exact List.mem_map_of_mem belongs

/-! ## Affine errors -/

/-- The gauge grows affinely with the amplitudes. -/
def IsGauge (gauge : List ℝ → ℝ) : Prop :=
  ∀ (ι : Type) (xs : List ι) (f g : ι → ℝ) (c k : ℝ), 0 ≤ c → 0 ≤ k → (∀ x ∈ xs, 0 ≤ g x) →
    (∀ x ∈ xs, g x ≤ c * f x + k) → gauge (xs.map g) ≤ c * gauge (xs.map f) + k

theorem isGauge_peak : IsGauge peak :=
  fun _ _ _ _ _ _ scale offset _ each => peak_le scale offset each

theorem isGauge_rms : IsGauge rms :=
  fun _ _ _ _ _ _ scale offset positive each => rms_le scale offset positive each

/-- An error of every amplitude, affine in it, is one of the gauge. -/
theorem IsGauge.close {gauge : List ℝ → ℝ} (isGauge : IsGauge gauge) {ε : ℝ} (start : 0 ≤ ε)
    (small : ε < 1) (offset : 0 ≤ k) (positive : ∀ x ∈ xs, 0 ≤ f x) (positive' : ∀ x ∈ xs, 0 ≤ g x)
    (each : ∀ x ∈ xs, |g x - f x| ≤ ε * (f x + k)) :
    |gauge (xs.map g) - gauge (xs.map f)| ≤ ε * (gauge (xs.map f) + k) := by
  have left : 0 < 1 - ε := by linarith
  have above : gauge (xs.map g) ≤ (1 + ε) * gauge (xs.map f) + ε * k := by
    apply isGauge ι xs f g (1 + ε) (ε * k) (by positivity) (by positivity) positive'
    intro x member
    have error := (abs_le.mp (each x member)).2
    linarith
  have below : gauge (xs.map f) ≤ (1 - ε)⁻¹ * gauge (xs.map g) + (1 - ε)⁻¹ * (ε * k) := by
    apply isGauge ι xs g f (1 - ε)⁻¹ ((1 - ε)⁻¹ * (ε * k)) (by positivity) (by positivity) positive
    intro x member
    have error := (abs_le.mp (each x member)).1
    rw [← mul_add, inv_mul_eq_div, le_div_iff₀ left]
    linarith
  rw [← mul_add, inv_mul_eq_div, le_div_iff₀ left] at below
  rw [abs_le]
  constructor
  · linarith
  · linarith

end

end

end Amplitude
