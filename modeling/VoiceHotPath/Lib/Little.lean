import Mathlib.Algebra.GroupWithZero.Nat
import Mathlib.Algebra.BigOperators.Group.List.Basic
import Mathlib.Data.Nat.Notation

/-!
# Little's law

A station that customers enter and leave in order.  The integral of the number
present is the total time the customers have spent there; counting them only once
in a while, at some moment between two readings of the clock, errs by no more than
one period for each customer that enters or leaves.
-/

namespace Little

/-- A station on its clock: when each customer present entered, and when each one that left
entered and left. -/
structure Station where
  now : ℕ
  present : List ℕ := []
  served : List (ℕ × ℕ) := []
  /-- The integral of the number present. -/
  area : ℕ := 0

namespace Station

variable {station last : Station}

def arrive (station : Station) : Station :=
  { station with present := station.present ++ [station.now] }

/-- The first to enter is the first to leave. -/
def depart (station : Station) : Station :=
  match station.present with
  | [] => station
  | entered :: rest =>
      { station with present := rest, served := station.served ++ [(entered, station.now)] }

/-- Time passes, and never backwards. -/
def wait (station : Station) (now : ℕ) : Station :=
  { station with
    now := max station.now now
    area := station.area + station.present.length * (max station.now now - station.now) }

def left (station : Station) : ℕ :=
  station.served.length

def entered (station : Station) : ℕ :=
  station.served.length + station.present.length

/-- The time all customers have spent in the station so far. -/
def sojourns (station : Station) : ℕ :=
  (station.served.map fun stay => stay.2 - stay.1).sum +
    (station.present.map fun entered => station.now - entered).sum

/-! ## The law -/

/-- Nobody enters in the future, and the integral is the time spent. -/
structure Balanced (station : Station) : Prop where
  past : ∀ entered ∈ station.present, entered ≤ station.now
  law : station.area = station.sojourns

theorem balanced_of_now (now : ℕ) (n : ℕ) :
    Balanced { now := now, present := List.replicate n now } := by
  constructor
  · intro entered member
    exact Nat.le_of_eq (List.mem_replicate.mp member).2
  · simp [sojourns]

theorem Balanced.arrive (balanced : Balanced station) : Balanced station.arrive := by
  constructor
  · intro entered member
    rcases List.mem_append.mp member with old | new
    · exact balanced.past entered old
    · rw [List.mem_singleton.mp new]
      exact Nat.le_refl _
  · have same := balanced.law
    unfold sojourns at same ⊢
    simpa [Station.arrive] using same

theorem Balanced.depart (balanced : Balanced station) : Balanced station.depart := by
  unfold Station.depart
  split
  · exact balanced
  · rename_i entered rest here
    constructor
    · intro other member
      apply balanced.past other
      rw [here]
      exact List.mem_cons_of_mem _ member
    · have same := balanced.law
      unfold sojourns at same ⊢
      rw [here] at same
      simp only [List.map_cons, List.sum_cons, List.map_append, List.sum_append, List.map_nil,
        List.sum_nil] at same ⊢
      omega

/-- Everybody present stays for the time that passes. -/
theorem sum_later (entries : List ℕ) {now later : ℕ} (order : now ≤ later)
    (past : ∀ entered ∈ entries, entered ≤ now) :
    (entries.map fun entered => later - entered).sum =
      (entries.map fun entered => now - entered).sum + entries.length * (later - now) := by
  induction entries with
  | nil => simp
  | cons entered entries ih =>
      obtain ⟨first, rest⟩ := List.forall_mem_cons.mp past
      rw [List.map_cons, List.map_cons, List.sum_cons, List.sum_cons, ih rest, List.length_cons,
        Nat.succ_mul]
      omega

theorem Balanced.wait (balanced : Balanced station) (now : ℕ) : Balanced (station.wait now) := by
  have order : station.now ≤ max station.now now := Nat.le_max_left _ _
  constructor
  · intro entered member
    exact Nat.le_trans (balanced.past entered member) order
  · have same := balanced.law
    unfold sojourns at same ⊢
    change station.area + _ =
      _ + (station.present.map fun entered => max station.now now - entered).sum
    rw [sum_later station.present order balanced.past, same, Nat.add_assoc]
    rfl

/-! ## What can have happened since an earlier moment -/

/-- Since `last` the number present was at most everybody that entered and had not left then, and
at least everybody that had entered then and has not left. -/
structure Since (last station : Station) : Prop where
  time : last.now ≤ station.now
  entered : last.entered ≤ station.entered
  left : last.left ≤ station.left
  most : station.area ≤
    last.area + (station.entered - last.left) * (station.now - last.now)
  least : last.area + (last.entered - station.left) * (station.now - last.now) ≤ station.area

theorem left_le_entered (station : Station) : station.left ≤ station.entered :=
  Nat.le_add_right _ _

theorem Since.refl (station : Station) : Since station station :=
  ⟨Nat.le_refl _, Nat.le_refl _, Nat.le_refl _, by simp, by simp⟩

theorem entered_arrive (station : Station) : station.arrive.entered = station.entered + 1 := by
  simp [Station.arrive, Station.entered, Nat.add_assoc]

theorem Since.arrive (since : Since last station) : Since last station.arrive := by
  have more := entered_arrive station
  refine ⟨since.time, ?_, since.left, ?_, since.least⟩
  · rw [more]
    exact Nat.le_succ_of_le since.entered
  · rw [more]
    have wider : station.entered - last.left ≤ station.entered + 1 - last.left := by omega
    exact Nat.le_trans since.most (Nat.add_le_add_left (Nat.mul_le_mul_right _ wider) _)

/-- Leaving is no more than being counted as left. -/
theorem depart_cases (station : Station) :
    station.depart.now = station.now ∧ station.depart.area = station.area ∧
      station.depart.entered = station.entered ∧ station.left ≤ station.depart.left := by
  unfold depart
  split
  · exact ⟨rfl, rfl, rfl, Nat.le_refl _⟩
  · rename_i entered rest here
    refine ⟨rfl, rfl, ?_, ?_⟩
    · rw [Station.entered, Station.entered, here, List.length_append]
      exact (Nat.add_assoc _ _ _).trans (congrArg _ (Nat.add_comm 1 _))
    · simp [left]

theorem Since.depart (since : Since last station) : Since last station.depart := by
  obtain ⟨now, area, entered, left⟩ := station.depart_cases
  refine ⟨?_, ?_, Nat.le_trans since.left left, ?_, ?_⟩
  · rw [now]
    exact since.time
  · rw [entered]
    exact since.entered
  · rw [now, area, entered]
    exact since.most
  · rw [now, area]
    have fewer : last.entered - station.depart.left ≤ last.entered - station.left := by omega
    exact Nat.le_trans (Nat.add_le_add_left (Nat.mul_le_mul_right _ fewer) _) since.least

theorem Since.wait (since : Since last station) (now : ℕ) : Since last (station.wait now) := by
  have order : station.now ≤ max station.now now := Nat.le_max_left _ _
  have elapsed : max station.now now - last.now =
      (station.now - last.now) + (max station.now now - station.now) := by
    have time := since.time
    omega
  have counted : station.entered = station.left + station.present.length := rfl
  have gone := since.left
  have come := since.entered
  have upper : station.present.length ≤ station.entered - last.left := by omega
  have lower : last.entered - station.left ≤ station.present.length := by omega
  refine ⟨Nat.le_trans since.time order, since.entered, since.left, ?_, ?_⟩
  · change station.area + station.present.length * (max station.now now - station.now) ≤
      last.area + (station.entered - last.left) * (max station.now now - last.now)
    rw [elapsed, Nat.mul_add, ← Nat.add_assoc]
    exact Nat.add_le_add since.most (Nat.mul_le_mul_right _ upper)
  · change last.area + (last.entered - station.left) * (max station.now now - last.now) ≤
      station.area + station.present.length * (max station.now now - station.now)
    rw [elapsed, Nat.mul_add, ← Nat.add_assoc]
    exact Nat.add_le_add since.least (Nat.mul_le_mul_right _ lower)

/-! ## Sampling the number present -/

/-- A count of the present customers that was right at some moment since `last`, but for those
who have left by now. -/
def Counted (last station : Station) (depth : ℕ) : Prop :=
  ∃ seen, last.entered ≤ seen ∧ seen ≤ station.entered ∧ station.left ≤ seen ∧
    depth = seen - station.left

theorem Counted.arrive {depth : ℕ} (counted : Counted last station depth) :
    Counted last station.arrive depth := by
  obtain ⟨seen, least, most, left, same⟩ := counted
  refine ⟨seen, least, ?_, left, same⟩
  rw [entered_arrive]
  exact Nat.le_succ_of_le most

theorem Counted.wait {depth : ℕ} (counted : Counted last station depth) (now : ℕ) :
    Counted last (station.wait now) depth :=
  counted

/-- The integral over the samples so far is close to that of the number present. -/
structure Sampled (first station : Station) (longest area : ℕ) : Prop where
  most : area ≤ station.area + longest * (station.entered - first.entered)
  least : station.area ≤
    area + longest * ((station.entered - first.entered) + (station.left - first.left))

theorem Sampled.refl (first : Station) (empty : first.area = 0) : Sampled first first 0 0 :=
  ⟨Nat.zero_le _, by simp [empty]⟩

/-- One more period: the sample stands for it. -/
theorem Sampled.period {first : Station} {longest area depth : ℕ}
    (sampled : Sampled first last longest area) (entered : first.entered ≤ last.entered)
    (left : first.left ≤ last.left) (since : Since last station)
    (counted : Counted last station depth) :
    Sampled first station (max longest (station.now - last.now))
      (area + depth * (station.now - last.now)) := by
  obtain ⟨seen, some, most, gone, rfl⟩ := counted
  have come := since.entered
  have went := since.left
  have longer : longest ≤ max longest (station.now - last.now) := Nat.le_max_left _ _
  have within : station.now - last.now ≤ max longest (station.now - last.now) :=
    Nat.le_max_right _ _
  constructor
  · have wide : seen - station.left ≤
        (last.entered - station.left) + (station.entered - last.entered) := by omega
    have split : station.entered - first.entered =
        (last.entered - first.entered) + (station.entered - last.entered) := by omega
    calc area + (seen - station.left) * (station.now - last.now)
        ≤ (last.area + longest * (last.entered - first.entered)) +
            ((last.entered - station.left) + (station.entered - last.entered)) *
              (station.now - last.now) :=
          Nat.add_le_add sampled.most (Nat.mul_le_mul_right _ wide)
      _ = (last.area + (last.entered - station.left) * (station.now - last.now)) +
            (longest * (last.entered - first.entered) +
              (station.now - last.now) * (station.entered - last.entered)) := by
          rw [Nat.add_mul, Nat.mul_comm (station.entered - last.entered)]
          omega
      _ ≤ station.area + (max longest (station.now - last.now) * (last.entered - first.entered) +
            max longest (station.now - last.now) * (station.entered - last.entered)) :=
          Nat.add_le_add since.least
            (Nat.add_le_add (Nat.mul_le_mul_right _ longer) (Nat.mul_le_mul_right _ within))
      _ = station.area + max longest (station.now - last.now) *
            (station.entered - first.entered) := by
          rw [split, Nat.mul_add]
  · have narrow : station.entered - last.left ≤ (seen - station.left) +
        ((station.entered - last.entered) + (station.left - last.left)) := by omega
    have split : (station.entered - first.entered) + (station.left - first.left) =
        ((last.entered - first.entered) + (last.left - first.left)) +
          ((station.entered - last.entered) + (station.left - last.left)) := by omega
    calc station.area
        ≤ last.area + (station.entered - last.left) * (station.now - last.now) := since.most
      _ ≤ (area + longest * ((last.entered - first.entered) + (last.left - first.left))) +
            ((seen - station.left) +
              ((station.entered - last.entered) + (station.left - last.left))) *
                (station.now - last.now) :=
          Nat.add_le_add sampled.least (Nat.mul_le_mul_right _ narrow)
      _ = (area + (seen - station.left) * (station.now - last.now)) +
            (longest * ((last.entered - first.entered) + (last.left - first.left)) +
              (station.now - last.now) *
                ((station.entered - last.entered) + (station.left - last.left))) := by
          rw [Nat.add_mul, Nat.mul_comm ((station.entered - last.entered) + _)]
          omega
      _ ≤ (area + (seen - station.left) * (station.now - last.now)) +
            (max longest (station.now - last.now) *
              ((last.entered - first.entered) + (last.left - first.left)) +
              max longest (station.now - last.now) *
                ((station.entered - last.entered) + (station.left - last.left))) :=
          Nat.add_le_add_left
            (Nat.add_le_add (Nat.mul_le_mul_right _ longer) (Nat.mul_le_mul_right _ within)) _
      _ = (area + (seen - station.left) * (station.now - last.now)) +
            max longest (station.now - last.now) *
              ((station.entered - first.entered) + (station.left - first.left)) := by
          rw [split, Nat.mul_add (max _ _) (_ + _) (_ + _)]

end Station

end Little
