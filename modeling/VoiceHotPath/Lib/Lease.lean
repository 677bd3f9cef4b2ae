import Mathlib.Data.Finset.Card
import Mathlib.Data.Finset.Filter

/-!
# Leases with a periodic check

At most so many keys hold a lease.  A request renews the lease of its key, grants
one while there is room, and is refused otherwise.  A check that is due drops the
leases that have not been renewed for the idle time.  Since a check comes due
again only after an interval, a lease may outlive the idle time, by less than
that interval.
-/

namespace Lease

structure Terms where
  capacity : Nat
  idle : Nat
  interval : Nat
  deriving DecidableEq, Repr

inductive Act (κ : Type*) where
  | check (now : Nat)
  | request (key : κ) (now : Nat)
  deriving DecidableEq, Repr

def Act.time {κ : Type*} : Act κ → Nat
  | .check now => now
  | .request _ now => now

structure Ledger (κ : Type*) where
  holders : Finset κ
  renewed : κ → Nat
  nextCheck : Nat

namespace Ledger

section

variable {κ : Type*}

/-- Nobody holds a lease. -/
def initial (nextCheck : Nat) : Ledger κ :=
  { holders := ∅, renewed := fun _ => 0, nextCheck := nextCheck }

variable [DecidableEq κ] (terms : Terms)

def check (ledger : Ledger κ) (now : Nat) : Ledger κ :=
  if ledger.nextCheck ≤ now then
    { ledger with
      holders := ledger.holders.filter fun key => now - ledger.renewed key < terms.idle
      nextCheck := now + terms.interval }
  else ledger

/-- The key holds a lease, or there is room for one more. -/
def grants (ledger : Ledger κ) (key : κ) : Prop :=
  key ∈ ledger.holders ∨ ledger.holders.card < terms.capacity

instance (ledger : Ledger κ) (key : κ) : Decidable (ledger.grants terms key) :=
  inferInstanceAs (Decidable (_ ∨ _))

def renew (ledger : Ledger κ) (key : κ) (now : Nat) : Ledger κ :=
  { ledger with
    holders := insert key ledger.holders
    renewed := Function.update ledger.renewed key now }

def step (ledger : Ledger κ) : Act κ → Ledger κ
  | .check now => ledger.check terms now
  | .request key now => if ledger.grants terms key then ledger.renew key now else ledger

def run (ledger : Ledger κ) (acts : List (Act κ)) : Ledger κ :=
  acts.foldl (step terms) ledger

/-- The act is a request that is refused. -/
def refuses (ledger : Ledger κ) : Act κ → Bool
  | .check _ => false
  | .request key _ => !decide (ledger.grants terms key)

/-- The number of requests refused in a run. -/
def refusals (ledger : Ledger κ) : List (Act κ) → Nat
  | [] => 0
  | act :: rest => (ledger.refuses terms act).toNat + refusals (ledger.step terms act) rest

@[simp] theorem run_cons (ledger : Ledger κ) (act : Act κ) (rest : List (Act κ)) :
    ledger.run terms (act :: rest) = (ledger.step terms act).run terms rest :=
  rfl

theorem run_append (ledger : Ledger κ) (first second : List (Act κ)) :
    ledger.run terms (first ++ second) = (ledger.run terms first).run terms second :=
  List.foldl_append

theorem refusals_append (ledger : Ledger κ) (first second : List (Act κ)) :
    ledger.refusals terms (first ++ second) =
      ledger.refusals terms first + (ledger.run terms first).refusals terms second := by
  induction first generalizing ledger with
  | nil => exact (Nat.zero_add _).symm
  | cons act rest ih =>
      rw [List.cons_append, refusals, refusals, run_cons, ih, Nat.add_assoc]

end

/-- What holds of a ledger when the clock has been read, given the acts so far. -/
structure Kept {κ : Type*} (terms : Terms) (past : List (Act κ)) (clock : Nat)
    (ledger : Ledger κ) : Prop where
  bounded : ledger.holders.card ≤ terms.capacity
  soon : ledger.nextCheck ≤ clock + terms.interval
  dated : ∀ key ∈ ledger.holders, ledger.renewed key ≤ clock
  due : ∀ key ∈ ledger.holders,
    ledger.nextCheck ≤ ledger.renewed key + terms.idle + terms.interval
  heard : ∀ key ∈ ledger.holders, Act.request key (ledger.renewed key) ∈ past

section

variable {κ : Type*} {terms : Terms} {past : List (Act κ)} {clock : Nat} {ledger : Ledger κ}

theorem Kept.initial (clock : Nat) :
    Kept terms past clock (.initial (clock + terms.interval)) := by
  refine ⟨Nat.zero_le _, Nat.le_refl _, ?_, ?_, ?_⟩
  · intro key holds
    cases holds
  · intro key holds
    cases holds
  · intro key holds
    cases holds

theorem Kept.check (kept : Kept terms past clock ledger) {now : Nat} (later : clock ≤ now) :
    Kept terms (past ++ [.check now]) now (ledger.check terms now) := by
  have heard : ∀ key ∈ ledger.holders,
      Act.request key (ledger.renewed key) ∈ past ++ [.check now] := fun key holds =>
    List.mem_append_left _ (kept.heard key holds)
  unfold Ledger.check
  split
  · have fewer := Finset.card_filter_le ledger.holders
      fun key => now - ledger.renewed key < terms.idle
    refine ⟨Nat.le_trans fewer kept.bounded, Nat.le_refl _, ?_, ?_, ?_⟩
    · intro key stays
      exact Nat.le_trans (kept.dated key (Finset.mem_filter.mp stays).1) later
    · intro key stays
      have recent : now - ledger.renewed key < terms.idle := (Finset.mem_filter.mp stays).2
      change now + terms.interval ≤ ledger.renewed key + terms.idle + terms.interval
      omega
    · intro key stays
      exact heard key (Finset.mem_filter.mp stays).1
  · have soon := kept.soon
    refine ⟨kept.bounded, by omega, ?_, kept.due, heard⟩
    intro key holds
    exact Nat.le_trans (kept.dated key holds) later

/-- After a check, due or not, every lease that is left was renewed less than the idle
time and the interval ago. -/
theorem Kept.recent (kept : Kept terms past clock ledger) {now : Nat} {key : κ}
    (holds : key ∈ (ledger.check terms now).holders) :
    ∃ time, Act.request key time ∈ past ∧ now < time + terms.idle + terms.interval := by
  unfold Ledger.check at holds
  split at holds
  · obtain ⟨held, young⟩ := Finset.mem_filter.mp holds
    have recent : now - ledger.renewed key < terms.idle := young
    exact ⟨_, kept.heard key held, by omega⟩
  · have due := kept.due key holds
    exact ⟨_, kept.heard key holds, by omega⟩

variable [DecidableEq κ]

theorem Kept.renew (kept : Kept terms past clock ledger) {key : κ} {now : Nat}
    (later : clock ≤ now) (grants : ledger.grants terms key) :
    Kept terms (past ++ [.request key now]) now (ledger.renew key now) := by
  have soon := kept.soon
  refine ⟨?_, ?_, ?_, ?_, ?_⟩
  · change (insert key ledger.holders).card ≤ terms.capacity
    rcases grants with holds | room
    · rw [Finset.insert_eq_of_mem holds]
      exact kept.bounded
    · exact Nat.le_trans (Finset.card_insert_le key ledger.holders) room
  · change ledger.nextCheck ≤ now + terms.interval
    omega
  · intro other holds
    change Function.update ledger.renewed key now other ≤ now
    by_cases same : other = key
    · rw [same, Function.update_self]
    · rw [Function.update_of_ne same]
      exact Nat.le_trans (kept.dated other (Finset.mem_of_mem_insert_of_ne holds same)) later
  · intro other holds
    change ledger.nextCheck ≤
      Function.update ledger.renewed key now other + terms.idle + terms.interval
    by_cases same : other = key
    · rw [same, Function.update_self]
      omega
    · rw [Function.update_of_ne same]
      exact kept.due other (Finset.mem_of_mem_insert_of_ne holds same)
  · intro other holds
    change Act.request other (Function.update ledger.renewed key now other) ∈ _
    by_cases same : other = key
    · rw [same, Function.update_self]
      exact List.mem_append_right _ (List.mem_singleton_self _)
    · rw [Function.update_of_ne same]
      exact List.mem_append_left _
        (kept.heard other (Finset.mem_of_mem_insert_of_ne holds same))

/-- Step lemma: every act that is not in the past of the clock keeps the ledger. -/
theorem Kept.step (kept : Kept terms past clock ledger) {act : Act κ}
    (later : clock ≤ act.time) :
    Kept terms (past ++ [act]) act.time (ledger.step terms act) := by
  cases act with
  | check now => exact kept.check later
  | request key now =>
      change Kept terms _ now (if ledger.grants terms key then _ else ledger)
      split
      · rename_i grants
        exact kept.renew later grants
      · have soon := kept.soon
        have passed : clock ≤ now := later
        refine ⟨kept.bounded, by omega, ?_, kept.due, ?_⟩
        · intro other holds
          exact Nat.le_trans (kept.dated other holds) passed
        · intro other holds
          exact List.mem_append_left _ (kept.heard other holds)

/-- Run lemma: a clock that never goes back keeps the ledger, up to its last reading. -/
theorem Kept.run (kept : Kept terms past clock ledger) {acts : List (Act κ)}
    (ordered : (clock :: acts.map Act.time).Pairwise (· ≤ ·)) :
    ∃ last, (∀ now, (∀ time ∈ clock :: acts.map Act.time, time ≤ now) → last ≤ now) ∧
      Kept terms (past ++ acts) last (ledger.run terms acts) := by
  induction acts generalizing past clock ledger with
  | nil =>
      refine ⟨clock, fun now after => after clock (List.mem_cons_self ..), ?_⟩
      rw [List.append_nil]
      exact kept
  | cons act rest ih =>
      obtain ⟨first, others⟩ := List.pairwise_cons.mp ordered
      obtain ⟨last, least, held⟩ := ih (kept.step (first act.time (List.mem_cons_self ..))) others
      refine ⟨last, ?_, ?_⟩
      · intro now above
        exact least now fun time listed => above time (List.mem_cons_of_mem _ listed)
      · rw [List.append_assoc] at held
        exact held

end

end Ledger

end Lease
