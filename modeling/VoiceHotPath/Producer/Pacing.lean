import VoiceHotPath.Histogram.Backfill

/-!
# Pacing on the absolute grid

A tick waits for its own grid point, so what one tick is late the next ones make up.
As long as the work of a tick leaves some of the frame to spare, a stall is worked
off before the next one begins, and stalls never add up.
-/

namespace VoiceHotPath

/-- The grid, and the stalls the options inject. -/
structure PaceOptions where
  startNs : UInt64
  frameNs : UInt64
  stalls : Bool
  stallEveryNs : UInt64
  stallNs : UInt64
  deriving DecidableEq, Repr

/-- The loop variables of the tick loop, and its histogram. -/
structure Pacer where
  seq : UInt64 := 0
  nextStallNs : UInt64
  pacing : Histogram
  deriving DecidableEq, Repr

/-- What the clock shows in a tick: after the wait, after a stall, and when all sessions are
served. -/
structure TickReads where
  wokeNs : UInt64
  resumedNs : UInt64
  doneNs : UInt64
  deriving DecidableEq, Repr

namespace PaceOptions

/-- Before the first tick; without stalls the next one is never due. -/
def pacer (options : PaceOptions) (pacing : Histogram) : Pacer where
  nextStallNs :=
    if options.stalls then options.startNs + options.stallEveryNs else UInt64.ofNat (2 ^ 64 - 1)
  pacing := pacing

end PaceOptions

namespace Pacer

variable (options : PaceOptions) (pacer : Pacer) (reads : TickReads)

def targetNs : UInt64 :=
  options.startNs + pacer.seq * options.frameNs

/-- How late a tick was versus the grid. -/
def lateness : UInt64 :=
  if pacer.targetNs options < reads.wokeNs then reads.wokeNs - pacer.targetNs options else 0

def stallDue : Bool :=
  pacer.nextStallNs ≤ reads.wokeNs

/-- One iteration of the tick loop, up to the frames it sends. -/
def tick : Pacer where
  seq := pacer.seq + 1
  nextStallNs :=
    if pacer.stallDue reads then reads.resumedNs + options.stallEveryNs else pacer.nextStallNs
  pacing := pacer.pacing.recordWithExpectedInterval (pacer.lateness options reads) options.frameNs

/-- When the tick begins to send. -/
def sendsNs : UInt64 :=
  if pacer.stallDue reads then reads.resumedNs else reads.wokeNs

end Pacer

namespace PaceOptions

variable (options : PaceOptions)

/-- The ticks of a run, each with the state it begins in. -/
def ticks : Pacer → List TickReads → List (Pacer × TickReads)
  | _, [] => []
  | pacer, reads :: rest => (pacer, reads) :: ticks (pacer.tick options reads) rest

def run (pacer : Pacer) (reads : List TickReads) : Pacer :=
  reads.foldl (Pacer.tick options) pacer

/-- What the clock does in a tick that could begin at `freeNs`: the wait ends no earlier than the
grid point and `slack` after it, or after the last tick, at most; so does the spin of a stall; and
the work of the tick and one slack leave `spare` of the frame. -/
structure Prompt (slack spare : Nat) (pacer : Pacer) (freeNs : Nat) (reads : TickReads) : Prop where
  waited : pacer.targetNs options ≤ reads.wokeNs
  woken : reads.wokeNs.toNat ≤ max (pacer.targetNs options).toNat freeNs + slack
  stalled : pacer.stallDue reads = true → reads.wokeNs ≤ reads.resumedNs ∧
    reads.resumedNs.toNat ≤ reads.wokeNs.toNat + options.stallNs.toNat + slack
  forward : pacer.sendsNs reads ≤ reads.doneNs
  worked : reads.doneNs.toNat + slack + spare ≤
    (pacer.sendsNs reads).toNat + options.frameNs.toNat

/-- Every tick of a run is prompt. -/
def AllPrompt (slack spare : Nat) : Pacer → Nat → List TickReads → Prop
  | _, _, [] => True
  | pacer, freeNs, reads :: rest => options.Prompt slack spare pacer freeNs reads ∧
      AllPrompt slack spare (pacer.tick options reads) reads.doneNs.toNat rest

/-- The clock stays in the first half of its range. -/
structure Horizon (run : List TickReads) : Prop where
  ticks : run.length < 2 ^ 64
  grid : options.startNs.toNat + run.length * options.frameNs.toNat < 2 ^ 63
  every : options.stallEveryNs.toNat < 2 ^ 63
  reads : ∀ reads ∈ run, reads.wokeNs.toNat < 2 ^ 63 ∧ reads.resumedNs.toNat < 2 ^ 63

/-- The grid point of a tick. -/
def gridNs (k : Nat) : Nat :=
  options.startNs.toNat + k * options.frameNs.toNat

/-- `m` ticks after a stall what is left of it is `spare` less for each, and the next stall is
one interval after it. -/
structure Recovering (slack spare n : Nat) (pacer : Pacer) (freeNs m : Nat) : Prop where
  backlog : freeNs ≤ options.gridNs pacer.seq.toNat +
    (options.stallNs.toNat + slack - m * spare)
  due : options.stalls = true →
    options.gridNs pacer.seq.toNat + options.stallEveryNs.toNat ≤
      pacer.nextStallNs.toNat + m * options.frameNs.toNat
  never : options.stalls = false →
    pacer.nextStallNs = UInt64.ofNat (2 ^ 64 - 1) ∧ freeNs ≤ options.gridNs pacer.seq.toNat

/-- A tick is late by the slack, or by a stall; a tick that stalls is late by the slack only. -/
structure InTime (slack : Nat) (pacer : Pacer) (reads : TickReads) : Prop where
  bounded : (pacer.lateness options reads).toNat ≤ options.stallNs.toNat + 2 * slack
  stalling : pacer.stallDue reads = true → (pacer.lateness options reads).toNat ≤ slack
  steady : options.stalls = false → (pacer.lateness options reads).toNat ≤ slack

/-- A stall and one slack are worked off in `n` ticks, and `n` frames and one slack are shorter
than the time from one stall to the next. -/
structure Sized (slack spare n : Nat) : Prop where
  worked : options.stallNs.toNat + slack ≤ n * spare
  apart : n * options.frameNs.toNat + slack < options.stallEveryNs.toNat

end PaceOptions

/-! ## One tick -/

section

variable {options : PaceOptions} {slack spare n m freeNs : Nat} {pacer : Pacer} {reads : TickReads}

theorem PaceOptions.gridNs_succ (k : Nat) :
    options.gridNs (k + 1) = options.gridNs k + options.frameNs.toNat := by
  rw [gridNs, gridNs, Nat.succ_mul, Nat.add_assoc]

/-- The grid point as the program computes it. -/
theorem Pacer.toNat_targetNs (inside : options.gridNs pacer.seq.toNat < 2 ^ 63) :
    (pacer.targetNs options).toNat = options.gridNs pacer.seq.toNat := by
  have grid : options.gridNs pacer.seq.toNat =
      options.startNs.toNat + pacer.seq.toNat * options.frameNs.toNat := rfl
  have product : pacer.seq.toNat * options.frameNs.toNat < 2 ^ 64 := by omega
  rw [targetNs, UInt64.toNat_add, UInt64.toNat_mul, Nat.mod_eq_of_lt product, grid]
  exact Nat.mod_eq_of_lt (by omega)

/-- A tick is late by what it woke after its grid point. -/
theorem Pacer.toNat_lateness (waited : pacer.targetNs options ≤ reads.wokeNs) :
    (pacer.lateness options reads).toNat =
      reads.wokeNs.toNat - (pacer.targetNs options).toNat := by
  unfold lateness
  split
  · exact UInt64.toNat_sub_of_le _ _ waited
  · rename_i early
    have same := UInt64.le_antisymm (UInt64.not_lt.mp early) waited
    rw [same, Nat.sub_self]
    rfl

/-- A stall that is due finds the last one worked off. -/
theorem PaceOptions.Recovering.on_time
    (recovering : options.Recovering slack spare n pacer freeNs m)
    (sized : options.stalls = true → options.Sized slack spare n)
    (narrow : spare ≤ options.frameNs.toNat)
    (prompt : options.Prompt slack spare pacer freeNs reads)
    (target : (pacer.targetNs options).toNat = options.gridNs pacer.seq.toNat)
    (inside : reads.wokeNs.toNat < 2 ^ 63) (due : pacer.stallDue reads = true) :
    reads.wokeNs.toNat ≤ options.gridNs pacer.seq.toNat + slack := by
  have reached := UInt64.le_iff_toNat_le.mp (of_decide_eq_true due)
  have woken := prompt.woken
  have backlog := recovering.backlog
  rw [target] at woken
  cases stalls : options.stalls with
  | false =>
      obtain ⟨top, -⟩ := recovering.never stalls
      rw [top] at reached
      have last : (UInt64.ofNat (2 ^ 64 - 1)).toNat = 2 ^ 64 - 1 := rfl
      omega
  | true =>
      obtain ⟨worked, apart⟩ := sized stalls
      have next := recovering.due stalls
      by_cases early : m < n
      · -- What is left of the stall, and the ticks since, fit in `n` frames.
        obtain ⟨k, rfl⟩ := Nat.exists_eq_add_of_lt early
        have rest :
            options.stallNs.toNat + slack - m * spare ≤ (k + 1) * options.frameNs.toNat := by
          have fewer : options.stallNs.toNat + slack ≤ m * spare + (k + 1) * spare := by
            rw [← Nat.add_mul]
            exact worked
          have wider := Nat.mul_le_mul_left (k + 1) narrow
          omega
        have total : (m + k + 1) * options.frameNs.toNat =
            m * options.frameNs.toNat + (k + 1) * options.frameNs.toNat := by
          rw [Nat.add_assoc, Nat.add_mul]
        omega
      · have enough := Nat.mul_le_mul_right spare (Nat.not_lt.mp early)
        omega

/-- Step lemma: a stall begins a recovery, and a tick without one goes on with it. -/
theorem PaceOptions.Recovering.tick (recovering : options.Recovering slack spare n pacer freeNs m)
    (sized : options.stalls = true → options.Sized slack spare n)
    (prompt : options.Prompt slack spare pacer freeNs reads)
    (inside : options.gridNs (pacer.seq.toNat + 1) < 2 ^ 63)
    (counted : (pacer.seq + 1).toNat = pacer.seq.toNat + 1)
    (horizon : reads.wokeNs.toNat < 2 ^ 63 ∧ reads.resumedNs.toNat < 2 ^ 63)
    (every : options.stallEveryNs.toNat < 2 ^ 63) :
    (∃ m, options.Recovering slack spare n (pacer.tick options reads) reads.doneNs.toNat m) ∧
      options.InTime slack pacer reads := by
  rw [gridNs_succ] at inside
  have target : (pacer.targetNs options).toNat = options.gridNs pacer.seq.toNat :=
    Pacer.toNat_targetNs (by omega)
  have woken := prompt.woken
  have waited := UInt64.le_iff_toNat_le.mp prompt.waited
  have forward := UInt64.le_iff_toNat_le.mp prompt.forward
  have worked := prompt.worked
  have backlog := recovering.backlog
  have late := Pacer.toNat_lateness prompt.waited
  rw [target] at woken waited late
  have seq : (pacer.tick options reads).seq.toNat = pacer.seq.toNat + 1 := counted
  have on_time := recovering.on_time sized (by omega) prompt target horizon.1
  cases due : pacer.stallDue reads with
  | false =>
      have next : (pacer.tick options reads).nextStallNs = pacer.nextStallNs := by
        simp [Pacer.tick, due]
      have sends : pacer.sendsNs reads = reads.wokeNs := by simp [Pacer.sendsNs, due]
      rw [sends] at worked forward
      refine ⟨⟨m + 1, ?_, ?_, ?_⟩, by omega, fun absent => ?_, ?_⟩
      · rw [seq, gridNs_succ, Nat.succ_mul]
        omega
      · intro stalls
        have before := recovering.due stalls
        rw [seq, gridNs_succ, next, Nat.succ_mul]
        omega
      · intro stalls
        obtain ⟨top, free⟩ := recovering.never stalls
        rw [seq, gridNs_succ, next]
        exact ⟨top, by omega⟩
      · rw [due] at absent
        cases absent
      · intro stalls
        obtain ⟨-, free⟩ := recovering.never stalls
        omega
  | true =>
      have prompt_stall := prompt.stalled due
      have soon := on_time due
      have later := UInt64.le_iff_toNat_le.mp prompt_stall.1
      have next : (pacer.tick options reads).nextStallNs.toNat =
          reads.resumedNs.toNat + options.stallEveryNs.toNat := by
        have same : (pacer.tick options reads).nextStallNs =
            reads.resumedNs + options.stallEveryNs := by simp [Pacer.tick, due]
        rw [same, UInt64.toNat_add]
        exact Nat.mod_eq_of_lt (by omega)
      have sends : pacer.sendsNs reads = reads.resumedNs := by simp [Pacer.sendsNs, due]
      rw [sends] at worked forward
      refine ⟨⟨1, ?_, ?_, ?_⟩, by omega, fun _ => by omega, fun _ => by omega⟩
      · rw [seq, gridNs_succ, Nat.one_mul]
        omega
      · intro stalls
        rw [seq, gridNs_succ, next, Nat.one_mul]
        omega
      · intro stalls
        obtain ⟨top, -⟩ := recovering.never stalls
        have reached := UInt64.le_iff_toNat_le.mp (of_decide_eq_true due)
        rw [top] at reached
        have last : (UInt64.ofNat (2 ^ 64 - 1)).toNat = 2 ^ 64 - 1 := rfl
        omega

/-! ## Every run -/

/-- Run lemma: every tick of the run is in time. -/
theorem PaceOptions.Recovering.inTime {run : List TickReads}
    (recovering : options.Recovering slack spare n pacer freeNs m)
    (sized : options.stalls = true → options.Sized slack spare n)
    (prompt : options.AllPrompt slack spare pacer freeNs run)
    (inside : options.gridNs (pacer.seq.toNat + run.length) < 2 ^ 63)
    (words : pacer.seq.toNat + run.length < 2 ^ 64)
    (horizon : ∀ reads ∈ run, reads.wokeNs.toNat < 2 ^ 63 ∧ reads.resumedNs.toNat < 2 ^ 63)
    (every : options.stallEveryNs.toNat < 2 ^ 63) :
    ∀ tick ∈ options.ticks pacer run, options.InTime slack tick.1 tick.2 := by
  induction run generalizing pacer freeNs m with
  | nil => exact fun _ absent => by cases absent
  | cons reads rest ih =>
      obtain ⟨first, others⟩ := prompt
      obtain ⟨here, later⟩ := List.forall_mem_cons.mp horizon
      rw [List.length_cons] at inside words
      have counted : (pacer.seq + 1).toNat = pacer.seq.toNat + 1 := by
        rw [UInt64.toNat_add]
        exact Nat.mod_eq_of_lt (by change pacer.seq.toNat + 1 < 2 ^ 64; omega)
      have order : options.gridNs (pacer.seq.toNat + 1) ≤
          options.gridNs (pacer.seq.toNat + (rest.length + 1)) :=
        Nat.add_le_add_left (Nat.mul_le_mul_right _ (by omega)) _
      obtain ⟨⟨m, next⟩, inTime⟩ := recovering.tick sized first (by omega) counted here every
      have moved : (pacer.tick options reads).seq.toNat + rest.length =
          pacer.seq.toNat + (rest.length + 1) := by
        rw [show (pacer.tick options reads).seq.toNat = _ from counted]
        omega
      intro tick member
      rcases List.mem_cons.mp member with rfl | member
      · exact inTime
      · apply ih next others _ _ later tick member
        · rw [moved]
          exact inside
        · rw [moved]
          exact words

/-- A lateness of less than two frames is one sample. -/
theorem Pacer.pacing_tick
    (short : (pacer.lateness options reads).toNat < 2 * options.frameNs.toNat) :
    (pacer.tick options reads).pacing = pacer.pacing.record (pacer.lateness options reads) := by
  have once : (pacer.lateness options reads).toNat / options.frameNs.toNat - 1 = 0 := by
    have quotient := Nat.div_lt_of_lt_mul (Nat.mul_comm _ _ ▸ short)
    omega
  change pacer.pacing.recordWithExpectedInterval _ _ = _
  rw [Histogram.recordWithExpectedInterval_eq, Histogram.withMissed, Histogram.missed, once]
  rfl

theorem PaceOptions.pacing_run {run : List TickReads}
    (short : ∀ tick ∈ options.ticks pacer run,
      (tick.1.lateness options tick.2).toNat < 2 * options.frameNs.toNat) :
    (options.run pacer run).pacing = pacer.pacing.recordAll
      ((options.ticks pacer run).map fun tick => tick.1.lateness options tick.2) := by
  induction run generalizing pacer with
  | nil => rfl
  | cons reads rest ih =>
      obtain ⟨first, others⟩ := List.forall_mem_cons.mp short
      change (options.run (pacer.tick options reads) rest).pacing = _
      rw [ih others, Pacer.pacing_tick first]
      rfl

/-- However long the producer runs in the first half of the clock's range: if the work of each tick
and one slack leave `spare` of the frame, a stall and one slack are worked off in `n` ticks of that,
and `n` frames and one slack fit between two stalls, then every tick is late by a stall and two
slacks at most, a tick that stalls and every tick of a run without stalls by one slack at most.  If
a stall and two slacks are shorter than two frames, the histogram has one sample for each tick, its
lateness. -/
theorem PaceOptions.on_grid (options : PaceOptions) (pacing : Histogram) (slack spare n : Nat)
    (run : List TickReads) (horizon : options.Horizon run)
    (sized : options.stalls = true → options.Sized slack spare n)
    (prompt : options.AllPrompt slack spare (options.pacer pacing) options.startNs.toNat run) :
    (∀ tick ∈ options.ticks (options.pacer pacing) run, options.InTime slack tick.1 tick.2) ∧
      (options.stallNs.toNat + 2 * slack < 2 * options.frameNs.toNat →
        (options.run (options.pacer pacing) run).pacing = pacing.recordAll
          ((options.ticks (options.pacer pacing) run).map fun tick =>
            tick.1.lateness options tick.2)) := by
  have origin : options.gridNs (options.pacer pacing).seq.toNat = options.startNs.toNat := by
    change options.startNs.toNat + 0 * _ = _
    rw [Nat.zero_mul, Nat.add_zero]
  have begins :
      options.Recovering slack spare n (options.pacer pacing) options.startNs.toNat n := by
    constructor
    · rw [origin]
      exact Nat.le_add_right _ _
    · intro stalls
      have first : (options.pacer pacing).nextStallNs = options.startNs + options.stallEveryNs := by
        simp [pacer, stalls]
      have grid := horizon.grid
      have every := horizon.every
      rw [origin, first, UInt64.toNat_add, Nat.mod_eq_of_lt (by omega)]
      exact Nat.le_add_right _ _
    · intro stalls
      rw [origin]
      exact ⟨by simp [pacer, stalls], Nat.le_refl _⟩
  have zero : (options.pacer pacing).seq.toNat = 0 := rfl
  have inTime := begins.inTime sized prompt
    (by rw [zero, Nat.zero_add]; exact horizon.grid)
    (by rw [zero, Nat.zero_add]; exact horizon.ticks) horizon.reads horizon.every
  refine ⟨inTime, fun short => ?_⟩
  apply pacing_run
  intro tick member
  exact Nat.lt_of_le_of_lt (inTime tick member).bounded short

/-- A stall that ends on the grid point of the next tick. -/
theorem PaceOptions.on_grid_stall :
    let options : PaceOptions := ⟨100, 20, true, 50, 15⟩
    let pacing : Histogram := { layout := .make 3 1, counts := List.replicate 20480 0 }
    let run : List TickReads :=
      [⟨100, 0, 105⟩, ⟨121, 0, 125⟩, ⟨140, 0, 144⟩, ⟨160, 176, 180⟩, ⟨181, 0, 185⟩]
    (options.ticks (options.pacer pacing) run).map (fun tick => tick.1.stallDue tick.2) =
        [false, false, false, true, false] ∧
      (∀ tick ∈ options.ticks (options.pacer pacing) run, options.InTime 1 tick.1 tick.2) ∧
      (options.run (options.pacer pacing) run).pacing = pacing.recordAll
        ((options.ticks (options.pacer pacing) run).map fun tick =>
          tick.1.lateness options tick.2) := by
  intro options pacing run
  have horizon : options.Horizon run := ⟨by decide, by decide, by decide, by decide⟩
  have sized : options.stalls = true → options.Sized 1 10 2 := fun _ => ⟨by decide, by decide⟩
  have prompt : options.AllPrompt 1 10 (options.pacer pacing) options.startNs.toNat run := by
    refine ⟨⟨?_, ?_, ?_, ?_, ?_⟩, ⟨?_, ?_, ?_, ?_, ?_⟩, ⟨?_, ?_, ?_, ?_, ?_⟩, ⟨?_, ?_, ?_, ?_, ?_⟩,
      ⟨?_, ?_, ?_, ?_, ?_⟩, trivial⟩ <;> decide +kernel
  obtain ⟨inTime, samples⟩ := on_grid options pacing 1 10 2 run horizon sized prompt
  exact ⟨by decide +kernel, inTime, samples (by decide)⟩

end

end VoiceHotPath
