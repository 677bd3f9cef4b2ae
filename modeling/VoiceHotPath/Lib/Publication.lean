import Mathlib.Data.List.Basic

/-!
# Publication by a list of stores

An owner fills a fresh object by a fixed list of stores while others test it.  A
test that cannot pass before some store, and whose answer no later store changes,
tells whoever passes it how far the owner has come, for good.
-/

/-- An object as it is made and the stores that fill it. -/
structure Publication (σ ω : Type) where
  fresh : σ
  apply : σ → ω → σ
  stores : List ω

namespace Publication

variable {σ ω : Type} {publication : Publication σ ω} {test : σ → Bool} {n m k : Nat}

/-- The object after the first `n` stores. -/
def after (publication : Publication σ ω) (n : Nat) : σ :=
  (publication.stores.take n).foldl publication.apply publication.fresh

@[simp] theorem after_zero : publication.after 0 = publication.fresh := rfl

theorem after_succ {store : ω} (next : publication.stores[n]? = some store) :
    publication.after (n + 1) = publication.apply (publication.after n) store := by
  unfold after
  rw [List.take_add_one, next, Option.toList_some, List.foldl_append]
  rfl

theorem after_of_le (all : publication.stores.length ≤ n) :
    publication.after n = publication.after publication.stores.length := by
  unfold after
  rw [List.take_of_length_le all, List.take_length]

/-- The test fails before the first `n` stores are done, and then has its last answer. -/
structure Settles (publication : Publication σ ω) (test : σ → Bool) (n : Nat) : Prop where
  fails : ∀ k, k < n → test (publication.after k) = false
  stays : ∀ k, n ≤ k → test (publication.after k) = test (publication.after n)

namespace Settles

/-- Whoever passes the test knows that the store is done. -/
theorem done (settles : publication.Settles test n)
    (passes : test (publication.after k) = true) : n ≤ k := by
  apply Nat.le_of_not_lt
  intro early
  exact absurd (passes.symm.trans (settles.fails k early)) (by decide)

/-- A test passed once stays passed. -/
theorem mono (settles : publication.Settles test n)
    (passes : test (publication.after k) = true) (later : k ≤ m) :
    test (publication.after m) = true := by
  have done := settles.done passes
  rw [settles.stays m (Nat.le_trans done later), ← settles.stays k done]
  exact passes

end Settles

end Publication
