import Mathlib.Data.List.Basic

/-!
# Parsing a stream item by item

A framing looks at the bytes at hand and either asks for more, gives the stream
up, or takes one item off the front.  If its verdicts do not change when more
bytes arrive, parsing a stream piece by piece is parsing it as a whole.
-/

namespace Framing

inductive Verdict (α : Type) where
  | more
  | stop
  | item (a : α) (used : Nat)
  deriving DecidableEq, Repr

section

variable {α β : Type}

/-- More bytes change no verdict but the wish for more. -/
structure Stable (next : List β → Verdict α) : Prop where
  bounds : ∀ {bytes a used}, next bytes = .item a used → 0 < used ∧ used ≤ bytes.length
  item : ∀ {bytes a used}, next bytes = .item a used → ∀ later,
    next (bytes ++ later) = .item a used
  stop : ∀ {bytes}, next bytes = .stop → ∀ later, next (bytes ++ later) = .stop

/-- The items of a stream, and what is left of it, or nothing if it was given up. -/
inductive Parse (next : List β → Verdict α) : List β → List α → Option (List β) → Prop where
  | more {bytes : List β} : next bytes = .more → Parse next bytes [] (some bytes)
  | stop {bytes : List β} : next bytes = .stop → Parse next bytes [] none
  | item {bytes : List β} {a : α} {used : Nat} {items : List α} {rest : Option (List β)} :
      next bytes = .item a used → Parse next (bytes.drop used) items rest →
        Parse next bytes (a :: items) rest

namespace Parse

variable {next : List β → Verdict α} {bytes : List β} {items : List α}

/-- A stream parses in one way. -/
theorem unique {items' : List α} {rest rest' : Option (List β)}
    (parse : Parse next bytes items rest) (other : Parse next bytes items' rest') :
    items' = items ∧ rest' = rest := by
  induction parse generalizing items' with
  | more verdict =>
      cases other with
      | more _ => exact ⟨rfl, rfl⟩
      | stop verdict' => exact absurd (verdict.symm.trans verdict') (by simp)
      | item verdict' _ => exact absurd (verdict.symm.trans verdict') (by simp)
  | stop verdict =>
      cases other with
      | more verdict' => exact absurd (verdict.symm.trans verdict') (by simp)
      | stop _ => exact ⟨rfl, rfl⟩
      | item verdict' _ => exact absurd (verdict.symm.trans verdict') (by simp)
  | item verdict _ ih =>
      cases other with
      | more verdict' => exact absurd (verdict.symm.trans verdict') (by simp)
      | stop verdict' => exact absurd (verdict.symm.trans verdict') (by simp)
      | item verdict' parse' =>
          obtain ⟨rfl, rfl⟩ := Verdict.item.inj (verdict.symm.trans verdict')
          obtain ⟨rfl, same⟩ := ih parse'
          exact ⟨rfl, same⟩

/-- What is left of a stream is not enough for another item. -/
theorem wants_more {rest : List β} (parse : Parse next bytes items (some rest)) :
    next rest = .more := by
  generalize left : some rest = outcome at parse
  induction parse with
  | more verdict =>
      cases left
      exact verdict
  | stop _ => cases left
  | item _ _ ih => exact ih left

/-- Parsing goes on with what was left and what has arrived since. -/
theorem append (stable : Stable next) {rest later : List β} {items' : List α}
    {rest' : Option (List β)} (parse : Parse next bytes items (some rest))
    (continued : Parse next (rest ++ later) items' rest') :
    Parse next (bytes ++ later) (items ++ items') rest' := by
  generalize left : some rest = outcome at parse
  induction parse with
  | more _ =>
      cases left
      exact continued
  | stop _ => cases left
  | item verdict _ ih =>
      obtain ⟨-, inside⟩ := stable.bounds verdict
      apply Parse.item (stable.item verdict later)
      rw [List.drop_append_of_le_length inside]
      exact ih left

/-- A stream given up stays given up. -/
theorem append_stopped (stable : Stable next) (parse : Parse next bytes items none)
    (later : List β) : Parse next (bytes ++ later) items none := by
  generalize stopped : (none : Option (List β)) = outcome at parse ⊢
  induction parse with
  | more _ => cases stopped
  | stop verdict => exact .stop (stable.stop verdict later)
  | item verdict _ ih =>
      obtain ⟨-, inside⟩ := stable.bounds verdict
      apply Parse.item (stable.item verdict later)
      rw [List.drop_append_of_le_length inside]
      exact ih stopped

end Parse

/-- Items taken off the front of a stream, and the bytes not yet looked at. -/
inductive Takes (next : List β → Verdict α) (stream : List β) : List α → List β → Prop where
  | start : Takes next stream [] stream
  | item {items : List α} {left : List β} {a : α} {used : Nat} :
      Takes next stream items left → next left = .item a used →
        Takes next stream (items ++ [a]) (left.drop used)

namespace Takes

variable {next : List β → Verdict α} {stream left : List β} {items : List α}

/-- Parsing what is left is parsing the stream. -/
theorem parse {items' : List α} {rest : Option (List β)} (takes : Takes next stream items left)
    (later : Parse next left items' rest) : Parse next stream (items ++ items') rest := by
  induction takes generalizing items' with
  | start => exact later
  | @item items left a used _ verdict ih =>
      rw [List.append_assoc]
      exact ih (.item verdict later)

/-- Bytes that arrive later stay behind those left. -/
theorem append (stable : Stable next) (takes : Takes next stream items left) (later : List β) :
    Takes next (stream ++ later) items (left ++ later) := by
  induction takes with
  | start => exact .start
  | item _ verdict ih =>
      obtain ⟨-, inside⟩ := stable.bounds verdict
      rw [← List.drop_append_of_le_length inside]
      exact .item ih (stable.item verdict later)

end Takes

/-- The item is taken off the front of its encoding, and no less of it will do. -/
structure Encodes (next : List β → Verdict α) (code : List β) (a : α) : Prop where
  whole : ∀ later, next (code ++ later) = .item a code.length
  cut : ∀ n, n < code.length → next (code.take n) = .more

/--
Of a stream of encodings cut off anywhere, the items that parse are those whose
encodings have arrived whole.
-/
theorem Parse.take {γ : Type} {next : List β → Verdict α} {encode : γ → List β} {decode : γ → α}
    {items : List γ} (empty : next [] = .more)
    (encodes : ∀ item ∈ items, Encodes next (encode item) (decode item)) (n : Nat) :
    ∃ k rest, k ≤ items.length ∧
      Parse next ((items.flatMap encode).take n) ((items.take k).map decode) (some rest) ∧
      ((items.take k).flatMap encode).length ≤ n ∧
      (k < items.length → n < ((items.take (k + 1)).flatMap encode).length) := by
  induction items generalizing n with
  | nil =>
      refine ⟨0, [], Nat.le_refl 0, ?_, Nat.zero_le n,
        fun absent => absurd absent (Nat.lt_irrefl 0)⟩
      rw [List.flatMap_nil, List.take_nil]
      exact .more empty
  | cons item items ih =>
      have front := encodes item List.mem_cons_self
      rw [List.flatMap_cons]
      by_cases arrived : (encode item).length ≤ n
      · obtain ⟨k, rest, inside, parse, least, most⟩ :=
          ih (fun other member => encodes other (List.mem_cons_of_mem item member))
            (n - (encode item).length)
        refine ⟨k + 1, rest, Nat.succ_le_succ inside, ?_, ?_, ?_⟩
        · rw [List.take_append, List.take_of_length_le arrived, List.take_succ_cons, List.map_cons]
          apply Parse.item (front.whole _)
          rw [List.drop_left]
          exact parse
        · rw [List.take_succ_cons, List.flatMap_cons, List.length_append]
          omega
        · intro more
          have later := most (Nat.lt_of_succ_lt_succ more)
          rw [List.take_succ_cons, List.flatMap_cons, List.length_append]
          omega
      · have short : n < (encode item).length := Nat.lt_of_not_le arrived
        refine ⟨0, (encode item).take n, Nat.zero_le _, ?_, Nat.zero_le n, fun _ => ?_⟩
        · rw [List.take_append_of_le_length (Nat.le_of_lt short)]
          exact .more (front.cut n short)
        · rw [List.take_succ_cons, List.take_zero, List.flatMap_cons, List.flatMap_nil,
            List.append_nil]
          exact short

end

end Framing
