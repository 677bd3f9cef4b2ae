import Mathlib.Data.List.Basic
import Mathlib.Data.List.Infix
import Mathlib.Tactic.Tauto

/-!
# Formatted text

Words printed with fixed texts after them.  Where no word contains the symbol
that the text after it begins with, the words can be read back; and so can the
lines of a text that are ended by a symbol none of them contains.
-/

namespace FormattedText

variable {α : Type*}

/-- The words, each followed by its text. -/
def fill : List (List α) → List (List α) → List α
  | text :: texts, word :: words => word ++ text ++ fill texts words
  | _, _ => []

/-- The text after each word begins with a symbol that the word does not contain. -/
def Delimited (texts words : List (List α)) : Prop :=
  List.Forall₂ (fun text word => ∃ stop, text.head? = some stop ∧ stop ∉ word) texts words

/-- Two words that end at the first of one symbol are the same word. -/
theorem append_cons_inj {stop : α} {word other rest rest' : List α} (absent : stop ∉ word)
    (absent' : stop ∉ other) (same : word ++ stop :: rest = other ++ stop :: rest') :
    word = other ∧ rest = rest' := by
  induction word generalizing other with
  | nil =>
      cases other with
      | nil => exact ⟨rfl, List.tail_eq_of_cons_eq same⟩
      | cons first other =>
          obtain rfl := List.head_eq_of_cons_eq same
          exact absurd List.mem_cons_self absent'
  | cons first word ih =>
      cases other with
      | nil =>
          obtain rfl := List.head_eq_of_cons_eq same
          exact absurd List.mem_cons_self absent
      | cons second other =>
          obtain rfl : first = second := List.head_eq_of_cons_eq same
          obtain ⟨rfl, rest⟩ := ih (fun member => absent (List.mem_cons_of_mem _ member))
            (fun member => absent' (List.mem_cons_of_mem _ member)) (List.tail_eq_of_cons_eq same)
          exact ⟨rfl, rest⟩

/-- A filled text gives its words back, and what stands after it. -/
theorem fill_inj {texts words others : List (List α)} {rest rest' : List α}
    (delimited : Delimited texts words) (delimited' : Delimited texts others)
    (same : fill texts words ++ rest = fill texts others ++ rest') :
    words = others ∧ rest = rest' := by
  induction delimited generalizing others with
  | nil =>
      cases delimited'
      exact ⟨rfl, same⟩
  | cons here _ ih =>
      cases delimited' with
      | cons here' later' =>
          obtain ⟨stop, first, absent⟩ := here
          obtain ⟨stop', first', absent'⟩ := here'
          obtain rfl : stop = stop' := Option.some.inj (first.symm.trans first')
          obtain ⟨text, rfl⟩ := List.head?_eq_some_iff.mp first
          simp only [fill, List.append_assoc, List.cons_append] at same
          obtain ⟨rfl, tails⟩ := append_cons_inj absent absent' same
          obtain ⟨rfl, rest⟩ := ih later' (List.append_cancel_left tails)
          exact ⟨rfl, rest⟩

theorem fill_append {texts words : List (List α)} (lengths : texts.length = words.length)
    (texts' words' : List (List α)) :
    fill (texts ++ texts') (words ++ words') = fill texts words ++ fill texts' words' := by
  induction texts generalizing words with
  | nil =>
      obtain rfl := List.length_eq_zero_iff.mp lengths.symm
      rfl
  | cons text texts ih =>
      cases words with
      | nil => cases lengths
      | cons word words =>
          simp only [List.cons_append, fill, ih (Nat.succ_inj.mp lengths), List.append_assoc]

/-- Nothing stands in a filled text but its words and the fixed ones. -/
theorem mem_fill {texts words : List (List α)} (delimited : Delimited texts words) (x : α) :
    x ∈ fill texts words ↔ x ∈ texts.flatten ∨ x ∈ words.flatten := by
  induction delimited with
  | nil => simp [fill]
  | cons _ _ ih =>
      simp only [fill, List.mem_append, List.flatten_cons, ih]
      tauto

/-! ## Lines -/

/-- A text of lines, each ended by a symbol. -/
def unlines (stop : α) (lines : List (List α)) : List α :=
  lines.flatMap fun line => line ++ [stop]

variable [DecidableEq α]

theorem splitOn_unlines {stop : α} {lines : List (List α)} (absent : ∀ line ∈ lines, stop ∉ line) :
    (unlines stop lines).splitOn stop = lines ++ [[]] := by
  induction lines with
  | nil => rfl
  | cons line lines ih =>
      obtain ⟨here, later⟩ := List.forall_mem_cons.mp absent
      have text : unlines stop (line :: lines) = line ++ stop :: unlines stop lines := by
        rw [unlines, List.flatMap_cons, List.append_assoc]
        rfl
      rw [text, List.splitOn_append_cons_self_of_not_mem here, ih later]
      rfl

/-- A text gives its lines back. -/
theorem unlines_inj {stop : α} {lines others : List (List α)} (absent : ∀ line ∈ lines, stop ∉ line)
    (absent' : ∀ line ∈ others, stop ∉ line) (same : unlines stop lines = unlines stop others) :
    lines = others := by
  have split : lines ++ [[]] = others ++ [[]] := by
    rw [← splitOn_unlines absent, ← splitOn_unlines absent', same]
  exact List.append_cancel_right split

/-- How many lines of a text contain a pattern. -/
def matchingLines (stop : α) (pattern text : List α) : Nat :=
  (text.splitOn stop).countP fun line => pattern <:+: line

theorem matchingLines_unlines {stop : α} {pattern : List α} (something : pattern ≠ [])
    {lines : List (List α)} (absent : ∀ line ∈ lines, stop ∉ line) :
    matchingLines stop pattern (unlines stop lines) =
      lines.countP fun line => pattern <:+: line := by
  have last : ¬ pattern <:+: ([] : List α) := fun found => something (List.infix_nil.mp found)
  rw [matchingLines, splitOn_unlines absent, List.countP_append, List.countP_singleton,
    if_neg (by simpa using last), Nat.add_zero]

/-! ## Numbers -/

/-- A number is printed in digits. -/
theorem notMem_toDigits {c : Char} (other : c.isDigit = false) (n : Nat) :
    c ∉ Nat.toDigits 10 n := by
  intro member
  rw [Nat.isDigit_of_mem_toDigits (by decide) (by decide) member] at other
  cases other

theorem toDigits_injective : Function.Injective (Nat.toDigits 10) := by
  intro n m same
  rw [← Nat.ofDigitChars_ten_toDigits (n := n), same, Nat.ofDigitChars_ten_toDigits]

end FormattedText
