import Mathlib.Data.List.Induction
import ReversePolish.Source.Reading

/-! # The value of a run of digits

The lexer takes digits in one by one and lets a value that is out of range for a literal
be (`Lexer.saturate`). What it comes to is the value of the shortest start of the run
that is out of range, or of the whole run if none is
(`Lexer.saturate_eq_literalValue`).
-/

namespace ReversePolish

theorem decimalValue_append_singleton (digits : List Char) (digit : Char) :
    decimalValue (digits ++ [digit]) =
      decimalValue digits * 10 + (digit.toNat - '0'.toNat) := by
  rw [decimalValue, Nat.ofDigitChars_append, Nat.ofDigitChars_cons, Nat.ofDigitChars_nil,
    decimalValue, Nat.mul_comm]

/-- The values of the starts of a run of digits, shortest first. -/
def startValues (digits : List Char) : List Nat :=
  (List.range (digits.length + 1)).map fun count => decimalValue (digits.take count)

theorem literalValue_eq (digits : List Char) :
    literalValue digits =
      ((startValues digits).find? (literalLimit ≤ ·)).getD (decimalValue digits) := rfl

theorem startValues_append_singleton (digits : List Char) (digit : Char) :
    startValues (digits ++ [digit]) = startValues digits ++ [decimalValue (digits ++ [digit])] := by
  rw [startValues, List.length_append, List.length_singleton, List.range_succ, List.map_append,
    List.map_singleton, List.take_of_length_le (by simp)]
  congr 1
  apply List.map_congr_left
  intro count member
  rw [List.take_append_of_le_length (by have := List.mem_range.mp member; omega)]

/-- A start out of range is what a literal with one more digit still stands for; while
no start is out of range, a literal stands for all its digits. -/
theorem literalValue_append_singleton (digits : List Char) (digit : Char) :
    literalValue (digits ++ [digit]) =
      if literalValue digits < literalLimit then
        literalValue digits * 10 + (digit.toNat - '0'.toNat)
      else literalValue digits := by
  rw [literalValue_eq, literalValue_eq, startValues_append_singleton, List.find?_append]
  cases found : (startValues digits).find? (literalLimit ≤ ·) with
  | some value =>
      have large : literalLimit ≤ value := by simpa using List.find?_some found
      simp only [Option.some_or, Option.getD_some]
      rw [if_neg (by omega)]
  | none =>
      have small : decimalValue digits < literalLimit := by
        have whole : decimalValue digits ∈ startValues digits := by
          refine List.mem_map.mpr ⟨digits.length, List.mem_range.mpr (by omega), ?_⟩
          rw [List.take_length]
        simpa using List.find?_eq_none.mp found _ whole
      simp only [Option.none_or, Option.getD_none, if_pos small]
      rw [← decimalValue_append_singleton]
      rw [List.find?_singleton]
      split <;> rfl

/-- A run of digits stands for its whole value while that is in range, and for a value out of
range when it is not. -/
theorem literalValue_cases (digits : List Char) :
    decimalValue digits < literalLimit ∧ literalValue digits = decimalValue digits ∨
      literalLimit ≤ decimalValue digits ∧ literalLimit ≤ literalValue digits := by
  induction digits using List.reverseRecOn with
  | nil => exact .inl ⟨by decide, rfl⟩
  | append_singleton digits digit ih =>
      rw [decimalValue_append_singleton, literalValue_append_singleton]
      rcases ih with ⟨small, same⟩ | ⟨large, passed⟩
      · rw [if_pos (same ▸ small), same]
        omega
      · rw [if_neg (Nat.not_lt.mpr passed)]
        exact .inr ⟨by omega, passed⟩

theorem literalValue_of_lt {digits : List Char} (small : decimalValue digits < literalLimit) :
    literalValue digits = decimalValue digits := by
  rcases literalValue_cases digits with ⟨-, same⟩ | ⟨large, -⟩
  · exact same
  · omega

theorem literalValue_lt_iff {digits : List Char} :
    literalValue digits < literalLimit ↔ decimalValue digits < literalLimit := by
  rcases literalValue_cases digits with ⟨small, same⟩ | ⟨large, passed⟩
  · rw [same]
  · omega

/-- A value in range is taken out of range by less than a digit's place. -/
theorem literalValue_lt {digits : List Char} (inside : ∀ digit ∈ digits, digit.isDigit) :
    literalValue digits < 10 * literalLimit := by
  induction digits using List.reverseRecOn with
  | nil => decide
  | append_singleton digits digit ih =>
      obtain ⟨inside, last⟩ := List.forall_mem_append.mp inside
      have isDigit : digit.isDigit := last digit (List.mem_singleton_self digit)
      have small : digit.toNat - '0'.toNat < 10 := by
        have atMost : digit.toNat ≤ 57 := (Char.isDigit_iff_toNat.mp isDigit).2
        have zero : '0'.toNat = 48 := rfl
        omega
      rw [literalValue_append_singleton]
      split
      · omega
      · exact ih inside

namespace Lexer

/-- A value that digits are appended to while it is in range. -/
def saturate (value : Nat) (digits : List Char) : Nat :=
  digits.foldl (fun value digit =>
    if value < literalLimit then value * 10 + (digit.toNat - '0'.toNat) else value) value

theorem saturate_eq_literalValue (digits : List Char) :
    saturate 0 digits = literalValue digits := by
  induction digits using List.reverseRecOn with
  | nil => rfl
  | append_singleton digits digit ih =>
      rw [literalValue_append_singleton, ← ih, saturate, List.foldl_append]
      rfl

end Lexer

end ReversePolish
