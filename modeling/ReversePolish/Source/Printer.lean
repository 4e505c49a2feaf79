import ReversePolish.Instruction.Basic

/-! # Sources of programs

A word that can stand for a token is a literal or an operator's. Such words are written as a
source with one space between them: a literal in decimal, an operator by its symbol.
-/

namespace ReversePolish

/-- A word that stands for a token: a literal, or one of the four operators. -/
def IsTokenWord (word : Int) : Prop :=
  0 ≤ word ∧ word < literalLimit ∨ word ∈ [0x40000001, 0x40000002, 0x40000003, 0x40000004]

instance (word : Int) : Decidable (IsTokenWord word) :=
  inferInstanceAs (Decidable (_ ∨ _))

/-- A word as a source writes it: a literal in decimal, an operator by its symbol. -/
def sourceWord (word : Int) : List Char :=
  match decode word with
  | .ok (.push value) => Nat.toDigits 10 value.toNat
  | .ok (.primitive (.arithmetic operator)) => [operator.symbol]
  | _ => []

/-- Words as a source, with one space between them. -/
def sourceOf (words : List Int) : List Char := [' '].intercalate (words.map sourceWord)

end ReversePolish
