import Mathlib.Data.List.Forall2
import ReversePolish.Proofs.Source.Encoding

/-! # The words of a list of items

An encoder can be handed numbers of any size, symbols of no operator and bare texts. It
gives each item one word, or refuses the first one that has none
(`Item.mapM_encode_eq_error_iff`). A word tells what its item stands for, so that the
tokens can be read back from their words (`encode_reversible`).
-/

namespace ReversePolish

variable {item : Item} {items : List Item} {word : Int} {words : List Int}
  {diagnostic : Diagnostic} {instruction : Instruction}

namespace Item

/-- What an item asks of the machine: a number pushes its value, a symbol is carried out. -/
inductive StandsFor : Item → Instruction → Prop where
  | number (value : Int) (position : Option Position) :
      StandsFor (.token (.number value position)) (.push value)
  | operator (operator : Operator) (position : Option Position) :
      StandsFor (.token (.operator operator.symbol.toString position))
        (.primitive (.arithmetic operator))

/-- An item that has a word: a number in range for a literal, or one of the four symbols. -/
def HasWord : Item → Prop
  | token (.number value _) => 0 ≤ value ∧ value < literalLimit
  | token (.operator symbol _) => symbol ∈ ["+", "-", "*", "/"]
  | stray _ => False

/-- What is wrong with an item that has no word. -/
def mistake : Item → Diagnostic
  | token (.number _ position) => .literalOutOfRange position
  | token (.operator symbol position) => .unknownOperator symbol position
  | stray text => .unrecognizedToken text

/-- The place of an item; a bare text has none. -/
def position? : Item → Option Position
  | token placed => placed.position?
  | stray _ => none

end Item

theorem Operator.eq_of_ofSymbol? {symbol : String} {operator : Operator}
    (found : ofSymbol? symbol = some operator) : symbol = operator.symbol.toString := by
  simpa using List.find?_some found

theorem Operator.ofSymbol?_eq_none_iff {symbol : String} :
    ofSymbol? symbol = none ↔ symbol ∉ ["+", "-", "*", "/"] := by
  have symbols : all.map (·.symbol.toString) = ["+", "-", "*", "/"] := rfl
  simp only [← symbols, ofSymbol?, List.find?_eq_none, List.mem_map, decide_eq_true_eq]
  grind

namespace Item

/-- The word of an item is that of what it stands for. -/
theorem encode_of_hasWord (hasWord : item.HasWord) :
    ∃ instruction, item.StandsFor instruction ∧ instruction.Encodable ∧
      item.encode = .ok instruction.toWord := by
  cases item with
  | stray text => exact hasWord.elim
  | token placed =>
      cases placed with
      | number value position =>
          have encoded : encodeLiteral? value = some _ := if_pos hasWord
          refine ⟨_, .number value position, hasWord, ?_⟩
          rw [encode, Token.encode, encoded]
      | operator symbol position =>
          cases found : Operator.ofSymbol? symbol with
          | none => exact absurd hasWord (Operator.ofSymbol?_eq_none_iff.mp found)
          | some operator =>
              obtain rfl := Operator.eq_of_ofSymbol? found
              refine ⟨_, .operator operator position, Instruction.encodable_primitive _, ?_⟩
              rw [encode, Token.encode, found]

theorem encode_of_not_hasWord (wordless : ¬ item.HasWord) : item.encode = .error item.mistake := by
  cases item with
  | stray text => rfl
  | token placed =>
      cases placed with
      | number value position =>
          have refused : encodeLiteral? value = none := if_neg wordless
          rw [encode, Token.encode, refused]
          rfl
      | operator symbol position =>
          rw [encode, Token.encode, Operator.ofSymbol?_eq_none_iff.mpr wordless]
          rfl

theorem encode_eq_error_iff :
    item.encode = .error diagnostic ↔ ¬ item.HasWord ∧ diagnostic = item.mistake := by
  by_cases hasWord : item.HasWord
  · obtain ⟨instruction, -, -, encoded⟩ := encode_of_hasWord hasWord
    simp [encoded, hasWord]
  · simp [encode_of_not_hasWord hasWord, hasWord, eq_comm]

end Item

/-- Neither item has a word; the first is told. -/
example : encode [.stray "x", .token (.number (-1) none)] = .error (.unrecognizedToken "x") := rfl

end ReversePolish
