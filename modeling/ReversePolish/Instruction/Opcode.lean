/-! # Operators and opcodes

The four arithmetic operators have a symbol in sources, a mnemonic in listings
and a number in words; `halt` has a mnemonic and a number only.
-/

namespace ReversePolish

/-- An arithmetic operator on the two topmost values of a stack. -/
inductive Operator where
  | add
  | sub
  | mul
  | div
  deriving Repr, DecidableEq, Inhabited

namespace Operator

/-- Every operator, in the order of their numbers. -/
def all : List Operator := [add, sub, mul, div]

/-- The character that stands for an operator in a source. -/
def symbol : Operator → Char
  | add => '+'
  | sub => '-'
  | mul => '*'
  | div => '/'

/-- The name of an operator in listings, traces and messages. -/
def mnemonic : Operator → String
  | add => "add"
  | sub => "sub"
  | mul => "mul"
  | div => "div"

/-- The operator a source symbol stands for. -/
def ofSymbol? (symbol : String) : Option Operator :=
  all.find? fun operator => symbol = operator.symbol.toString

@[simp] theorem ofSymbol?_symbol (operator : Operator) :
    ofSymbol? operator.symbol.toString = some operator := by
  cases operator <;> decide

end Operator

/-- An operation that a word of the primitive tag names. -/
inductive Opcode where
  | halt
  | arithmetic (operator : Operator)
  deriving Repr, DecidableEq, Inhabited

namespace Opcode

/-- Every opcode, in the order of their numbers. -/
def all : List Opcode := halt :: Operator.all.map arithmetic

/-- The number of an opcode. -/
def code : Opcode → Nat
  | halt => 0
  | arithmetic .add => 1
  | arithmetic .sub => 2
  | arithmetic .mul => 3
  | arithmetic .div => 4

/-- The name of an opcode in listings. -/
def mnemonic : Opcode → String
  | halt => "halt"
  | arithmetic operator => operator.mnemonic

/-- The opcode with a number. -/
def ofCode? (code : Int) : Option Opcode :=
  all.find? fun opcode => code = opcode.code

theorem mem_all (opcode : Opcode) : opcode ∈ all := by
  cases opcode with
  | halt => decide
  | arithmetic operator => cases operator <;> decide

theorem ofCode?_code (opcode : Opcode) : ofCode? opcode.code = some opcode := by
  cases opcode with
  | halt => decide
  | arithmetic operator => cases operator <;> decide

theorem eq_code_of_ofCode? {code : Int} {opcode : Opcode} (found : ofCode? code = some opcode) :
    code = opcode.code := by
  simpa using List.find?_some found

theorem ofCode?_eq_some_iff {code : Int} {opcode : Opcode} :
    ofCode? code = some opcode ↔ code = opcode.code := by
  refine ⟨eq_code_of_ofCode?, ?_⟩
  rintro rfl
  exact ofCode?_code opcode

end Opcode

end ReversePolish
