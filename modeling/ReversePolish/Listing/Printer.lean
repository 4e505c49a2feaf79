import ReversePolish.Instruction.Basic
import ReversePolish.Instruction.Bytecode

/-! # Listings of bytecode

A listing shows one word a line: its instruction, then in a comment its address
and its digits. Every line is a statement of the same word. There is no listing
if an address in it has too many digits to be written.
-/

namespace ReversePolish

/-- Places that an instruction takes on its line. -/
def instructionWidth : Nat := 20

/-- A line of a listing without its end, put together from the text of a word, the
text of its address and the word. -/
def listingLine (shown place : String) (word : Int) : String :=
  s!"{Text.spacePadded instructionWidth shown}// {place}: {Text.hexWord word}"

/-- The line of a word at an address, without its end. -/
def wordLine? (address word : Int) : Option String := do
  let shown ← disassembleWord? word
  let place ← Text.decimal? 4 address
  return listingLine shown place word

/-- The lines of words from an address on, without their ends. -/
def wordLines? (address : Int) : List Int → Option (List String)
  | [] => some []
  | word :: rest => do
      let line ← wordLine? address word
      let lines ← wordLines? (address + 1) rest
      return line :: lines

/-- The listing of words from an address on. -/
def listing? (address : Int) (words : List Int) : Option String :=
  (wordLines? address words).map fun lines => String.join (lines.map (· ++ "\n"))

/-- Why bytes have no listing. -/
inductive ListingError where
  | format (error : FormatError)
  /-- A number in the listing has too many digits. -/
  | tooManyDigits
  deriving Repr, DecidableEq

/-- The listing of a program whose first word stands at an address. -/
def disassemble (image : Bytes) (first : Int) : Except ListingError String :=
  match Bytecode.unpack image with
  | .error error => .error (.format error)
  | .ok words =>
      match listing? first words with
      | some text => .ok text
      | none => .error .tooManyDigits

end ReversePolish
