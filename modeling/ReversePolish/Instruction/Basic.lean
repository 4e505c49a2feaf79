import ReversePolish.Instruction.Opcode
import ReversePolish.Text.Numeral
import ReversePolish.Word.Basic

/-! # Instructions

An instruction is what a word says to the machine. `decode` reads a word and
tells the words that say nothing apart by cause; a word too long to be told of in
a message has no cause. `Instruction.render` writes an instruction as a listing
does.
-/

namespace ReversePolish

/-- What a word says to the machine. -/
inductive Instruction where
  | push (value : Int)
  | primitive (opcode : Opcode)
  /-- A word of the tag set aside for negative literals; no meaning is given to
  its payload. -/
  | reserved (payload : Int)
  deriving Repr, DecidableEq, Inhabited

namespace Instruction

/-- The tag of an instruction's word. -/
def tag : Instruction → Tag
  | push _ => .literal
  | primitive _ => .primitive
  | reserved _ => .negative

/-- The payload of an instruction's word. -/
def payload : Instruction → Int
  | push value => value
  | primitive opcode => opcode.code
  | reserved payload => payload

/-- The word of an instruction. -/
def toWord (instruction : Instruction) : Int :=
  Word.make instruction.tag.bits instruction.payload

/-- A word as a listing writes it when it is not an instruction. -/
def renderWord (word : Int) : String := s!".word 0x{Text.hexWord word}"

/-- An instruction as a listing writes it. -/
def render : Instruction → String
  | push value => s!"push {value}"
  | primitive opcode => opcode.mnemonic
  | reserved payload => renderWord (reserved payload).toWord

end Instruction

/-- The word that stops the machine. -/
def haltWord : Int := (Instruction.primitive .halt).toWord

/-- The word that pushes a literal, if the literal is in range. -/
def encodeLiteral? (value : Int) : Option Int :=
  if 0 ≤ value ∧ value < literalLimit then some (Instruction.push value).toWord else none

/-- The word of the opcode with a number, if there is one. -/
def encodeCode? (code : Int) : Option Int :=
  (Opcode.ofCode? code).map fun opcode => (Instruction.primitive opcode).toWord

/-- Why a word is no instruction. -/
inductive IllegalWord where
  | tooWide (word : Int)
  | unknownOpcode (payload word : Int)
  | invalidTag (word : Int)
  deriving Repr, DecidableEq

/-- The text that tells why a word is no instruction. -/
def IllegalWord.message : IllegalWord → String
  | tooWide word => s!"word {word} does not fit 32 bits"
  | unknownOpcode payload word => s!"unknown opcode {payload} in 0x{Text.hexWord word}"
  | invalidTag word => s!"invalid tag in 0x{Text.hexWord word}"

/-- Why a word is not read. -/
inductive DecodeError where
  | illegal (reason : IllegalWord)
  /-- The word has more digits than its message could tell. -/
  | tooManyDigits
  deriving Repr, DecidableEq

/-- The instruction in a word. -/
def decode (word : Int) : Except DecodeError Instruction :=
  if Word.Fits word then
    let payload := Word.payload word
    match Word.tag word with
    | .literal => .ok (.push payload)
    | .primitive =>
        match Opcode.ofCode? payload with
        | some opcode => .ok (.primitive opcode)
        | none => .error (.illegal (.unknownOpcode payload word))
    | .negative => .ok (.reserved payload)
    | .invalid => .error (.illegal (.invalidTag word))
  else if Text.Writable word then .error (.illegal (.tooWide word))
  else .error .tooManyDigits

/-- A word as a listing shows it: as its instruction, or as a bare word. A word
too long to be told of is not shown. -/
def disassembleWord? (word : Int) : Option String :=
  match decode word with
  | .ok instruction => some instruction.render
  | .error (.illegal _) => some (Instruction.renderWord word)
  | .error .tooManyDigits => none

end ReversePolish
