import ReversePolish.Instruction.Bytecode
import ReversePolish.Position
import ReversePolish.Text.Numeral
import ReversePolish.Text.Quoted

/-! # What can be wrong with a text

A diagnostic tells why a source or a listing has no bytecode. Its message leads
with the place, where one is known.
-/

namespace ReversePolish

/-- Why a source or a listing has no bytecode. -/
inductive Diagnostic where
  /-- A source character that starts nothing. -/
  | unexpectedCharacter (position : Position) (char : Char)
  /-- A byte that is not part of well-formed UTF-8. -/
  | undecodableByte (position : Position) (byte : UInt8)
  | literalOutOfRange (position : Option Position)
  | unknownOperator (symbol : String) (position : Option Position)
  /-- A text where a token should be. -/
  | unrecognizedToken (text : String)
  | unknownOpcode (code : Int)
  | wordOutOfRange
  /-- The rest of a listing starts with no statement. -/
  | notAStatement (position : Position)
  /-- A character in a numeral that is no digit. -/
  | notADigit (char : Char)
  /-- A word that does not go into its bytes. -/
  | storage (error : StorageError)
  /-- A number in the text of a diagnostic has too many digits. -/
  | tooManyDigits
  /-- The lexer met a situation that it has no rule for. -/
  | jammed
  deriving Repr, DecidableEq

/-- What kind of failure a diagnostic tells of. -/
inductive DiagnosticKind where
  /-- A source that has no tokens. -/
  | lexical
  /-- A text that is put together wrongly. -/
  | compilation
  /-- A number or a code that no word stands for. -/
  | encoding
  /-- A failure that is not about the text. -/
  | internal
  deriving Repr, DecidableEq

namespace Diagnostic

/-- The kind of failure a diagnostic tells of. -/
def kind : Diagnostic → DiagnosticKind
  | unexpectedCharacter _ _ | undecodableByte _ _ => .lexical
  | unknownOperator _ _ | unrecognizedToken _ | notAStatement _ => .compilation
  | literalOutOfRange _ | unknownOpcode _ | wordOutOfRange => .encoding
  | notADigit _ | storage _ | tooManyDigits | jammed => .internal

/-- The place a diagnostic speaks of, if it is known. -/
def position? : Diagnostic → Option Position
  | unexpectedCharacter position _ => some position
  | undecodableByte position _ => some position
  | literalOutOfRange position => position
  | unknownOperator _ position => position
  | notAStatement position => some position
  | _ => none

/-- The character a diagnostic speaks of, if it speaks of one; a byte is told as the character
with its number. -/
def char? : Diagnostic → Option Char
  | unexpectedCharacter _ char => some char
  | undecodableByte _ byte => some (Char.ofNat byte.toNat)
  | _ => none

/-- The text of a diagnostic, without its place. -/
def text : Diagnostic → String
  | unexpectedCharacter _ char => s!"unexpected character {Text.quoted char.toString}"
  | undecodableByte _ byte => s!"undecodable byte 0x{Text.hexByte byte}"
  | literalOutOfRange _ => s!"literal out of range [0, {literalLimit})"
  | unknownOperator symbol _ => s!"unknown operator {Text.quoted symbol}"
  | unrecognizedToken text => s!"unrecognized token {Text.quoted text}"
  | unknownOpcode code => s!"unknown opcode {code}"
  | wordOutOfRange => "word does not fit 32 bits"
  | notAStatement _ => "syntax error: Expected end of text"
  | notADigit char => s!"invalid literal for int() with base 16: {Text.quoted char.toString}"
  | storage _ => "number does not fit its bytes"
  | tooManyDigits => Text.tooManyDigits
  | jammed => "no rule for the text"

/-- The text of a diagnostic, with its place before it if that is known. -/
def message (diagnostic : Diagnostic) : String :=
  match diagnostic.position? with
  | some position => s!"{position.render}: {diagnostic.text}"
  | none => diagnostic.text

end Diagnostic

end ReversePolish
