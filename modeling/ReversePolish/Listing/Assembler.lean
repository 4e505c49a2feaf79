import ReversePolish.Instruction.Basic
import ReversePolish.Listing.Statement

/-! # Bytecode from a listing

A listing's statements are commands to an assembler, which issues one word for
each. Values are looked at only when the whole listing is one, so a place that
starts no statement is reported before any value out of range.
-/

namespace ReversePolish

/-- An order to issue a word. -/
inductive Command where
  | push (value : Int)
  | op (code : Int)
  | word (value : Int)
  deriving Repr, DecidableEq

namespace Command

/-- The word a command asks for. -/
def encode : Command → Except Diagnostic Int
  | push value =>
      match encodeLiteral? value with
      | some issued => .ok issued
      | none => .error (.literalOutOfRange none)
  | op code =>
      match encodeCode? code with
      | some issued => .ok issued
      | none => if Text.Writable code then .error (.unknownOpcode code) else .error .tooManyDigits
  | word value => if Word.Fits value then .ok value else .error .wordOutOfRange

end Command

/-- The command of a statement, its numeral read. -/
def Statement.command : Statement → Except Diagnostic Command
  | push numeral => return .push (← Numeral.read numeral)
  | op opcode => return .op opcode.code
  | word numeral => return .word (← Numeral.read numeral)

/-- The words issued so far. -/
structure Assembler where
  words : Array Int := #[]
  deriving Repr, DecidableEq

namespace Assembler

/-- A computation on an assembler, which may fail and keeps what it issued. -/
abbrev Action (α : Type) : Type := EStateM Diagnostic Assembler α

/-- Issues the word of a command. -/
def issue (command : Command) : Action Unit :=
  match command.encode with
  | .ok word => modify fun assembler => { assembler with words := assembler.words.push word }
  | .error diagnostic => throw diagnostic

/-- Issues the words of commands in order, up to the first that fails. -/
def issueAll (commands : List Command) : Action Unit := commands.forM issue

end Assembler

/-- The commands of a listing. -/
def listingCommands (text : List Char) : Except Diagnostic (List Command) := do
  (← parseListing text).mapM Statement.command

/-- The words of a listing. -/
def assembleWords (text : List Char) : Except Diagnostic (List Int) := do
  match Assembler.issueAll (← listingCommands text) {} with
  | .ok () assembler => return assembler.words.toList
  | .error diagnostic _ => throw diagnostic

/-- The bytecode of a listing. -/
def assemble (text : List Char) : Except Diagnostic Bytes := do
  match Bytecode.pack (← assembleWords text) with
  | .ok bytes => return bytes
  | .error error => throw (.storage error)

/-- What a verbose run tells of commands: each bare word, up to the first command
that fails. -/
def commandLog : List Command → List String
  | [] => []
  | command :: rest =>
      match command, command.encode with
      | .word _, .ok word => s!"Raw word 0x{Text.hexWord word}" :: commandLog rest
      | _, .ok _ => commandLog rest
      | _, .error _ => []

/-- What a verbose run tells of a listing on the way to its bytecode. -/
def assembleLog (text : List Char) : List String :=
  match listingCommands text with
  | .ok commands => commandLog commands
  | .error _ => []

end ReversePolish
