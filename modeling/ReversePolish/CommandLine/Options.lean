import ReversePolish.Text.Quoted

/-! # Options of a command line

Arguments are options or operands, in any order. A long option may carry its
value after an equals sign; short options may be joined, and one that takes a
value takes the rest of its argument, or else the next argument, whatever that
is. Two dashes end the options. Of a repeated option the last wins.
-/

namespace ReversePolish

/-- An option that a tool may have. -/
inductive OptionName where
  | verbose
  | quiet
  | output
  deriving Repr, DecidableEq

namespace OptionName

/-- The long name of an option. -/
def long : OptionName → String
  | verbose => "--verbose"
  | quiet => "--quiet"
  | output => "--output"

/-- The letter of an option. -/
def short : OptionName → Char
  | verbose => 'v'
  | quiet => 'q'
  | output => 'o'

/-- Whether an option takes a value. -/
def takesValue : OptionName → Bool
  | output => true
  | _ => false

end OptionName

/-- What is wrong with a command line. -/
inductive UsageError where
  | unknownOption (argument : String)
  | missingValue (option : String)
  | surplusValue (option : String)
  | missingOperand
  | surplusOperand (argument : String)
  /-- The operand names no file that can be read. -/
  | noInput (argument : String)
  deriving Repr, DecidableEq

/-- The complaint about a command line that stands alone, without a reminder of
its form before it. -/
def UsageError.complaint? : UsageError → Option String
  | missingValue option => some s!"Error: Option {Text.quoted option} requires an argument."
  | surplusValue option => some s!"Error: Option {Text.quoted option} does not take a value."
  | _ => none

/-- What the arguments of a command say. -/
structure Arguments where
  verbose : Bool := false
  quiet : Bool := false
  output : Option String := none
  operands : List String := []
  deriving Repr, DecidableEq

namespace Arguments

/-- Switches a flag on. -/
def withFlag (arguments : Arguments) : OptionName → Arguments
  | .verbose => { arguments with verbose := true }
  | .quiet => { arguments with quiet := true }
  | .output => arguments

/-- What was read of an argument: all of it, or an option, named as it was
written, whose value is the next argument. -/
structure Progress where
  arguments : Arguments
  awaiting : Option String := none
  deriving Repr, DecidableEq

/-- Reads an argument that starts with two dashes. -/
def readLong (known : List OptionName) (arguments : Arguments) (argument : String) :
    Except UsageError Progress :=
  let name := String.ofList (argument.toList.takeWhile (· ≠ '='))
  let value := (argument.toList.dropWhile (· ≠ '=')).tail?.map String.ofList
  match known.find? fun option => option.long = name with
  | none => .error (.unknownOption name)
  | some option =>
      match option.takesValue, value with
      | true, some value => .ok { arguments := { arguments with output := some value } }
      | true, none => .ok { arguments, awaiting := some name }
      | false, some _ => .error (.surplusValue name)
      | false, none => .ok { arguments := arguments.withFlag option }

/-- Reads the letters of an argument that starts with one dash. -/
def readShort (known : List OptionName) (arguments : Arguments) :
    List Char → Except UsageError Progress
  | [] => .ok { arguments }
  | letter :: rest =>
      let name := String.ofList ['-', letter]
      match known.find? fun option => option.short = letter with
      | none => .error (.unknownOption name)
      | some option =>
          if option.takesValue then
            if rest = [] then .ok { arguments, awaiting := some name }
            else .ok { arguments := { arguments with output := some (String.ofList rest) } }
          else readShort known (arguments.withFlag option) rest

/-- Reads the rest of a command line, a value of an option first if one is
awaited. -/
def readFrom (known : List OptionName) (awaiting : Option String) (arguments : Arguments) :
    List String → Except UsageError Arguments
  | [] =>
      match awaiting with
      | some name => .error (.missingValue name)
      | none => .ok arguments
  | argument :: rest =>
      match awaiting, argument.toList with
      | some _, _ => readFrom known none { arguments with output := some argument } rest
      | none, ['-', '-'] => .ok { arguments with operands := arguments.operands ++ rest }
      | none, '-' :: '-' :: _ => do
          let progress ← readLong known arguments argument
          readFrom known progress.awaiting progress.arguments rest
      | none, '-' :: letter :: letters => do
          let progress ← readShort known arguments (letter :: letters)
          readFrom known progress.awaiting progress.arguments rest
      | none, _ =>
          readFrom known none { arguments with operands := arguments.operands ++ [argument] } rest

/-- Reads the arguments of a command that knows some options. -/
def read (known : List OptionName) (command : List String) : Except UsageError Arguments :=
  readFrom known none {} command

/-- The one operand of a command. -/
def operand (arguments : Arguments) : Except UsageError String :=
  match arguments.operands with
  | [] => .error .missingOperand
  | [operand] => .ok operand
  | _ :: surplus :: _ => .error (.surplusOperand surplus)

end Arguments

end ReversePolish
