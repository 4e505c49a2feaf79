import ReversePolish.Instruction.Basic
import ReversePolish.Instruction.Bytecode

/-! # Faults

A fault stops the machine. It has a cause and, once a step has met it, the
address of the instruction at fault, which its message then leads with.
-/

namespace ReversePolish

/-- Why the machine cannot go on. -/
inductive FaultCause where
  | illegal (reason : IllegalWord)
  | reserved (payload : Int)
  /-- An operation that needs two values met fewer. -/
  | stackUnderflow (needed : String) (depth : Int)
  | stackOverflow (depth : Int)
  | divisionByZero
  | pcOutOfBounds (pc : Int)
  deriving Repr, DecidableEq

namespace FaultCause

/-- The name of the kind of fault. -/
def kind : FaultCause → String
  | illegal _ => "IllegalInstruction"
  | reserved _ => "ReservedInstruction"
  | stackUnderflow _ _ => "StackUnderflow"
  | stackOverflow _ => "StackOverflow"
  | divisionByZero => "DivisionByZero"
  | pcOutOfBounds _ => "PcOutOfBounds"

/-- The text that tells a cause. -/
def message : FaultCause → String
  | illegal reason => reason.message
  | reserved payload => s!"reserved instruction {(Instruction.reserved payload).render}"
  | stackUnderflow needed depth => s!"{needed} needs two values, stack holds {depth}"
  | stackOverflow depth => s!"stack full ({depth} values)"
  | divisionByZero => "division by zero"
  | pcOutOfBounds pc => s!"no memory at {pc}"

/-- The text of a cause is written: no number in it has too many digits. -/
def Writable : FaultCause → Prop
  | illegal (.tooWide number) | illegal (.unknownOpcode number _) => Text.Writable number
  | stackUnderflow _ number | stackOverflow number => Text.Writable number
  | pcOutOfBounds number => Text.Writable number
  | _ => True

instance : (cause : FaultCause) → Decidable cause.Writable
  | illegal (.tooWide number) | illegal (.unknownOpcode number _) =>
      inferInstanceAs (Decidable (Text.Writable number))
  | stackUnderflow _ number | stackOverflow number | pcOutOfBounds number =>
      inferInstanceAs (Decidable (Text.Writable number))
  | illegal (.invalidTag _) | reserved _ | divisionByZero => .isTrue trivial

end FaultCause

/-- A cause, and the address of the instruction at fault if a step met it. -/
structure Fault where
  cause : FaultCause
  pc : Option Int := none
  deriving Repr, DecidableEq

/-- The text of a fault: the bare cause, or its kind and address before it. -/
def Fault.message (fault : Fault) : String :=
  match fault.pc with
  | none => fault.cause.message
  | some pc => s!"{fault.cause.kind} at pc={pc}: {fault.cause.message}"

/-- Why a run, or one operation of it, gives no result. -/
inductive Failure where
  | format (error : FormatError)
  | fault (fault : Fault)
  | storage (error : StorageError)
  /-- A quotient by zero was asked for. -/
  | zeroDivisor
  /-- A number in the text of a fault has too many digits. -/
  | tooManyDigits
  deriving Repr, DecidableEq

end ReversePolish
