import ReversePolish.Machine.Basic
import ReversePolish.Machine.Stack

/-! # The machine without its memory

A machine whose stack is a list and whose program is a function from addresses
to words, so that no operation can reach the code. It is what the machine on
bytes is meant to be, and does its own reading of words (`instructionOf`) and its
own arithmetic.
-/

namespace ReversePolish

/-- A stack, the address of the next instruction, the status, and the fault that
stopped the machine. -/
structure AbstractMachine where
  stack : List Int := []
  pc : Int := origin
  status : Status := .running
  fault : Option Fault := none
  deriving Repr, DecidableEq

/-- The word at an address when the words of a program stand from the origin on
and zeros after them. -/
def programWord (words : List Int) (address : Int) : Int :=
  words.getD (address - origin).toNat 0

namespace AbstractMachine

/-- What an instruction makes of a stack, and whether the machine goes on. -/
def perform (stack : List Int) : Instruction → Except FaultCause (List Int × Status)
  | .push value => (·, .running) <$> Stack.push value stack
  | .primitive .halt => .ok (stack, .halted)
  | .primitive (.arithmetic operator) => (·, .running) <$> Stack.operate operator stack
  | .reserved payload => .error (.reserved payload)

/-- What a number stands for as a word of 32 bits. The literals come first, then the
opcodes, then the reserved words and last those of the invalid tag. -/
def instructionOf (word : Int) : Except FaultCause Instruction :=
  if word < 0 ∨ 0x100000000 ≤ word then .error (.illegal (.tooWide word))
  else if word < 0x40000000 then .ok (.push word)
  else if word = 0x40000000 then .ok (.primitive .halt)
  else if word = 0x40000001 then .ok (.primitive (.arithmetic .add))
  else if word = 0x40000002 then .ok (.primitive (.arithmetic .sub))
  else if word = 0x40000003 then .ok (.primitive (.arithmetic .mul))
  else if word = 0x40000004 then .ok (.primitive (.arithmetic .div))
  else if word < 0x80000000 then .error (.illegal (.unknownOpcode (word - 0x40000000) word))
  else if word < 0xc0000000 then .ok (.reserved (word - 0x80000000))
  else .error (.illegal (.invalidTag word))

/-- The instruction at an address. -/
def instructionAt (program : Int → Int) (address : Int) : Except FaultCause Instruction :=
  if 0 ≤ address ∧ address < memorySize then instructionOf (program address)
  else .error (.pcOutOfBounds address)

/-- One instruction of a running machine; a fault leaves the stack and the
address as they are. -/
def step (program : Int → Int) (machine : AbstractMachine) : AbstractMachine :=
  match machine.status with
  | .running =>
      match instructionAt program machine.pc >>= perform machine.stack with
      | .ok (stack, status) => { machine with stack, status, pc := machine.pc + 1 }
      | .error cause =>
          { machine with status := .faulted, fault := some { cause, pc := some machine.pc } }
  | _ => machine

/-- A number of steps. -/
def steps (program : Int → Int) : Nat → AbstractMachine → AbstractMachine
  | 0, machine => machine
  | count + 1, machine => steps program count (machine.step program)

end AbstractMachine

end ReversePolish
