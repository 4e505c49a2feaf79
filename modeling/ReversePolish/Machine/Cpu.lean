import ReversePolish.Machine.Basic

/-! # Operations of the machine

An operation acts on a processor: a machine and the trace of what it did. The
stack grows down from the origin, so its depth is the origin less the stack
address. An operation that fails keeps what it had changed before it failed;
`Cpu.step` is the one operation that looks at the status, and the one that
records a fault and takes the machine back to the instruction at fault.
-/

namespace ReversePolish

/-- One line of a trace. -/
inductive TraceLine where
  | push (value : Int)
  | halt
  | operation (operator : Operator) (second top : Int)
  /-- The top of the stack after an instruction, if the stack is not empty. -/
  | topOfStack (value : Option Int)
  deriving Repr, DecidableEq

/-- A trace line as it is printed. -/
def TraceLine.render : TraceLine → String
  | push value => s!"push {value}"
  | halt => "halt"
  | operation operator second top => s!"{operator.mnemonic} {second} {top}"
  | topOfStack none => "tos: empty"
  | topOfStack (some value) => s!"tos: {value}"

/-- A machine, whether it is traced, and the trace so far. -/
structure Cpu extends Machine where
  traced : Bool := false
  trace : Array TraceLine := #[]
  deriving DecidableEq

/-- The number an operator makes of the second value and the top, not yet
wrapped; a quotient by zero is none. -/
def Operator.combine (operator : Operator) (second top : Int) : Option Int :=
  match operator with
  | .add => some (second + top)
  | .sub => some (second - top)
  | .mul => some (second * top)
  | .div => truncatedQuotient second top

namespace Cpu

/-- A computation on a processor, which may fail and keeps what it changed. -/
abbrev Action (α : Type) : Type := EStateM Failure Cpu α

/-- Fails with a fault that no address is known of. The text of the fault is
written first, and that it cannot be is a failure of its own. -/
def raise {α : Type} (cause : FaultCause) : Action α :=
  if cause.Writable then throw (.fault { cause }) else throw .tooManyDigits

/-- Passes on the outcome of an access to memory. -/
def access {α : Type} (outcome : Except StorageError α) : Action α :=
  match outcome with
  | .ok value => pure value
  | .error error => throw (.storage error)

/-- The number of values on a stack. -/
def depth (cpu : Cpu) : Int := origin - cpu.sp

/-- Adds a line to the trace of a traced processor. -/
def emit (line : TraceLine) : Action Unit :=
  modify fun cpu => if cpu.traced then { cpu with trace := cpu.trace.push line } else cpu

/-- The value on top of the stack, if there is one. -/
def top? : Action (Option Int) := do
  let cpu ← get
  if cpu.depth = 0 then return none
  else return some (← access (cpu.memory.readValue cpu.sp))

/-- Adds the top of the stack to the trace. -/
def emitTop : Action Unit := do
  emit (.topOfStack (← top?))

/-- Reads the next word and moves past it. -/
def fetch : Action Int := do
  let cpu ← get
  if 0 ≤ cpu.pc ∧ cpu.pc < memorySize then
    let word ← access (cpu.memory.readWord cpu.pc)
    set { cpu with pc := cpu.pc + 1 }
    return word
  else raise (.pcOutOfBounds cpu.pc)

/-- Puts a value on the stack; the stack address moves before the value is
written. -/
def pushValue (value : Int) : Action Unit := do
  let cpu ← get
  let sp := cpu.sp - 1
  if 0 ≤ sp ∧ sp < origin then
    set { cpu with sp }
    let memory ← access (cpu.memory.writeValue sp value)
    set { cpu with sp, memory }
  else raise (.stackOverflow cpu.depth)

/-- Takes a value off the stack. -/
def popValue : Action Int := do
  let cpu ← get
  let value ← access (cpu.memory.readValue cpu.sp)
  set { cpu with sp := cpu.sp + 1 }
  return value

/-- The second value and the top, which stay on the stack; `needed` names the
operation in the fault for want of them. -/
def operands (needed : String) : Action (Int × Int) := do
  let cpu ← get
  if cpu.depth < 2 then raise (.stackUnderflow needed cpu.depth)
  else
    let second ← access (cpu.memory.readValue (cpu.sp + 1))
    let top ← access (cpu.memory.readValue cpu.sp)
    return (second, top)

/-- Replaces the two topmost values by what an operator makes of them. -/
def combine (operator : Operator) : Action Unit := do
  let (second, top) ← operands operator.mnemonic
  match operator.combine second top with
  | none => throw .zeroDivisor
  | some result =>
      let _ ← popValue
      let _ ← popValue
      pushValue (wrap result)
      emit (.operation operator second top)
      emitTop

/-- Divides the second value by the top, unless the top is zero. -/
def divide : Action Unit := do
  let (_, top) ← operands Operator.div.mnemonic
  if top = 0 then raise .divisionByZero
  else combine .div

/-- Carries out an operator. -/
def operate : Operator → Action Unit
  | .div => divide
  | operator => combine operator

/-- Puts a value on the stack and tells so. -/
def push (value : Int) : Action Unit := do
  pushValue value
  emit (.push value)
  emitTop

/-- Stops the machine. -/
def halt : Action Unit := do
  modify fun cpu => { cpu with status := .halted }
  emit .halt
  emitTop

/-- Carries out an instruction. -/
def dispatch : Instruction → Action Unit
  | .push value => push value
  | .primitive .halt => halt
  | .primitive (.arithmetic operator) => operate operator
  | .reserved payload => raise (.reserved payload)

/-- Fetches an instruction and carries it out. -/
def advance : Action Unit := do
  match decode (← fetch) with
  | .ok instruction => dispatch instruction
  | .error (.illegal reason) => raise (.illegal reason)
  | .error .tooManyDigits => throw .tooManyDigits

/-- Lets a running machine carry out one instruction; a fault stops it at that
instruction and is recorded with its address. -/
def step : Action Unit := fun cpu =>
  match cpu.status with
  | .running =>
      match advance cpu with
      | .error (.fault fault) after =>
          let fault := { fault with pc := some cpu.pc }
          .error (.fault fault)
            { after with pc := cpu.pc, status := .faulted, fault := some fault }
      | outcome => outcome
  | _ => .ok () cpu

/-- Steps while the machine runs, at most `limit` times. -/
def runFor : (limit : Nat) → Action Unit
  | 0 => pure ()
  | limit + 1 => do
      if (← get).status = .running then
        step
        runFor limit

/-- Steps enough to bring any machine to a stop: each step that does not stop it
moves on by one address. -/
def stepLimit : Nat := memorySize + 1

/-- Runs a machine until it stops; the result is the top of the stack, or the
recorded fault. -/
def run : Action (Option Int) := do
  runFor stepLimit
  match (← get).fault with
  | some fault => throw (.fault fault)
  | none => top?

end Cpu

end ReversePolish
