import ReversePolish.Machine.Fault
import ReversePolish.Machine.Memory

/-! # The machine before it runs

A machine is its memory and its registers. `Machine.load` places a program from
the origin on in memory that is otherwise zero.
-/

namespace ReversePolish

/-- Whether a machine still runs, and if not, how it stopped. -/
inductive Status where
  | running
  | halted
  | faulted
  deriving Repr, DecidableEq, Inhabited

/-- The name of a status in messages. -/
def Status.name : Status → String
  | running => "RUNNING"
  | halted => "HALTED"
  | faulted => "FAULTED"

/-- Memory and registers: the address of the next instruction, the address of
the top of the stack, the status, and the fault that stopped the machine. -/
structure Machine where
  memory : Memory := .zero
  pc : Int := origin
  sp : Int := origin
  status : Status := .running
  fault : Option Fault := none
  deriving DecidableEq

namespace Machine

/-- The machine whose memory holds the words from the origin on. -/
def ofQuads (quads : List Quad) : Machine where
  memory := Memory.zero.place origin quads

/-- The machine that a program's bytes make. -/
def load (image : Bytes) : Except FormatError Machine := do
  let quads ← Bytecode.quads image
  if origin + quads.length ≤ memorySize then return ofQuads quads
  else throw (.tooManyWords quads.length)

end Machine

end ReversePolish
