import ReversePolish.Machine.Cpu

/-! # Runs of a program

`execute` loads a program and runs it to its end. `executionLog` lists what a
verbose run tells about itself on the way.
-/

namespace ReversePolish

/-- The outcome of a program, and the lines it traced. -/
structure Execution where
  outcome : Except Failure (Option Int)
  trace : Array TraceLine

/-- Loads a program and runs it, traced or not. -/
def execute (image : Bytes) (traced : Bool) : Execution :=
  match Machine.load image with
  | .error error => ⟨.error (.format error), #[]⟩
  | .ok machine =>
      match Cpu.run { machine with traced } with
      | .ok result cpu => ⟨.ok result, cpu.trace⟩
      | .error failure cpu => ⟨.error failure, cpu.trace⟩

namespace Cpu

/-- The registers, as a verbose run tells them. -/
def registers (cpu : Cpu) : String := s!"PC:{cpu.pc} SP:{cpu.sp} {cpu.status.name}"

/-- What a verbose run tells of at most `limit` steps: the registers after each
completed one, and the fault that ends them. -/
def stepLog : (limit : Nat) → Cpu → List String
  | 0, _ => []
  | limit + 1, cpu =>
      match cpu.status, step cpu with
      | .running, .ok () after => after.registers :: stepLog limit after
      | .running, .error (.fault fault) _ => [s!"Fault {fault.message}"]
      | _, _ => []

end Cpu

/-- What a verbose tool tells of reading a program's words. -/
def unpackLog (image : Bytes) : List String :=
  match Bytecode.quads image with
  | .ok quads => [s!"Unpacked {quads.length} words"]
  | .error _ => []

/-- What a verbose run of a program tells. -/
def executionLog (image : Bytes) : List String :=
  unpackLog image ++
    match Machine.load image with
    | .ok machine =>
        s!"Loaded {image.length / wordSize} words @ {origin}" ::
          Cpu.stepLog Cpu.stepLimit { machine with }
    | .error _ => []

end ReversePolish
