import ReversePolish.Proofs.Machine.Load
import ReversePolish.Proofs.Machine.Step

/-! # A step takes place as a whole or not at all

A running processor whose stack address lies from zero to the origin may hold anything
in its memory and have any instruction address, one outside memory too. Its step does
what the machine without memory does on the stack that its memory holds, or fails by
the same fault, and a fault leaves no trace of the attempt (`Cpu.step_atomic`). There is
one exception: an address with too many digits is no fault, and the processor is left
running where it was (`Cpu.step_leastUnwritable`).
-/

namespace ReversePolish

namespace Cpu

open AbstractMachine

variable {cpu : Cpu}

/-- A processor after a failed attempt at an instruction: nothing of the attempt is left
but its fault. -/
structure StoppedBy (before after : Cpu) (fault : Fault) : Prop where
  memory : after.memory = before.memory
  sp : after.sp = before.sp
  pc : after.pc = before.pc
  fault_pc : fault.pc = some before.pc
  status : after.status = .faulted
  fault_eq : after.fault = some fault
  traced : after.traced = before.traced
  trace : after.trace = before.trace

theorem stoppedBy_faulted (cpu : Cpu) (cause : FaultCause) :
    StoppedBy cpu (cpu.faulted cause) { cause, pc := some cpu.pc } where
  memory := rfl
  sp := rfl
  pc := rfl
  fault_pc := rfl
  status := rfl
  fault_eq := rfl
  traced := rfl
  trace := rfl

/-- **A failing step is atomic.** Where the stack of a running processor admits the
instruction at its address, the step completes; where it does not, the step fails by a
fault and by nothing else, and the processor is what it was but for that fault. This is
so as long as the address can be written; if it has too many digits, the step fails by
no fault and nothing changes at all. -/
theorem step_atomic (running : cpu.status = .running) (nonneg : 0 ≤ cpu.sp)
    (le : cpu.sp ≤ origin) :
    (Text.Writable cpu.pc → ∃ stack, cpu.memory.Holds cpu.sp stack ∧
      match performAt cpu.memory.wordAt cpu.pc stack with
      | .ok (remaining, status) =>
          ∃ after, step cpu = .ok () after ∧ after.memory.Holds after.sp remaining ∧
            after.pc = cpu.pc + 1 ∧ after.status = status
      | .error cause =>
          ∃ fault after, fault.cause = cause ∧ step cpu = .error (.fault fault) after ∧
            StoppedBy cpu after fault) ∧
    (¬ Text.Writable cpu.pc → step cpu = .error .tooManyDigits cpu) := by
  refine ⟨fun writable => ?_, step_of_not_writable running⟩
  obtain ⟨stack, holds⟩ := cpu.memory.exists_holds nonneg le
  refine ⟨stack, holds, ?_⟩
  rcases step_cases holds writable with ⟨stopped, -⟩ |
    ⟨-, instruction, remaining, status, line, after, found, performs, stepped, summary⟩ |
    ⟨-, cause, failed, stepped⟩
  · exact absurd running stopped
  · have performed : performAt cpu.memory.wordAt cpu.pc stack = .ok (remaining, status) := by
      rw [performAt, found]
      exact perform_eq_ok_iff.mpr ⟨line, performs⟩
    rw [performed]
    exact ⟨after, stepped, summary.holds, summary.pc, summary.status_eq⟩
  · rw [failed]
    exact ⟨_, _, rfl, stepped, stoppedBy_faulted cpu cause⟩

/-- A processor about to divide zero by zero. -/
def dividing : Cpu := { Machine.ofQuads [⟨0x40, 0, 0, 4⟩] with sp := 98, traced := true }

theorem step_atomic_of_division :
    ∃ after, step dividing = .error (.fault { cause := .divisionByZero, pc := some 100 }) after ∧
      StoppedBy dividing after { cause := .divisionByZero, pc := some 100 } := by
  obtain ⟨whole, -⟩ := @step_atomic dividing rfl (by decide) (by decide)
  obtain ⟨stack, holds, outcome⟩ := whole (Text.writable_of_lt (by decide))
  have loaded : Machine.Loaded [0x40000004] (Machine.ofQuads [⟨0x40, 0, 0, 4⟩]) :=
    @Machine.loaded_ofQuads [⟨0x40, 0, 0, 4⟩] (by decide)
  have zero {address : Int} (nonneg : 0 ≤ address) (below : address < origin) :
      dividing.memory.readValue address = .ok 0 := by
    rw [Memory.readValue_eq_map_readWord]
    exact map_eq_ok_iff.mpr ⟨0, loaded.room address nonneg below, rfl⟩
  have zeros : dividing.memory.Holds 98 [0, 0] :=
    Memory.holds_cons_iff.mpr ⟨zero (by decide) (by decide),
      Memory.holds_cons_iff.mpr ⟨zero (by decide) (by decide), Memory.holds_nil_iff.mpr rfl⟩⟩
  obtain rfl : [0, 0] = stack := Except.ok.inj (zeros.values.symm.trans holds.values)
  have at_pc : dividing.memory.wordAt 100 = 0x40000004 :=
    Memory.wordAt_eq (loaded.code 100 (by decide) (by decide))
  have failed : performAt dividing.memory.wordAt dividing.pc [0, 0] = .error .divisionByZero := by
    rw [performAt, instructionAt, show dividing.pc = 100 from rfl, at_pc]
    rfl
  rw [failed] at outcome
  obtain ⟨⟨cause, pc⟩, after, rfl, stepped, stopped⟩ := outcome
  obtain rfl : pc = some 100 := stopped.fault_pc
  exact ⟨after, stepped, stopped⟩

/-- A processor that has been sent to the least address with too many digits. -/
def farAway : Cpu := { pc := Text.leastUnwritable }

/-- The step from there neither completes nor faults, and the processor still runs. -/
theorem step_leastUnwritable :
    step farAway = .error .tooManyDigits farAway ∧ farAway.status = .running ∧
      farAway.fault = none :=
  ⟨step_of_not_writable rfl Text.not_writable_leastUnwritable, rfl, rfl⟩

end Cpu

end ReversePolish
