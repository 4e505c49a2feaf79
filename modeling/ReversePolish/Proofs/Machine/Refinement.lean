import ReversePolish.Proofs.Machine.Invariant

/-! # The machine on bytes does what the machine without memory does

`Machine.Corresponds` relates a machine to one whose stack is a list: the region of
memory above the stack address holds that list, and the other registers agree. A
step keeps the correspondence as long as the word to be fetched is the one that the
abstract program has (`Cpu.corresponds_afterStep`). On a loaded program it always is,
since no step writes to the code, so that all states of both runs correspond
(`Machine.corresponds_steps`).
-/

namespace ReversePolish

/-- A machine whose stack is a given list, top first, and whose other registers are
those of a machine without memory. -/
structure Machine.Corresponds (machine : Machine) (abstract : AbstractMachine) : Prop where
  stack : machine.memory.Holds machine.sp abstract.stack
  pc : machine.pc = abstract.pc
  status : machine.status = abstract.status
  fault : machine.fault = abstract.fault

namespace Cpu

open AbstractMachine

variable {cpu : Cpu} {abstract : AbstractMachine} {program : Int → Int}

/-- **A step keeps the correspondence** if both machines find the same word at their
address. -/
theorem corresponds_afterStep (corresponds : cpu.toMachine.Corresponds abstract)
    (writable : Text.Writable cpu.pc)
    (same : 0 ≤ cpu.pc → cpu.pc < memorySize → cpu.memory.wordAt cpu.pc = program cpu.pc) :
    cpu.afterStep.toMachine.Corresponds (abstract.step program) := by
  obtain ⟨stack, pc, status, fault⟩ := corresponds
  have found_eq := instructionAt_congr same
  rcases step_cases stack writable with ⟨stopped, stepped⟩ |
    ⟨running, instruction, remaining, next, line, after, found, performs, stepped, summary⟩ |
    ⟨running, cause, failed, stepped⟩
  · rw [afterStep_of_ok stepped, AbstractMachine.step_of_stopped (by rwa [← status])]
    exact ⟨stack, pc, status, fault⟩
  · have performed : performAt program abstract.pc abstract.stack = .ok (remaining, next) := by
      rw [performAt, ← pc, ← found_eq, found]
      exact perform_eq_ok_iff.mpr ⟨line, performs⟩
    rw [afterStep_of_ok stepped, step_of_performAt (by rwa [← status]) performed]
    refine ⟨summary.holds, ?_, summary.status_eq, summary.fault.trans fault⟩
    rw [← pc]
    exact summary.pc
  · have abstract_failed : performAt program abstract.pc abstract.stack = .error cause := by
      rw [performAt, ← pc, ← found_eq]
      exact failed
    rw [afterStep_of_error stepped, step_of_failed (by rwa [← status]) abstract_failed, ← pc]
    exact ⟨stack, rfl, rfl, rfl⟩

variable {words : List Int} {machine : Machine}

theorem corresponds_starting (loaded : machine.Loaded words) (traced : Bool) :
    (starting machine traced).toMachine.Corresponds {} where
  stack := Memory.holds_nil_iff.mpr loaded.sp
  pc := loaded.pc
  status := loaded.status
  fault := loaded.fault

/-- The word that a run comes to is the one that the program has there. -/
theorem wordAt_reached (loaded : machine.Loaded words) (traced : Bool) (count : Nat)
    (inside : (reached machine traced count).pc < memorySize) :
    (reached machine traced count).memory.wordAt (reached machine traced count).pc =
      programWord words (reached machine traced count).pc := by
  have sound := sound_reached loaded traced count
  apply Memory.wordAt_eq
  rw [sound.code _ sound.origin_le_pc]
  exact loaded.code _ sound.origin_le_pc inside

/-- All states of a run from a loaded program correspond. -/
theorem corresponds_reached (loaded : machine.Loaded words) (traced : Bool) (count : Nat) :
    (reached machine traced count).toMachine.Corresponds
      (steps (programWord words) count {}) := by
  induction count with
  | zero => exact corresponds_starting loaded traced
  | succ count ih =>
      rw [reached_succ, steps_succ]
      exact corresponds_afterStep ih (sound_reached loaded traced count).ready.writable
        fun _ inside => wordAt_reached loaded traced count inside

end Cpu

section Accepted

variable {image : Bytes} {words : List Int} {machine : Machine}

/-- **Refinement.** The bytes of any program that is accepted run as its words do on
the machine without memory, step for step, faults included. -/
theorem Machine.corresponds_steps (accepted : Machine.load image = .ok machine)
    (unpacked : Bytecode.unpack image = .ok words) (traced : Bool) (count : Nat) :
    (Cpu.reached machine traced count).toMachine.Corresponds
      (AbstractMachine.steps (programWord words) count {}) := by
  obtain ⟨found, unpacked', loaded⟩ := Machine.exists_loaded accepted
  obtain rfl : found = words := Except.ok.inj (unpacked'.symm.trans unpacked)
  exact Cpu.corresponds_reached loaded traced count

/-- The program of a calculation that uses every operator. -/
def operatorsImage : Bytes :=
  [0, 0, 0, 2, 0, 0, 0, 9, 0x40, 0, 0, 2, 0, 0, 0, 5, 0x40, 0, 0, 1, 0, 0, 0, 3, 0x40, 0, 0, 3,
    0, 0, 0, 4, 0x40, 0, 0, 4, 0x40, 0, 0, 0]

/-- A difference, a sum and a product, a quotient that is not exact, and the halt. -/
theorem Machine.corresponds_of_operators :
    ∃ machine, Machine.load operatorsImage = .ok machine ∧
      (Cpu.reached machine false 3).toMachine.Corresponds { stack := [-7], pc := 103 } ∧
      (Cpu.reached machine false 5).toMachine.Corresponds { stack := [-2], pc := 105 } ∧
      (Cpu.reached machine false 7).toMachine.Corresponds { stack := [-6], pc := 107 } ∧
      (Cpu.reached machine false 9).toMachine.Corresponds { stack := [-1], pc := 109 } ∧
      (Cpu.reached machine false 10).toMachine.Corresponds
        { stack := [-1], pc := 110, status := .halted } := by
  have unpacked : Bytecode.unpack operatorsImage =
      .ok [2, 9, 0x40000002, 5, 0x40000001, 3, 0x40000003, 4, 0x40000004, 0x40000000] := rfl
  obtain ⟨machine, accepted⟩ : ∃ machine, Machine.load operatorsImage = .ok machine := ⟨_, rfl⟩
  have corresponds := Machine.corresponds_steps accepted unpacked false
  exact ⟨machine, accepted, corresponds 3, corresponds 5, corresponds 7, corresponds 9,
    corresponds 10⟩

end Accepted

end ReversePolish
