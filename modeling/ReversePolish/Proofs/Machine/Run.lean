import ReversePolish.Machine.Execution
import ReversePolish.Proofs.Machine.Step

/-! # Runs of a processor

A run takes steps while the processor runs. It ends where the same number of steps
ends that pays no heed to failures (`Cpu.run_apply`), since a processor that has
stopped stays as it is. A processor that still runs has moved on by one address a
step (`Cpu.pc_of_running`), so that the end of memory stops every run
(`Cpu.stopped_of_limit`).
-/

namespace ReversePolish

namespace Cpu

variable {cpu : Cpu} {stack : List Int} {count : Nat}

/-- A processor that runs after a step was running before it, and has moved on by one
address. -/
theorem pc_of_running_afterStep (ready : Ready cpu)
    (running : cpu.afterStep.status = .running) :
    cpu.status = .running ∧ cpu.afterStep.pc = cpu.pc + 1 ∧ 0 ≤ cpu.pc ∧ cpu.pc < memorySize := by
  obtain ⟨⟨stack, holds⟩, writable⟩ := ready
  rcases step_cases holds writable with ⟨stopped, stepped⟩ |
    ⟨before, _, _, _, _, after, found, -, stepped, summary⟩ | ⟨-, cause, -, stepped⟩
  · rw [afterStep_of_ok stepped] at running
    exact absurd running stopped
  · rw [afterStep_of_ok stepped]
    exact ⟨before, summary.pc, AbstractMachine.inside_of_instructionAt found⟩
  · rw [afterStep_of_error stepped, faulted] at running
    exact absurd running (by simp)

/-- While a processor runs, each step takes it on by one address inside memory. -/
theorem pc_of_running (ready : Ready cpu)
    (running : (afterStep^[count] cpu).status = .running) :
    (afterStep^[count] cpu).pc = cpu.pc + count ∧ (count = 0 ∨ cpu.pc + count ≤ memorySize) := by
  induction count with
  | zero => simp
  | succ count ih =>
      rw [Function.iterate_succ_apply'] at running ⊢
      obtain ⟨before, moved, -, inside⟩ :=
        pc_of_running_afterStep (ready.iterate count) running
      obtain ⟨pc_eq, -⟩ := ih before
      exact ⟨by omega, .inr (by omega)⟩

/-- The limit on the steps of a run is never what stops it. -/
theorem stopped_of_limit (ready : Ready cpu) (nonneg : 0 ≤ cpu.pc) :
    (afterStep^[stepLimit] cpu).status ≠ .running := by
  intro running
  have bound := (pc_of_running ready running).2
  simp only [stepLimit, memorySize] at bound
  omega

/-- Taking steps while the processor runs leads where steps regardless lead, and fails
only by the fault that stopped the processor. -/
theorem runFor_cases (ready : Ready cpu) (limit : Nat) :
    runFor limit cpu = .ok () (afterStep^[limit] cpu) ∨
      ∃ fault, (afterStep^[limit] cpu).fault = some fault ∧
        runFor limit cpu = .error (.fault fault) (afterStep^[limit] cpu) := by
  induction limit generalizing cpu with
  | zero => exact .inl rfl
  | succ limit ih =>
      rw [runFor, bind_of_ok (get_apply cpu), Function.iterate_succ_apply]
      have ready_next := ready.afterStep
      obtain ⟨⟨stack, holds⟩, writable⟩ := ready
      rcases step_cases holds writable with ⟨stopped, stepped⟩ |
        ⟨running, _, _, _, _, after, -, -, stepped, summary⟩ | ⟨running, cause, -, stepped⟩
      · rw [if_neg stopped, afterStep_of_ok stepped, afterStep_iterate_of_stopped stopped]
        exact .inl rfl
      · rw [afterStep_of_ok stepped] at ready_next
        rw [if_pos running, bind_of_ok stepped, afterStep_of_ok stepped]
        exact ih ready_next
      · have stopped : (cpu.faulted cause).status ≠ .running := by simp [faulted]
        rw [if_pos running, bind_of_error stepped, afterStep_of_error stepped,
          afterStep_iterate_of_stopped stopped]
        exact .inr ⟨_, rfl, rfl⟩

/-- **The outcome of a run** is the fault that stopped the processor, or else the top
of the stack it ended with. -/
theorem run_apply {final : Cpu} (ready : Ready cpu)
    (ends : afterStep^[stepLimit] cpu = final) (holds : final.memory.Holds final.sp stack) :
    run cpu =
      match final.fault with
      | some fault => .error (.fault fault) final
      | none => .ok stack.head? final := by
  have cases := runFor_cases ready stepLimit
  rw [ends] at cases
  rcases cases with completed | ⟨fault, present, failed⟩
  · rw [run, bind_of_ok completed, bind_of_ok (get_apply _)]
    cases final.fault with
    | none => exact top?_apply holds
    | some fault => rfl
  · rw [run, bind_of_error failed, present]

end Cpu

end ReversePolish
