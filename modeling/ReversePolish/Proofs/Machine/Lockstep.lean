import ReversePolish.Proofs.Machine.Invariant

/-! # Two processors in lockstep

Two processors that hold the same stack and find the same instruction take the same
step, whatever else is in their memories and whether they are traced or not
(`Cpu.lockstep`). From this comes that tracing has no effect: a traced machine and one
that is not pass through the same states (`Cpu.toMachine_reached`).
-/

namespace ReversePolish

/-- The structural fields determine a machine. -/
theorem Machine.eq_of_fields {left right : Machine} (memory : left.memory = right.memory)
    (pc : left.pc = right.pc) (sp : left.sp = right.sp) (status : left.status = right.status)
    (fault : left.fault = right.fault) : left = right := by
  cases left
  cases right
  cases memory
  cases pc
  cases sp
  cases status
  cases fault
  rfl

namespace Cpu

open AbstractMachine

variable {left right leftAfter rightAfter : Cpu} {stack remaining : List Int} {status : Status}
  {line : TraceLine}

/-- **Two processors take the same step** if they hold the same stack and, while they
run, find the same instruction. -/
theorem lockstep (leftHolds : left.memory.Holds left.sp stack)
    (rightHolds : right.memory.Holds right.sp stack) (leftWritable : Text.Writable left.pc)
    (rightWritable : Text.Writable right.pc) (status : left.status = right.status)
    (same : left.status = .running → instructionAt left.memory.wordAt left.pc =
      instructionAt right.memory.wordAt right.pc) :
    (left.status ≠ .running ∧ left.afterStep = left ∧ right.afterStep = right) ∨
    (∃ remaining status line,
      Performed { left with pc := left.pc + 1 } left.afterStep remaining status line ∧
      Performed { right with pc := right.pc + 1 } right.afterStep remaining status line) ∨
    ∃ cause, left.afterStep = left.faulted cause ∧ right.afterStep = right.faulted cause := by
  rcases step_cases leftHolds leftWritable with ⟨stopped, stepped⟩ |
    ⟨running, instruction, remaining, next, line, after, found, performs, stepped, summary⟩ |
    ⟨running, cause, failed, stepped⟩
  · have rightStopped : right.status ≠ .running := by rwa [← status]
    rw [afterStep_of_ok stepped, afterStep_of_ok (step_of_stopped rightStopped)]
    exact .inl ⟨stopped, rfl, rfl⟩
  · have rightRunning : right.status = .running := by rw [← status, running]
    rw [same running] at found
    refine .inr (.inl ⟨remaining, next, line, by rwa [afterStep_of_ok stepped], ?_⟩)
    rcases step_cases rightHolds rightWritable with ⟨stopped, -⟩ |
      ⟨-, _, _, _, _, rightAfter, rightFound, rightPerforms, rightStepped, rightSummary⟩ |
      ⟨-, cause, failed, -⟩
    · exact absurd rightRunning stopped
    · obtain rfl := Except.ok.inj (found.symm.trans rightFound)
      obtain ⟨rfl, rfl, rfl⟩ := performs.unique rightPerforms
      rwa [afterStep_of_ok rightStepped]
    · rw [performAt, found] at failed
      exact absurd (failed.symm.trans (perform_eq_ok_iff.mpr ⟨_, performs⟩)) (by simp)
  · have rightRunning : right.status = .running := by rw [← status, running]
    rw [performAt, same running] at failed
    refine .inr (.inr ⟨cause, afterStep_of_error stepped, ?_⟩)
    rcases step_cases rightHolds rightWritable with ⟨stopped, -⟩ |
      ⟨-, _, _, _, _, _, rightFound, rightPerforms, -, -⟩ | ⟨-, _, rightFailed, rightStepped⟩
    · exact absurd rightRunning stopped
    · rw [rightFound] at failed
      exact absurd (failed.symm.trans (perform_eq_ok_iff.mpr ⟨_, rightPerforms⟩)) (by simp)
    · obtain rfl := Except.error.inj (failed.symm.trans rightFailed)
      exact afterStep_of_error rightStepped

/-- An instruction makes the same memory of the same memory. -/
theorem Performed.memory_eq {leftBefore rightBefore : Cpu}
    (leftSummary : Performed leftBefore leftAfter remaining status line)
    (rightSummary : Performed rightBefore rightAfter remaining status line)
    (same : leftBefore.memory = rightBefore.memory) : leftAfter.memory = rightAfter.memory := by
  have sp : leftAfter.sp = rightAfter.sp :=
    leftSummary.holds.sp_eq.trans rightSummary.holds.sp_eq.symm
  refine Memory.eq_of_readWord fun address => ?_
  by_cases written : address = leftAfter.sp ∧ address < origin
  · obtain ⟨rfl, below⟩ := written
    cases remaining with
    | nil =>
        have empty := Memory.holds_nil_iff.mp leftSummary.holds
        omega
    | cons top rest =>
        refine Memory.readWord_eq_of_readValue (Memory.holds_cons_iff.mp leftSummary.holds).1 ?_
        rw [sp]
        exact (Memory.holds_cons_iff.mp rightSummary.holds).1
  · have outside : address ≠ leftAfter.sp ∨ origin ≤ address := by omega
    rw [leftSummary.frame address outside, rightSummary.frame address (by rwa [← sp]), same]

/-- **A step does not heed the trace.** It makes the same machine of the same machine. -/
theorem toMachine_afterStep (ready : Ready left) (same : left.toMachine = right.toMachine) :
    left.afterStep.toMachine = right.afterStep.toMachine := by
  obtain ⟨⟨stack, holds⟩, writable⟩ := ready
  have memory : left.memory = right.memory := congrArg Machine.memory same
  have pc : left.pc = right.pc := congrArg Machine.pc same
  have sp : left.sp = right.sp := congrArg Machine.sp same
  have status : left.status = right.status := congrArg Machine.status same
  have fault : left.fault = right.fault := congrArg Machine.fault same
  have rightHolds : right.memory.Holds right.sp stack := by rwa [← memory, ← sp]
  rcases lockstep holds rightHolds writable (pc ▸ writable) status
    fun _ => by rw [memory, pc] with
    ⟨-, leftStays, rightStays⟩ | ⟨_, _, _, leftSummary, rightSummary⟩ |
    ⟨cause, leftFails, rightFails⟩
  · rw [leftStays, rightStays, same]
  · have pc_moved : left.pc + 1 = right.pc + 1 := by rw [pc]
    exact Machine.eq_of_fields (leftSummary.memory_eq rightSummary memory)
      (leftSummary.pc.trans (pc_moved.trans rightSummary.pc.symm))
      (leftSummary.holds.sp_eq.trans rightSummary.holds.sp_eq.symm)
      (leftSummary.status_eq.trans rightSummary.status_eq.symm)
      (leftSummary.fault.trans (fault.trans rightSummary.fault.symm))
  · rw [leftFails, rightFails]
    exact Machine.eq_of_fields memory pc sp rfl (by simp only [Cpu.faulted, pc])

/-- **Tracing has no effect.** A machine passes through the same states traced or not. -/
theorem toMachine_reached {words : List Int} {machine : Machine} (loaded : machine.Loaded words)
    (traced other : Bool) (count : Nat) :
    (reached machine traced count).toMachine = (reached machine other count).toMachine := by
  induction count with
  | zero => rfl
  | succ count ih =>
      rw [reached_succ, reached_succ]
      exact toMachine_afterStep (sound_reached loaded traced count).ready ih

end Cpu

end ReversePolish
