import ReversePolish.CommandLine.Tool
import ReversePolish.Proofs.Machine.Execution

/-! # The emulator is safe

The exit code of the emulator tells apart a result, a fault and a refusal, and there is
one more, for what should never happen. Since every execution is safe it never does:
`Tool.emulator_safe` follows an arbitrary file from its bytes to the exit code.
-/

namespace ReversePolish

variable {image : Bytes}

namespace Plan

/-- A safe execution is told by the exit code of a result, a fault or a refusal. -/
theorem exit_emulate_le (image : Bytes) (quiet : Bool) : (emulate quiet image).exit ≤ 2 := by
  have safe := execute_safe image (!quiet)
  rw [emulate]
  generalize execute image (!quiet) = execution at safe
  cases safe with
  | empty => exact Nat.zero_le 2
  | value => exact Nat.zero_le 2
  | refused => exact Nat.le_refl 2
  | fault => exact Nat.le_succ 1

theorem output_emulate (image : Bytes) (quiet : Bool) : (emulate quiet image).output = none := by
  rw [emulate]
  generalize execute image (!quiet) = execution
  split <;> rfl

/-- A plan without an output changes nothing on the disk. -/
theorem carryOut_of_noOutput {plan : Plan} (noOutput : plan.output = none) (verbose : Bool)
    (disk : Disk) :
    ∃ report, plan.carryOut verbose disk = (report, disk) ∧ report.exit = plan.exit := by
  rw [carryOut, noOutput]
  exact ⟨_, rfl, rfl⟩

end Plan

/-- The emulator reports what its plan says, and writes no file. -/
theorem Tool.run_emulator {command : List String} {arguments : Arguments} {input : String}
    {disk : Disk} (parsed : Tool.emulator.parse command = .ok (arguments, input))
    (readable : disk.read input = .ok image) :
    ∃ report, Tool.emulator.run command disk = (.ok report, disk) ∧
      report.exit = (Plan.emulate arguments.quiet image).exit := by
  obtain ⟨report, carried, exit_eq⟩ :=
    Plan.carryOut_of_noOutput (Plan.output_emulate image arguments.quiet) arguments.verbose disk
  refine ⟨report, ?_, exit_eq⟩
  rw [Tool.run, parsed]
  simp only [readable, Tool.plan, carried]

/-- **Execution is safe on every input.** An execution comes to a value in range, to
nothing, to a refusal or to a fault inside the program; each of its steps completes or
faults, they come to an end, and the emulator tells so with an exit code of two at
most. -/
theorem Tool.emulator_safe (image : Bytes) (traced : Bool) :
    Execution.Safe image (execute image traced) ∧
      (∀ machine, Machine.load image = .ok machine →
        (∀ count, (Cpu.reached machine traced count).StepsSafely) ∧
          (Cpu.reached machine traced Cpu.stepLimit).status ≠ .running) ∧
      ∀ command arguments input disk, Tool.emulator.parse command = .ok (arguments, input) →
        disk.read input = .ok image →
          ∃ report, Tool.emulator.run command disk = (.ok report, disk) ∧ report.exit ≤ 2 := by
  refine ⟨execute_safe image traced, ?_, ?_⟩
  · intro machine accepted
    obtain ⟨words, -, loaded⟩ := Machine.exists_loaded accepted
    exact ⟨Cpu.stepsSafely_reached loaded traced, Cpu.stopped_reached loaded traced⟩
  · intro command arguments input disk parsed readable
    obtain ⟨report, ran, exit_eq⟩ := Tool.run_emulator parsed readable
    refine ⟨report, ran, ?_⟩
    rw [exit_eq]
    exact Plan.exit_emulate_le image _

/-- A file of a literal and a division, which finds a value too few. -/
theorem Tool.emulator_safe_of_underflow :
    ∃ report disk,
      Tool.emulator.run ["p"] ⟨[(["p"], [0, 0, 0, 7, 0x40, 0, 0, 4])], [], []⟩ =
        (.ok report, disk) ∧ report.exit ≤ 2 := by
  have safe := Tool.emulator_safe [0, 0, 0, 7, 0x40, 0, 0, 4] true
  obtain ⟨report, ran, exit_le⟩ := safe.2.2 ["p"] { operands := ["p"] } "p"
    ⟨[(["p"], [0, 0, 0, 7, 0x40, 0, 0, 4])], [], []⟩ rfl rfl
  exact ⟨report, _, ran, exit_le⟩

end ReversePolish
