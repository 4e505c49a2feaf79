import ReversePolish.Proofs.Machine.Refinement
import ReversePolish.Proofs.Machine.Run

/-! # Outcomes of a program

A program is run for as many steps as can be needed, and tells what the last state
holds (`execute_of_reached`), which is the outcome of the machine without memory
(`execute_outcome`). No execution comes to anything but a value in range, nothing, a
refusal or a fault with an address (`execute_safe`).
-/

namespace ReversePolish

variable {image : Bytes} {words : List Int} {machine : Machine} {traced : Bool}

theorem execute_of_refused {error : FormatError} (refused : Machine.load image = .error error) :
    execute image traced = ⟨.error (.format error), #[]⟩ := by
  rw [execute, refused]

theorem execute_of_run {final : Cpu} {stack : List Int}
    (accepted : Machine.load image = .ok machine)
    (ran : (Cpu.starting machine traced).run =
      match final.fault with
      | some fault => .error (.fault fault) final
      | none => .ok stack.head? final) :
    execute image traced =
      { outcome :=
          match final.fault with
          | some fault => .error (.fault fault)
          | none => .ok stack.head?
        trace := final.trace } := by
  rw [Cpu.starting] at ran
  rw [execute, accepted]
  simp only [ran]
  cases final.fault <;> rfl

/-- An accepted program tells the fault of the state it ends in, or else what is on top
of the stack there. -/
theorem execute_of_reached {final : Cpu} {stack : List Int}
    (accepted : Machine.load image = .ok machine)
    (ends : Cpu.reached machine traced Cpu.stepLimit = final)
    (holds : final.memory.Holds final.sp stack) :
    execute image traced =
      { outcome :=
          match final.fault with
          | some fault => .error (.fault fault)
          | none => .ok stack.head?
        trace := final.trace } := by
  obtain ⟨words, -, loaded⟩ := Machine.exists_loaded accepted
  rw [Cpu.reached] at ends
  exact execute_of_run accepted
    (Cpu.run_apply (Cpu.sound_starting loaded traced).ready ends holds)

/-- What a machine that has stopped tells: its fault, or else the top of its stack. -/
def AbstractMachine.outcome (machine : AbstractMachine) : Except Failure (Option Int) :=
  match machine.fault with
  | some fault => .error (.fault fault)
  | none => .ok machine.stack.head?

/-- **An accepted program comes to the outcome of the machine without memory.** -/
theorem execute_outcome (accepted : Machine.load image = .ok machine)
    (loaded : machine.Loaded words) :
    (execute image traced).outcome =
      (AbstractMachine.steps (programWord words) Cpu.stepLimit {}).outcome := by
  -- The last state is named, so that nothing tries to compute it.
  obtain ⟨final, ends⟩ : ∃ final, Cpu.reached machine traced Cpu.stepLimit = final := ⟨_, rfl⟩
  have corresponds := Cpu.corresponds_reached loaded traced Cpu.stepLimit
  rw [ends] at corresponds
  rw [execute_of_reached accepted ends corresponds.stack, AbstractMachine.outcome,
    ← corresponds.fault]

/-- What an execution may come to: nothing, a value that fits, a refusal before
anything is traced, or a fault with the address of an instruction or the end of
memory. -/
inductive Execution.Safe (image : Bytes) : Execution → Prop where
  | empty (trace : Array TraceLine) : Safe image ⟨.ok none, trace⟩
  | value {value : Int} (fits : FitsValue value) (trace : Array TraceLine) :
      Safe image ⟨.ok (some value), trace⟩
  | refused {error : FormatError} (refused : Machine.load image = .error error) :
      Safe image ⟨.error (.format error), #[]⟩
  | fault {cause : FaultCause} {pc : Int} (origin_le : origin ≤ pc) (le : pc ≤ memorySize)
      (trace : Array TraceLine) : Safe image ⟨.error (.fault { cause, pc := some pc }), trace⟩

/-- **Every execution is safe**, whatever the bytes. -/
theorem execute_safe (image : Bytes) (traced : Bool) :
    Execution.Safe image (execute image traced) := by
  cases accepted : Machine.load image with
  | error error =>
      rw [execute_of_refused accepted]
      exact .refused accepted
  | ok machine =>
      obtain ⟨words, -, loaded⟩ := Machine.exists_loaded accepted
      have sound := Cpu.sound_reached loaded traced Cpu.stepLimit
      obtain ⟨final, ends⟩ : ∃ final, Cpu.reached machine traced Cpu.stepLimit = final := ⟨_, rfl⟩
      rw [ends] at sound
      obtain ⟨stack, holds⟩ := sound.hasStack
      rw [execute_of_reached accepted ends holds]
      cases present : final.fault with
      | some fault =>
          obtain ⟨cause, pc⟩ := fault
          obtain rfl : pc = some final.pc := sound.fault_pc _ present
          exact .fault sound.origin_le_pc sound.pc_le _
      | none =>
          cases stack with
          | nil => exact .empty _
          | cons top rest => exact .value (holds.fitsValue (List.mem_cons_self ..)) _

namespace Cpu

/-- A processor takes its next step to the end or to a fault at its instruction: no
word or value is out of range, no address outside memory, no divisor zero. -/
def StepsSafely (cpu : Cpu) : Prop :=
  step cpu = .ok () cpu.afterStep ∨
    ∃ cause, step cpu = .error (.fault { cause, pc := some cpu.pc }) cpu.afterStep

theorem Ready.stepsSafely {cpu : Cpu} (ready : Ready cpu) : StepsSafely cpu := by
  obtain ⟨⟨stack, holds⟩, writable⟩ := ready
  rcases step_cases holds writable with ⟨-, stepped⟩ | ⟨-, _, _, _, _, after, -, -, stepped, -⟩ |
    ⟨-, cause, -, stepped⟩
  · rw [StepsSafely, afterStep_of_ok stepped]
    exact .inl stepped
  · rw [StepsSafely, afterStep_of_ok stepped]
    exact .inl stepped
  · rw [StepsSafely, afterStep_of_error stepped]
    exact .inr ⟨cause, stepped⟩

/-- Every step of a loaded program is safe. -/
theorem stepsSafely_reached (loaded : machine.Loaded words) (traced : Bool) (count : Nat) :
    StepsSafely (reached machine traced count) :=
  (sound_reached loaded traced count).ready.stepsSafely

/-- The steps of a loaded program come to an end. -/
theorem stopped_reached (loaded : machine.Loaded words) (traced : Bool) :
    (reached machine traced stepLimit).status ≠ .running := by
  have sound := sound_starting loaded traced
  have nonneg : 0 ≤ (starting machine traced).pc := by
    have := sound.origin_le_pc
    omega
  rw [reached]
  exact stopped_of_limit sound.ready nonneg

end Cpu

end ReversePolish
