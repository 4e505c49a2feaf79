import ReversePolish.Proofs.Instruction.Codec
import ReversePolish.Proofs.Machine.Abstract
import ReversePolish.Proofs.Machine.Operations

/-! # One step of a processor

A processor whose stack address lies from zero to the origin, and whose own address can
be written, has three ways to step (`Cpu.step_cases`): it is stopped and stays as it
is, it performs the instruction at its address and moves on by one, or it faults at
that instruction and keeps its memory, its stack and its trace. `Cpu.afterStep` is the
processor that a step leaves in any case, so that a run is its iterate. An address with
too many digits cannot be told of in a fault (`Cpu.step_of_not_writable`).
-/

namespace ReversePolish

/-- The word at an address of memory, and zero outside. -/
def Memory.wordAt (memory : Memory) (address : Int) : Int :=
  match memory.readWord address with
  | .ok word => word
  | .error _ => 0

theorem Memory.wordAt_eq {memory : Memory} {address word : Int}
    (read : memory.readWord address = .ok word) : memory.wordAt address = word := by
  rw [wordAt, read]

theorem Memory.fits_wordAt (memory : Memory) (address : Int) :
    Word.Fits (memory.wordAt address) := by
  rw [wordAt]
  split
  · next word read => exact fits_of_readWord read
  · decide

namespace Cpu

open AbstractMachine

variable {cpu : Cpu} {stack : List Int}

/-- A processor at fault: it stays at the instruction, and records the cause. -/
def faulted (cpu : Cpu) (cause : FaultCause) : Cpu :=
  { cpu with status := .faulted, fault := some { cause, pc := some cpu.pc } }

/-- A word in memory that is not read is told of in its fault. -/
theorem writable_illegal {word : Int} {reason : IllegalWord} (fits : Word.Fits word)
    (illegal : decode word = .error (.illegal reason)) :
    (FaultCause.illegal reason).Writable := by
  have lt := Word.payload_lt word
  have nonneg := Word.payload_nonneg word
  rw [decode, if_pos fits] at illegal
  simp only at illegal
  cases tag : Word.tag word with
  | literal | negative =>
      rw [tag] at illegal
      cases illegal
  | primitive =>
      rw [tag] at illegal
      simp only at illegal
      cases found : Opcode.ofCode? (Word.payload word) with
      | some opcode =>
          rw [found] at illegal
          cases illegal
      | none =>
          rw [found] at illegal
          cases illegal
          simp only [literalLimit] at lt
          exact Text.writable_of_lt (by omega)
  | invalid =>
      rw [tag] at illegal
      cases illegal
      trivial

/-- A running processor carries out the instruction at its address, or the attempt
fails and at most its address has changed. -/
theorem advance_cases (running : cpu.status = .running)
    (holds : cpu.memory.Holds cpu.sp stack) (writable : Text.Writable cpu.pc) :
    (∃ instruction remaining status line after,
      instructionAt cpu.memory.wordAt cpu.pc = .ok instruction ∧
      Performs stack instruction remaining status line ∧ advance cpu = .ok () after ∧
      Performed { cpu with pc := cpu.pc + 1 } after remaining status line) ∨
    ∃ cause pc, performAt cpu.memory.wordAt cpu.pc stack = .error cause ∧
      advance cpu = .error (.fault { cause }) { cpu with pc } := by
  by_cases inside : 0 ≤ cpu.pc ∧ cpu.pc < memorySize
  · obtain ⟨word, read⟩ := cpu.memory.exists_readWord inside.1 inside.2
    have at_pc := Memory.wordAt_eq read
    have fits := Memory.fits_of_readWord read
    rw [advance, bind_of_ok (fetch_apply read)]
    cases decoded : decode word with
    | error error =>
        obtain ⟨reason, rfl⟩ := exists_illegal_of_fits fits decoded
        refine .inr ⟨.illegal reason, cpu.pc + 1, ?_,
          raise_of_writable _ (writable_illegal fits decoded) _⟩
        rw [performAt, instructionAt_of_illegal inside.1 inside.2 (by rw [at_pc, decoded])]
        rfl
    | ok instruction =>
        have found : instructionAt cpu.memory.wordAt cpu.pc = .ok instruction :=
          instructionAt_of_decode inside.1 inside.2 (by rw [at_pc, decoded])
        cases performed : perform stack instruction with
        | error cause =>
            refine .inr ⟨cause, cpu.pc + 1, ?_, ?_⟩
            · rw [performAt, found]
              exact performed
            · exact dispatch_of_failed holds performed
        | ok outcome =>
            obtain ⟨line, performs⟩ := perform_eq_ok_iff.mp performed
            have fits : ∀ value, instruction = .push value → FitsValue value := by
              rintro value rfl
              exact fitsValue_of_decode_push decoded
            obtain ⟨after, dispatched, summary⟩ :=
              dispatch_of_performs { cpu with pc := cpu.pc + 1 } running holds fits performs
            exact .inl ⟨instruction, _, _, line, after, found, performs, dispatched, summary⟩
  · refine .inr ⟨.pcOutOfBounds cpu.pc, cpu.pc, ?_, ?_⟩
    · rw [performAt, instructionAt_of_outside inside]
      rfl
    · rw [advance, bind_of_error (fetch_of_outside inside writable)]

theorem step_of_stopped (stopped : cpu.status ≠ .running) : step cpu = .ok () cpu := by
  cases status : cpu.status with
  | running => exact absurd status stopped
  | halted => simp only [step, status]
  | faulted => simp only [step, status]

/-- A running processor whose address has too many digits fails there, and neither faults
nor changes. -/
theorem step_of_not_writable (running : cpu.status = .running) (long : ¬ Text.Writable cpu.pc) :
    step cpu = .error .tooManyDigits cpu := by
  have failed : advance cpu = .error .tooManyDigits cpu := by
    rw [advance, bind_of_error (fetch_of_not_writable long)]
  simp only [step, running, failed]

/-- **The ways to step.** A stopped processor stays as it is; a running one performs
the instruction at its address and moves on, or faults there. -/
theorem step_cases (holds : cpu.memory.Holds cpu.sp stack) (writable : Text.Writable cpu.pc) :
    (cpu.status ≠ .running ∧ step cpu = .ok () cpu) ∨
    (cpu.status = .running ∧ ∃ instruction remaining status line after,
      instructionAt cpu.memory.wordAt cpu.pc = .ok instruction ∧
      Performs stack instruction remaining status line ∧ step cpu = .ok () after ∧
      Performed { cpu with pc := cpu.pc + 1 } after remaining status line) ∨
    (cpu.status = .running ∧ ∃ cause, performAt cpu.memory.wordAt cpu.pc stack = .error cause ∧
      step cpu = .error (.fault { cause, pc := some cpu.pc }) (cpu.faulted cause)) := by
  by_cases running : cpu.status = .running
  · rcases advance_cases running holds writable with
      ⟨instruction, remaining, status, line, after, found, performs, advanced, summary⟩ |
      ⟨cause, pc, failed, advanced⟩
    · refine .inr (.inl ⟨running, instruction, remaining, status, line, after, found, performs, ?_,
        summary⟩)
      simp only [step, running, advanced]
    · refine .inr (.inr ⟨running, cause, failed, ?_⟩)
      simp only [step, running, advanced, faulted]
  · exact .inl ⟨running, step_of_stopped running⟩

/-- The processor that a step leaves, whether or not it fails. -/
def afterStep (cpu : Cpu) : Cpu :=
  match step cpu with
  | .ok _ after => after
  | .error _ after => after

theorem afterStep_of_ok {after : Cpu} (stepped : step cpu = .ok () after) :
    cpu.afterStep = after := by
  rw [afterStep, stepped]

theorem afterStep_of_error {after : Cpu} {failure : Failure}
    (stepped : step cpu = .error failure after) : cpu.afterStep = after := by
  rw [afterStep, stepped]

/-- However often it is asked to step, a stopped processor stays as it is. -/
theorem afterStep_iterate_of_stopped (stopped : cpu.status ≠ .running) (count : Nat) :
    afterStep^[count] cpu = cpu :=
  Function.iterate_fixed (afterStep_of_ok (step_of_stopped stopped)) count

/-- The memory of a processor holds a stack at its stack address. -/
def HasStack (cpu : Cpu) : Prop := ∃ stack, cpu.memory.Holds cpu.sp stack

theorem hasStack_iff : HasStack cpu ↔ 0 ≤ cpu.sp ∧ cpu.sp ≤ origin := by
  constructor
  · intro hasStack
    obtain ⟨stack, holds⟩ := hasStack
    exact ⟨holds.sp_nonneg, holds.sp_le⟩
  · intro bounds
    obtain ⟨nonneg, le⟩ := bounds
    exact cpu.memory.exists_holds nonneg le

/-- A processor that a step finds nothing amiss with: its memory holds a stack, and its
address can be written. -/
structure Ready (cpu : Cpu) : Prop where
  hasStack : HasStack cpu
  writable : Text.Writable cpu.pc

namespace Ready

theorem of_pc (hasStack : HasStack cpu) (nonneg : 0 ≤ cpu.pc) (le : cpu.pc ≤ memorySize) :
    Ready cpu where
  hasStack := hasStack
  writable := writable_address nonneg le

theorem afterStep (ready : Ready cpu) : Ready cpu.afterStep := by
  obtain ⟨⟨stack, holds⟩, writable⟩ := ready
  rcases step_cases holds writable with ⟨-, stepped⟩ |
    ⟨-, _, _, _, _, after, found, -, stepped, summary⟩ | ⟨-, cause, -, stepped⟩
  · rw [afterStep_of_ok stepped]
    exact ⟨⟨stack, holds⟩, writable⟩
  · have moved : after.pc = cpu.pc + 1 := summary.pc
    obtain ⟨nonneg, inside⟩ := inside_of_instructionAt found
    rw [afterStep_of_ok stepped]
    exact of_pc ⟨_, summary.holds⟩ (by omega) (by omega)
  · rw [afterStep_of_error stepped]
    exact ⟨⟨stack, holds⟩, writable⟩

theorem iterate (ready : Ready cpu) (count : Nat) : Ready (Cpu.afterStep^[count] cpu) := by
  induction count with
  | zero => exact ready
  | succ count ih =>
      rw [Function.iterate_succ_apply']
      exact ih.afterStep

end Ready

end Cpu

end ReversePolish
