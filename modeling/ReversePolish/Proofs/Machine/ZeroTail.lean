import ReversePolish.Proofs.Machine.Halt

/-! # Runs that go on behind their program

Behind the words of a program stand zeros, and a zero is a literal. A run that gets there
pushes one value at each address (`AbstractMachine.InZeros.steps_zeros`) until there is no
room left on the stack or no address left in memory, whichever comes first
(`Cpu.runsOut_of_running`). So a program tells a result only if it halts at a halt of its own
(`Cpu.execute_behind_program`).
-/

namespace ReversePolish

namespace AbstractMachine

variable {program : Int → Int} {machine : AbstractMachine} {address : Int}

/-- A machine that has pushed zeros from an address on. -/
def withZeros (machine : AbstractMachine) (count : Nat) : AbstractMachine :=
  { machine with
    stack := List.replicate count 0 ++ machine.stack
    pc := machine.pc + count }

theorem withZeros_zero (machine : AbstractMachine) : machine.withZeros 0 = machine := by
  simp [withZeros]

theorem length_withZeros (machine : AbstractMachine) (count : Nat) :
    (machine.withZeros count).stack.length = count + machine.stack.length := by
  rw [withZeros, List.length_append, List.length_replicate]

theorem performAt_zero (zero : program address = 0) (nonneg : 0 ≤ address)
    (inside : address < memorySize) (stack : List Int) :
    performAt program address stack = (·, .running) <$> Stack.push 0 stack := by
  have decoded : decode (program address) = .ok (.push 0) := by rw [zero, decode_zero]
  rw [performAt, instructionAt_of_decode nonneg inside decoded]
  rfl

/-- A machine at fault where it is. -/
def faulted (machine : AbstractMachine) (cause : FaultCause) : AbstractMachine :=
  { machine with status := .faulted, fault := some { cause, pc := some machine.pc } }

/-- A machine that runs where only zeros follow. -/
structure InZeros (program : Int → Int) (machine : AbstractMachine) : Prop where
  running : machine.status = .running
  nonneg : 0 ≤ machine.pc
  zeros : ∀ address, machine.pc ≤ address → program address = 0

namespace InZeros

variable {count : Nat}

theorem withZeros (inZeros : InZeros program machine) (count : Nat) :
    InZeros program (machine.withZeros count) where
  running := inZeros.running
  nonneg := Int.add_nonneg inZeros.nonneg (Int.natCast_nonneg count)
  zeros address le := inZeros.zeros address (Int.le_trans (Int.le_add_of_nonneg_right
    (Int.natCast_nonneg count)) le)

/-- Where there is room for one more value, one more zero is pushed. -/
theorem step_of_room (inZeros : InZeros program machine) (inside : machine.pc < memorySize)
    (room : machine.stack.length < origin) : machine.step program = machine.withZeros 1 := by
  have pushed : Stack.push 0 machine.stack = .ok (0 :: machine.stack) :=
    Stack.push_eq_ok_iff.mpr ⟨room, rfl⟩
  have performed : performAt program machine.pc machine.stack =
      .ok (0 :: machine.stack, .running) := by
    rw [performAt_zero (inZeros.zeros _ (Int.le_refl _)) inZeros.nonneg inside, pushed]
    rfl
  rw [step_of_performAt inZeros.running performed, ← inZeros.running]
  rfl

/-- While there is room on the stack and in memory, the machine pushes zeros. -/
theorem steps_zeros (inZeros : InZeros program machine)
    (room : machine.stack.length + count ≤ origin) (inside : machine.pc + count ≤ memorySize) :
    steps program count machine = machine.withZeros count := by
  induction count with
  | zero => exact machine.withZeros_zero.symm
  | succ count ih =>
      have before := ih (by omega) (by omega)
      have pushes := (inZeros.withZeros count).step_of_room
        (show machine.pc + count < memorySize by omega)
        (by rw [length_withZeros]; omega)
      rw [steps_succ, before, pushes]
      simp only [AbstractMachine.withZeros, List.replicate_succ, List.replicate_zero,
        List.cons_append, List.nil_append, Int.add_assoc, Int.natCast_succ]
      rfl

/-- A full stack stops the machine. -/
theorem steps_of_full (inZeros : InZeros program machine)
    (full : machine.stack.length + count = origin) (inside : machine.pc + count < memorySize) :
    steps program (count + 1) machine =
      (machine.withZeros count).faulted (.stackOverflow origin) := by
  have reached := inZeros.withZeros count
  have deep : (machine.withZeros count).stack.length = origin := by
    rw [length_withZeros]
    omega
  have refused : Stack.push 0 (machine.withZeros count).stack = .error (.stackOverflow origin) :=
    Stack.push_eq_error_iff.mpr ⟨by omega, by rw [deep]⟩
  have failed : performAt program (machine.withZeros count).pc (machine.withZeros count).stack =
      .error (.stackOverflow origin) := by
    rw [performAt_zero (reached.zeros _ (Int.le_refl _)) reached.nonneg inside, refused]
    rfl
  rw [steps_succ, inZeros.steps_zeros (by omega) (by omega)]
  exact step_of_failed reached.running failed

/-- The end of memory stops the machine. -/
theorem steps_of_end (inZeros : InZeros program machine)
    (room : machine.stack.length + count ≤ origin) (ended : machine.pc + count = memorySize) :
    steps program (count + 1) machine =
      (machine.withZeros count).faulted (.pcOutOfBounds memorySize) := by
  have at_end : (machine.withZeros count).pc = memorySize := ended
  have failed : performAt program (machine.withZeros count).pc (machine.withZeros count).stack =
      .error (.pcOutOfBounds memorySize) := by
    rw [performAt, instructionAt_of_outside (by omega), at_end]
    rfl
  rw [steps_succ, inZeros.steps_zeros room (by omega)]
  exact step_of_failed (inZeros.withZeros count).running failed

end InZeros

end AbstractMachine

namespace Cpu

open AbstractMachine

variable {image : Bytes} {words : List Int} {machine : Machine} {traced : Bool} {count : Nat}

/-- How a run ends that goes on behind the words of its program, by their number and the
depth of its stack there: the stack is full at an address of memory, or memory ends before
that. -/
inductive RunsOut (image : Bytes) (machine : Machine) (traced : Bool) (length : Nat)
    (depth : Int) : Prop where
  | full (inside : origin + length + (origin - depth) < memorySize)
      (told : (execute image traced).outcome =
        .error (.fault
          { cause := .stackOverflow origin, pc := some (origin + length + (origin - depth)) }))
      (ends : (reached machine traced stepLimit).depth = origin) :
      RunsOut image machine traced length depth
  | ended (outside : memorySize ≤ origin + length + (origin - depth))
      (told : (execute image traced).outcome =
        .error (.fault { cause := .pcOutOfBounds memorySize, pc := some memorySize }))
      (ends : (reached machine traced stepLimit).depth =
        depth + (memorySize - origin) - length) :
      RunsOut image machine traced length depth

/-- A run comes to the fault that stops the machine without memory, with its stack. -/
theorem outcome_of_faulted {abstract : AbstractMachine} {cause : FaultCause} {further : Nat}
    (accepted : Machine.load image = .ok machine) (loaded : machine.Loaded words)
    (ends : steps (programWord words) further (steps (programWord words) count {}) =
      abstract.faulted cause) (traced : Bool) :
    (execute image traced).outcome = .error (.fault { cause, pc := some abstract.pc }) ∧
      (reached machine traced stepLimit).depth = abstract.stack.length := by
  have corresponds := corresponds_reached loaded traced stepLimit
  have same : steps (programWord words) stepLimit {} = abstract.faulted cause := by
    rw [← ends, ← steps_add]
    refine steps_eq_of_stopped ?_ ?_
    · rw [← corresponds.status]
      exact stopped_reached loaded traced
    · rw [steps_add, ends]
      simp [AbstractMachine.faulted]
  constructor
  · rw [execute_outcome accepted loaded, same]
    rfl
  · rw [same] at corresponds
    exact depth_eq corresponds.stack

/-- **Behind its program a run fills the stack or comes to the end of memory.** -/
theorem runsOut_of_running (accepted : Machine.load image = .ok machine)
    (loaded : machine.Loaded words) (running : (reached machine traced count).status = .running)
    (pc : (reached machine traced count).pc = origin + words.length) :
    RunsOut image machine traced words.length (reached machine traced count).depth := by
  have corresponds := corresponds_reached loaded traced count
  obtain ⟨abstract, abstract_eq⟩ :
      ∃ abstract, steps (programWord words) count {} = abstract := ⟨_, rfl⟩
  rw [abstract_eq] at corresponds
  have abstract_pc : abstract.pc = origin + words.length := corresponds.pc.symm.trans pc
  have inZeros : InZeros (programWord words) abstract :=
    ⟨corresponds.status.symm.trans running, by omega,
      fun address behind => programWord_of_le (by omega)⟩
  obtain ⟨room, room_eq⟩ := Nat.exists_eq_add_of_le corresponds.stack.length_le
  obtain ⟨left, left_eq⟩ := Nat.exists_eq_add_of_le loaded.length
  rw [depth_eq corresponds.stack]
  -- The stack has room for some zeros, and memory has addresses left for some.
  by_cases first : room < left
  · have ends := inZeros.steps_of_full room_eq.symm (by omega)
    rw [← abstract_eq] at ends
    obtain ⟨told, deep⟩ := outcome_of_faulted accepted loaded ends traced
    rw [abstract_eq, length_withZeros] at deep
    have at_full : (abstract.withZeros room).pc =
        origin + words.length + (origin - abstract.stack.length) := by
      show abstract.pc + room = _
      omega
    rw [abstract_eq, at_full] at told
    exact .full (by omega) told (by omega)
  · have ends := inZeros.steps_of_end (show abstract.stack.length + left ≤ origin by omega)
      (by omega)
    rw [← abstract_eq] at ends
    obtain ⟨told, deep⟩ := outcome_of_faulted accepted loaded ends traced
    rw [abstract_eq, length_withZeros] at deep
    have at_end : (abstract.withZeros left).pc = memorySize := by
      show abstract.pc + left = _
      omega
    rw [abstract_eq, at_end] at told
    exact .ended (by omega) told (by omega)

/-- **No run ends well behind its program.** A run that gets there fills the stack, or comes
to the end of memory first, and faults. A program tells a result only if the run has carried
out a halt among its words. -/
theorem execute_behind_program (accepted : Machine.load image = .ok machine)
    (unpacked : Bytecode.unpack image = .ok words) (traced : Bool) :
    (∀ count, (reached machine traced count).status = .running →
      (reached machine traced count).pc = origin + words.length →
      RunsOut image machine traced words.length (reached machine traced count).depth) ∧
    ∀ result, (execute image traced).outcome = .ok result →
      ∃ count index : Nat, (reached machine traced count).status = .running ∧
        (reached machine traced count).pc = origin + index ∧ words[index]? = some haltWord ∧
        (reached machine traced (count + 1)).status = .halted := by
  obtain ⟨found, unpacked', loaded⟩ := Machine.exists_loaded accepted
  obtain rfl : found = words := Except.ok.inj (unpacked'.symm.trans unpacked)
  constructor
  · intro count running pc
    exact runsOut_of_running accepted loaded running pc
  · intro result told
    obtain ⟨count, index, -, running, pc, halt, halted⟩ :=
      exists_halt loaded (halted_of_execute accepted told)
    exact ⟨count, index, running, pc, halt, halted⟩

/-- One literal, and ninety-nine zeros behind it that fill the stack. -/
theorem execute_behind_program_of_literal :
    ∃ machine, Machine.load [0, 0, 0, 7] = .ok machine ∧
      RunsOut [0, 0, 0, 7] machine false 1 1 := by
  have accepted : Machine.load [0, 0, 0, 7] = .ok (Machine.ofQuads [⟨0, 0, 0, 7⟩]) := rfl
  have unpacked : Bytecode.unpack [0, 0, 0, 7] = .ok [7] := rfl
  have corresponds := Machine.corresponds_steps accepted unpacked false 1
  have runsOut := (execute_behind_program accepted unpacked false).1 1 corresponds.status
    corresponds.pc
  rw [depth_eq corresponds.stack] at runsOut
  exact ⟨_, accepted, runsOut⟩

end Cpu

end ReversePolish
