import ReversePolish.Proofs.Machine.Load
import ReversePolish.Proofs.Machine.Step

/-! # Code and stack stay apart

The stack ends where the code begins, in one memory. `Cpu.Sound` says what holds of
a processor at every point of a run, and `Cpu.Sound.afterStep` that a step keeps it,
whether it completes or faults. `Cpu.reached` is the processor after a number of
steps from a loaded program; `Cpu.separated_reached` says that the stack never
reaches the code, that the words below the deepest stack so far are still zero, and
that each step writes one word at most.
-/

namespace ReversePolish

namespace Cpu

open AbstractMachine

/-- What holds at every point of a run from a loaded memory: the stack address and
the instruction address are in range, the code is as it was loaded, and exactly a
processor at fault has a fault, which tells its address. -/
structure Sound (loaded : Memory) (cpu : Cpu) : Prop where
  sp_nonneg : 0 ≤ cpu.sp
  sp_le : cpu.sp ≤ origin
  origin_le_pc : origin ≤ cpu.pc
  pc_le : cpu.pc ≤ memorySize
  code : ∀ address : Int, origin ≤ address →
    cpu.memory.readWord address = loaded.readWord address
  faulted_iff : cpu.status = .faulted ↔ cpu.fault.isSome
  fault_pc : ∀ fault, cpu.fault = some fault → fault.pc = some cpu.pc

namespace Sound

variable {loaded : Memory} {cpu : Cpu}

theorem hasStack (sound : Sound loaded cpu) : HasStack cpu :=
  hasStack_iff.mpr ⟨sound.sp_nonneg, sound.sp_le⟩

theorem ready (sound : Sound loaded cpu) : Ready cpu := by
  have from_origin := sound.origin_le_pc
  exact .of_pc sound.hasStack (by omega) sound.pc_le

theorem fault_of_running (sound : Sound loaded cpu) (running : cpu.status = .running) :
    cpu.fault = none := by
  have unfaulted : ¬ cpu.fault.isSome := by
    rw [← sound.faulted_iff, running]
    simp
  simpa using unfaulted

/-- An instruction that is performed keeps a processor sound. -/
theorem of_performed {after : Cpu} {instruction : Instruction} {stack remaining : List Int}
    {status : Status} {line : TraceLine} (sound : Sound loaded cpu)
    (running : cpu.status = .running)
    (found : instructionAt cpu.memory.wordAt cpu.pc = .ok instruction)
    (performs : Performs stack instruction remaining status line)
    (summary : Performed { cpu with pc := cpu.pc + 1 } after remaining status line) :
    Sound loaded after := by
  have moved : after.pc = cpu.pc + 1 := summary.pc
  have unfaulted : after.fault = none := summary.fault.trans (sound.fault_of_running running)
  have inside := inside_of_instructionAt found
  have from_origin := sound.origin_le_pc
  refine ⟨summary.holds.sp_nonneg, summary.holds.sp_le, by omega, by omega, ?_, ?_, ?_⟩
  · intro address code
    exact (summary.frame address (.inr code)).trans (sound.code address code)
  · rw [summary.status_eq, unfaulted]
    cases performs <;> simp
  · intro fault present
    rw [unfaulted] at present
    exact absurd present (by simp)

/-- A fault keeps a processor sound. -/
theorem faulted (sound : Sound loaded cpu) (cause : FaultCause) :
    Sound loaded (cpu.faulted cause) where
  sp_nonneg := sound.sp_nonneg
  sp_le := sound.sp_le
  origin_le_pc := sound.origin_le_pc
  pc_le := sound.pc_le
  code := sound.code
  faulted_iff := by simp [Cpu.faulted]
  fault_pc fault present := by
    obtain rfl := Option.some.inj present
    rfl

/-- **A step keeps a processor sound**, and writes no word but the one at the new
stack address. -/
theorem afterStep (sound : Sound loaded cpu) :
    Sound loaded cpu.afterStep ∧
      ∀ address, address ≠ cpu.afterStep.sp →
        cpu.afterStep.memory.readWord address = cpu.memory.readWord address := by
  obtain ⟨⟨stack, holds⟩, writable⟩ := sound.ready
  rcases step_cases holds writable with ⟨-, stepped⟩ |
    ⟨running, instruction, remaining, status, line, after, found, performs, stepped, summary⟩ |
    ⟨-, cause, -, stepped⟩
  · rw [afterStep_of_ok stepped]
    exact ⟨sound, fun _ _ => rfl⟩
  · rw [afterStep_of_ok stepped]
    exact ⟨sound.of_performed running found performs summary,
      fun address other => summary.frame address (.inl other)⟩
  · rw [afterStep_of_error stepped]
    exact ⟨sound.faulted cause, fun _ _ => rfl⟩

theorem iterate (sound : Sound loaded cpu) (count : Nat) :
    Sound loaded (Cpu.afterStep^[count] cpu) := by
  induction count with
  | zero => exact sound
  | succ count ih =>
      rw [Function.iterate_succ_apply']
      exact ih.afterStep.1

end Sound

/-- A machine about to run, traced or not. -/
def starting (machine : Machine) (traced : Bool) : Cpu := { machine with traced }

theorem sound_starting {words : List Int} {machine : Machine} (loaded : machine.Loaded words)
    (traced : Bool) : Sound machine.memory (starting machine traced) where
  sp_nonneg := by
    rw [starting, loaded.sp]
    simp
  sp_le := Int.le_of_eq loaded.sp
  origin_le_pc := Int.le_of_eq loaded.pc.symm
  pc_le := by
    rw [starting, loaded.pc]
    decide
  code _ _ := rfl
  faulted_iff := by simp [starting, loaded.status, loaded.fault]
  fault_pc fault present := by
    rw [starting, loaded.fault] at present
    exact absurd present (by simp)

/-- The processor after a number of steps of a machine, failing ones included. -/
def reached (machine : Machine) (traced : Bool) (count : Nat) : Cpu :=
  Cpu.afterStep^[count] (starting machine traced)

theorem reached_succ (machine : Machine) (traced : Bool) (count : Nat) :
    reached machine traced (count + 1) = (reached machine traced count).afterStep :=
  Function.iterate_succ_apply' _ _ _

section Reached

variable {image : Bytes} {words : List Int} {machine : Machine} {traced : Bool} {count : Nat}

theorem sound_reached (loaded : machine.Loaded words) (traced : Bool) (count : Nat) :
    Sound machine.memory (reached machine traced count) :=
  (sound_starting loaded traced).iterate count

/-- A word that the stack has not come down to is zero as it was at first. -/
theorem readWord_of_unreached (loaded : machine.Loaded words) {address : Int}
    (nonneg : 0 ≤ address)
    (unreached : ∀ earlier ≤ count, address < (reached machine traced earlier).sp) :
    (reached machine traced count).memory.readWord address = .ok 0 := by
  induction count with
  | zero =>
      have below : address < machine.sp := unreached 0 (Nat.le_refl _)
      rw [loaded.sp] at below
      exact loaded.room address nonneg below
  | succ count ih =>
      have before := ih fun earlier le => unreached earlier (by omega)
      have other := unreached (count + 1) (Nat.le_refl _)
      rw [reached_succ] at other ⊢
      rw [(sound_reached loaded traced count).afterStep.2 address (by omega), before]

theorem reached_add_of_stopped (stopped : (reached machine traced count).status ≠ .running)
    (further : Nat) : reached machine traced (count + further) = reached machine traced count := by
  rw [reached, Nat.add_comm, Function.iterate_add_apply]
  exact afterStep_iterate_of_stopped stopped further

/-- What holds of the processor that a machine has reached after a number of steps,
and of its next step. -/
structure Separated (machine : Machine) (traced : Bool) (count : Nat) : Prop
    extends Sound machine.memory (reached machine traced count) where
  /-- Memory keeps its size. -/
  readable : ∀ address, (∃ word, (reached machine traced count).memory.readWord address = .ok word) ↔
    0 ≤ address ∧ address < memorySize
  /-- Below the deepest stack so far memory is still zero. -/
  untouched : ∀ address : Int, 0 ≤ address →
    (∀ earlier ≤ count, address < (reached machine traced earlier).sp) →
    (reached machine traced count).memory.readWord address = .ok 0
  /-- The next step writes at the new stack address or nowhere. -/
  frame : ∀ address, address ≠ (reached machine traced (count + 1)).sp →
    (reached machine traced (count + 1)).memory.readWord address =
      (reached machine traced count).memory.readWord address
  /-- A processor that has stopped never changes again. -/
  stopped : (reached machine traced count).status ≠ .running → ∀ further,
    reached machine traced (count + further) = reached machine traced count

/-- **Code and stack stay apart.** Whatever a program is, and however many steps its
machine has taken, no step has reached the code from the stack. -/
theorem separated_reached (accepted : Machine.load image = .ok machine) (traced : Bool)
    (count : Nat) : Separated machine traced count := by
  obtain ⟨words, -, loaded⟩ := Machine.exists_loaded accepted
  have sound := sound_reached loaded traced count
  refine { sound with
    readable := fun _ => Memory.exists_readWord_iff
    untouched := fun _ nonneg unreached => readWord_of_unreached loaded nonneg unreached
    frame := ?_
    stopped := reached_add_of_stopped }
  intro address other
  rw [reached_succ] at other ⊢
  exact sound.afterStep.2 address other

/-- A program of one literal and an addition, which finds a value too few. -/
theorem separated_of_underflow :
    ∃ machine, Machine.load [0, 0, 0, 7, 0x40, 0, 0, 1] = .ok machine ∧
      Separated machine true 2 := by
  have accepted : Machine.load [0, 0, 0, 7, 0x40, 0, 0, 1] =
      .ok (Machine.ofQuads [⟨0, 0, 0, 7⟩, ⟨0x40, 0, 0, 1⟩]) := rfl
  exact ⟨_, accepted, separated_reached accepted true 2⟩

end Reached

end Cpu

end ReversePolish
