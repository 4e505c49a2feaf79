import Mathlib.Order.Bounds.Defs
import Mathlib.Data.Int.LeastGreatest
import ReversePolish.Proofs.Instruction.Bytecode
import ReversePolish.Proofs.Machine.Halt
import ReversePolish.Proofs.Machine.Lockstep

/-! # Code that is not reached

What stands behind the last word that a run fetches has no part in it: two programs whose
machines agree up to there run alike, to the same outcome and the same trace
(`Cpu.sameRun_of_agree`). A halt that is executed is such a last word, and the zeros behind
a program are already there, so that neither what is appended behind an executed halt nor
appended zeros change a run (`Cpu.execute_unreached`).
-/

namespace ReversePolish

namespace Cpu

open AbstractMachine

/-- A run of a machine fetches the word at an address, or tries to. -/
def Fetches (machine : Machine) (address : Int) : Prop :=
  ∃ count, (reached machine false count).status = .running ∧
    (reached machine false count).pc = address

/-- Two processors that hold the same stack and differ in no register and no line of their
traces. -/
structure Alike (left right : Cpu) : Prop where
  pc : left.pc = right.pc
  sp : left.sp = right.sp
  stack : ∃ stack, left.memory.Holds left.sp stack ∧ right.memory.Holds right.sp stack
  status : left.status = right.status
  fault : left.fault = right.fault
  traced : left.traced = right.traced
  trace : left.trace = right.trace

/-- Two programs that come to the same outcome with the same trace, and whose machines end
alike. -/
structure SameRun (image other : Bytes) (machine otherMachine : Machine) (traced : Bool) :
    Prop where
  execution : execute image traced = execute other traced
  ends : Alike (reached machine traced stepLimit) (reached otherMachine traced stepLimit)

variable {left right : Cpu}

/-- **Alike processors stay alike** as long as they find the same word. -/
theorem Alike.afterStep (alike : Alike left right) (writable : Text.Writable left.pc)
    (same : left.status = .running → left.memory.wordAt left.pc = right.memory.wordAt right.pc) :
    Alike left.afterStep right.afterStep := by
  obtain ⟨stack, leftHolds, rightHolds⟩ := alike.stack
  have found : left.status = .running → instructionAt left.memory.wordAt left.pc =
      instructionAt right.memory.wordAt right.pc := by
    intro running
    have words := same running
    rw [← alike.pc] at words ⊢
    exact instructionAt_congr fun _ _ => words
  rcases lockstep leftHolds rightHolds writable (alike.pc ▸ writable) alike.status found with
    ⟨-, leftStays, rightStays⟩ |
    ⟨remaining, status, line, leftSummary, rightSummary⟩ | ⟨cause, leftFails, rightFails⟩
  · rwa [leftStays, rightStays]
  · have moved : left.pc + 1 = right.pc + 1 := by rw [alike.pc]
    refine ⟨leftSummary.pc.trans (moved.trans rightSummary.pc.symm),
      leftSummary.holds.sp_eq.trans rightSummary.holds.sp_eq.symm,
      ⟨remaining, leftSummary.holds, rightSummary.holds⟩,
      leftSummary.status_eq.trans rightSummary.status_eq.symm,
      leftSummary.fault.trans (alike.fault.trans rightSummary.fault.symm),
      leftSummary.traced.trans (alike.traced.trans rightSummary.traced.symm), ?_⟩
    rw [leftSummary.trace, rightSummary.trace, alike.traced, alike.trace]
  · rw [leftFails, rightFails]
    refine ⟨alike.pc, alike.sp, ⟨stack, leftHolds, rightHolds⟩, rfl, ?_, alike.traced,
      alike.trace⟩
    rw [faulted, faulted, alike.pc]

section Programs

variable {image other rest : Bytes} {words others more : List Int}
  {machine otherMachine longer : Machine} {last : Int}

/-- Every address that is fetched lies in the code or right behind memory. -/
theorem Fetches.bounds (loaded : machine.Loaded words) {address : Int}
    (fetches : Fetches machine address) : origin ≤ address ∧ address ≤ memorySize := by
  obtain ⟨count, -, rfl⟩ := fetches
  have sound := sound_reached loaded false count
  exact ⟨sound.origin_le_pc, sound.pc_le⟩

/-- A running processor is about to fetch, traced or not. -/
theorem fetches_reached (loaded : machine.Loaded words) {traced : Bool} {count : Nat}
    (running : (reached machine traced count).status = .running) :
    Fetches machine (reached machine traced count).pc := by
  have same := toMachine_reached loaded traced false count
  refine ⟨count, ?_, (congrArg Machine.pc same).symm⟩
  rw [← running]
  exact (congrArg Machine.status same).symm

/-- Machines that agree where the one fetches run alike. -/
theorem alike_reached (loaded : machine.Loaded words) (otherLoaded : otherMachine.Loaded others)
    (agree : ∀ address, Fetches machine address →
      machine.memory.readWord address = otherMachine.memory.readWord address)
    (traced : Bool) (count : Nat) :
    Alike (reached machine traced count) (reached otherMachine traced count) := by
  induction count with
  | zero =>
      exact ⟨loaded.pc.trans otherLoaded.pc.symm, loaded.sp.trans otherLoaded.sp.symm,
        ⟨[], Memory.holds_nil_iff.mpr loaded.sp, Memory.holds_nil_iff.mpr otherLoaded.sp⟩,
        loaded.status.trans otherLoaded.status.symm, loaded.fault.trans otherLoaded.fault.symm,
        rfl, rfl⟩
  | succ count ih =>
      rw [reached_succ, reached_succ]
      have sound := sound_reached loaded traced count
      refine ih.afterStep sound.ready.writable fun running => ?_
      have otherSound := sound_reached otherLoaded traced count
      rw [Memory.wordAt, Memory.wordAt, sound.code _ sound.origin_le_pc,
        otherSound.code _ otherSound.origin_le_pc, ← ih.pc,
        agree _ (fetches_reached loaded running)]

/-- **Programs run alike** whose machines agree where the one fetches. -/
theorem sameRun_of_agree (accepted : Machine.load image = .ok machine)
    (otherAccepted : Machine.load other = .ok otherMachine)
    (agree : ∀ address, Fetches machine address →
      machine.memory.readWord address = otherMachine.memory.readWord address) (traced : Bool) :
    SameRun image other machine otherMachine traced := by
  obtain ⟨words, -, loaded⟩ := Machine.exists_loaded accepted
  obtain ⟨others, -, otherLoaded⟩ := Machine.exists_loaded otherAccepted
  have alike := alike_reached loaded otherLoaded agree traced stepLimit
  refine ⟨?_, alike⟩
  -- The last states are named, so that nothing tries to compute them.
  obtain ⟨final, ends⟩ : ∃ final, reached machine traced stepLimit = final := ⟨_, rfl⟩
  obtain ⟨otherFinal, otherEnds⟩ : ∃ final, reached otherMachine traced stepLimit = final :=
    ⟨_, rfl⟩
  rw [ends, otherEnds] at alike
  obtain ⟨stack, holds, otherHolds⟩ := alike.stack
  rw [execute_of_reached accepted ends holds, execute_of_reached otherAccepted otherEnds otherHolds,
    alike.fault, alike.trace]

/-- A run fetches at some last address. -/
theorem exists_last (loaded : machine.Loaded words) :
    ∃ last, IsGreatest {address | Fetches machine address} last := by
  have bounded : ∀ address, Fetches machine address → address ≤ memorySize :=
    fun _ fetches => (fetches.bounds loaded).2
  obtain ⟨last, fetches, greatest⟩ := Int.exists_greatest_of_bdd ⟨_, bounded⟩
    ⟨_, 0, loaded.status, rfl⟩
  exact ⟨last, fetches, greatest⟩

/-- A program that another program follows has the same words, and behind them those of the
other. -/
theorem programWord_append {address : Int} (code : origin ≤ address)
    (same : address < origin + words.length ∨ ∀ word ∈ more, word = 0) :
    programWord (words ++ more) address = programWord words address := by
  by_cases inside : address < origin + words.length
  · rw [programWord, programWord, List.getD_eq_getElem?_getD, List.getD_eq_getElem?_getD,
      List.getElem?_append_left (by omega)]
  · have zeros : ∀ word ∈ more, word = 0 := same.resolve_left inside
    have empty : programWord words address = 0 := programWord_of_le (by omega)
    rw [empty, programWord, List.getD_eq_getElem?_getD, List.getElem?_append_right (by omega)]
    cases found : more[(address - origin).toNat - words.length]? with
    | none => rfl
    | some word => exact zeros word (List.mem_of_getElem? found)

/-- A run that halts does so at a word of its program. -/
theorem last_lt_of_halted (loaded : machine.Loaded words)
    (greatest : IsGreatest {address | Fetches machine address} last)
    (halted : (reached machine false stepLimit).status = .halted) :
    last < origin + words.length := by
  obtain ⟨⟨count, running, rfl⟩, -⟩ := greatest
  obtain ⟨halting, index, -, before, pc, halt, after⟩ := exists_halt loaded halted
  have le : count ≤ halting := by
    by_contra later
    obtain ⟨further, rfl⟩ := Nat.exists_eq_add_of_le (Nat.lt_of_not_le later)
    have stopped : (reached machine false (halting + 1)).status ≠ .running := by
      rw [after]
      simp
    rw [Nat.succ_eq_add_one, reached_add_of_stopped stopped] at running
    exact stopped running
  have ready := (sound_starting loaded false).ready
  have count_pc := (pc_of_running ready running).1
  have halting_pc := (pc_of_running ready before).1
  have inside := (List.getElem?_eq_some_iff.mp halt).1
  rw [reached] at pc ⊢
  omega

/-- The words of a program that another follows. -/
theorem readWord_appended (loaded : machine.Loaded words)
    (longerLoaded : longer.Loaded (words ++ more)) {address : Int} (code : origin ≤ address)
    (same : address < origin + words.length ∨ ∀ word ∈ more, word = 0) :
    machine.memory.readWord address = longer.memory.readWord address := by
  by_cases inside : address < memorySize
  · rw [loaded.code address code inside, longerLoaded.code address code inside,
      programWord_append code same]
  · have outside : ¬ (0 ≤ address ∧ address < memorySize) := fun bounds => inside bounds.2
    rw [Memory.readWord_of_outside outside, Memory.readWord_of_outside outside]

/-- **Code that is not reached has no part in a run.** A run fetches at some last address.
Whatever program agrees with it up to there runs alike, and so does what is appended to it
behind an executed halt, or zeros that still fit. -/
theorem execute_unreached (accepted : Machine.load image = .ok machine) :
    ∃ last, IsGreatest {address | Fetches machine address} last ∧
      (∀ other otherMachine, Machine.load other = .ok otherMachine →
        (∀ address : Int, origin ≤ address → address ≤ last →
          machine.memory.readWord address = otherMachine.memory.readWord address) →
        ∀ traced, SameRun image other machine otherMachine traced) ∧
      ∀ rest more longer, Bytecode.unpack rest = .ok more →
        Machine.load (image ++ rest) = .ok longer →
        ((reached machine false stepLimit).status = .halted ∨ ∀ word ∈ more, word = 0) →
        ∀ traced, SameRun image (image ++ rest) machine longer traced := by
  obtain ⟨words, unpacked, loaded⟩ := Machine.exists_loaded accepted
  obtain ⟨last, greatest⟩ := exists_last loaded
  refine ⟨last, greatest, ?_, ?_⟩
  · intro other otherMachine otherAccepted agree traced
    refine sameRun_of_agree accepted otherAccepted (fun address fetches => ?_) traced
    exact agree address (fetches.bounds loaded).1 (greatest.2 fetches)
  · intro rest more longer unpacked_rest longerAccepted unreached traced
    obtain ⟨all, unpacked_all, longerLoaded⟩ := Machine.exists_loaded longerAccepted
    obtain rfl := Except.ok.inj
      (unpacked_all.symm.trans (Bytecode.unpack_append unpacked unpacked_rest))
    refine sameRun_of_agree accepted longerAccepted (fun address fetches => ?_) traced
    refine readWord_appended loaded longerLoaded (fetches.bounds loaded).1 ?_
    rcases unreached with halted | zeros
    · have le := greatest.2 fetches
      have lt := last_lt_of_halted loaded greatest halted
      exact .inl (by omega)
    · exact .inr zeros

/-- A literal and an addition that finds a value too few, and a zero behind them. -/
theorem execute_unreached_of_underflow :
    ∃ machine longer, Machine.load [0, 0, 0, 7, 0x40, 0, 0, 1] = .ok machine ∧
      Machine.load ([0, 0, 0, 7, 0x40, 0, 0, 1] ++ [0, 0, 0, 0]) = .ok longer ∧
      SameRun [0, 0, 0, 7, 0x40, 0, 0, 1] ([0, 0, 0, 7, 0x40, 0, 0, 1] ++ [0, 0, 0, 0])
        machine longer true := by
  have accepted : Machine.load [0, 0, 0, 7, 0x40, 0, 0, 1] =
      .ok (Machine.ofQuads [⟨0, 0, 0, 7⟩, ⟨0x40, 0, 0, 1⟩]) := rfl
  have longer_accepted : Machine.load ([0, 0, 0, 7, 0x40, 0, 0, 1] ++ [0, 0, 0, 0]) =
      .ok (Machine.ofQuads [⟨0, 0, 0, 7⟩, ⟨0x40, 0, 0, 1⟩, ⟨0, 0, 0, 0⟩]) := rfl
  have unpacked : Bytecode.unpack [0, 0, 0, 0] = .ok [0] := rfl
  obtain ⟨last, -, -, appended⟩ := execute_unreached accepted
  exact ⟨_, _, accepted, longer_accepted,
    appended _ _ _ unpacked longer_accepted (.inr (by simp)) true⟩

end Programs

end Cpu

end ReversePolish
