import Mathlib.Logic.Function.Iterate
import ReversePolish.Machine.Abstract
import ReversePolish.Proofs.Instruction.Codec

/-! # Steps of the machine without memory

The machine reads a word as the processor does (`AbstractMachine.instructionOf_of_fits`). What it
finds at an address depends on the word there and on nothing else
(`AbstractMachine.instructionAt_congr`). A running machine performs what it finds or
faults, a machine that has stopped stays as it is, and a number of steps is an iterate
of one step.
-/

namespace ReversePolish

theorem programWord_natCast (words : List Int) (index : Nat) :
    programWord words (origin + index) = words.getD index 0 := by
  have offset : ((origin + index : Int) - origin).toNat = index := by omega
  rw [programWord, offset]

/-- Behind the words of a program stand zeros. -/
theorem programWord_of_le {words : List Int} {address : Int}
    (behind : origin + words.length ≤ address) : programWord words address = 0 := by
  rw [programWord, List.getD_eq_getElem?_getD, List.getElem?_eq_none (by omega)]
  rfl

namespace AbstractMachine

variable {program other : Int → Int} {address word : Int} {machine : AbstractMachine}
  {cause : FaultCause}

/-- The number of an opcode stands right behind those of the literals. -/
theorem instructionOf_primitive (opcode : Opcode) :
    instructionOf (literalLimit + opcode.code : Nat) = .ok (.primitive opcode) := by
  rcases opcode with _ | (_ | _ | _ | _) <;> rfl

/-- Above the opcodes the words go by their tag alone. -/
theorem instructionOf_of_above (above : 0x40000005 ≤ word) (below : word < 0x100000000) :
    instructionOf word =
      if word < 0x80000000 then .error (.illegal (.unknownOpcode (word - 0x40000000) word))
      else if word < 0xc0000000 then .ok (.reserved (word - 0x80000000))
      else .error (.illegal (.invalidTag word)) := by
  rw [instructionOf, if_neg (by omega), if_neg (by omega), if_neg (by omega), if_neg (by omega),
    if_neg (by omega), if_neg (by omega), if_neg (by omega)]

theorem instructionOf_of_unknown {payload : Int} (nonneg : 0 ≤ payload)
    (lt : payload < literalLimit) (unknown : Opcode.ofCode? payload = none) :
    instructionOf (literalLimit + payload) =
      .error (.illegal (.unknownOpcode payload (literalLimit + payload))) := by
  have other (opcode : Opcode) : payload ≠ opcode.code := by
    rintro rfl
    rw [Opcode.ofCode?_code] at unknown
    cases unknown
  have halt := other .halt
  have add := other (.arithmetic .add)
  have sub := other (.arithmetic .sub)
  have mul := other (.arithmetic .mul)
  have div := other (.arithmetic .div)
  simp only [Opcode.code] at halt add sub mul div
  simp only [literalLimit] at *
  rw [instructionOf_of_above (by omega) (by omega), if_pos (by omega)]
  congr 3
  omega

theorem instructionOf_of_wide (wide : ¬ Word.Fits word) :
    instructionOf word = .error (.illegal (.tooWide word)) := by
  simp only [Word.Fits, wordMask, wordRange] at wide
  exact if_pos (by omega)

/-- **The machine reads a word as the processor does.** -/
theorem instructionOf_of_fits (fits : Word.Fits word) :
    instructionOf word =
      match decode word with
      | .ok instruction => .ok instruction
      | .error (.illegal reason) => .error (.illegal reason)
      | .error .tooManyDigits => .error (.illegal (.tooWide word)) := by
  have bits := Word.bits_tag fits
  have nonneg := Word.payload_nonneg word
  have lt := Word.payload_lt word
  have whole := Word.make_div_payload word
  rw [← bits, Word.make, Int.emod_eq_of_lt nonneg lt] at whole
  rw [decode, if_pos fits]
  simp only
  generalize Word.payload word = payload at *
  simp only [Word.Fits, wordMask, wordRange, literalLimit] at *
  cases tag : Word.tag word with
  | literal =>
      rw [tag, Tag.bits] at whole
      obtain rfl : payload = word := by omega
      rw [instructionOf, if_neg (by omega), if_pos (by omega)]
  | primitive =>
      rw [tag, Tag.bits] at whole
      obtain rfl : (literalLimit : Int) + payload = word := by
        simp only [literalLimit]
        omega
      cases found : Opcode.ofCode? payload with
      | some opcode =>
          obtain rfl := Opcode.eq_code_of_ofCode? found
          exact instructionOf_primitive opcode
      | none => exact instructionOf_of_unknown nonneg lt found
  | negative =>
      rw [tag, Tag.bits] at whole
      rw [instructionOf_of_above (by omega) (by omega), if_neg (by omega), if_pos (by omega)]
      congr 2
      omega
  | invalid =>
      rw [tag, Tag.bits] at whole
      rw [instructionOf_of_above (by omega) (by omega), if_neg (by omega), if_neg (by omega)]

theorem instructionOf_of_decode {instruction : Instruction}
    (decoded : decode word = .ok instruction) : instructionOf word = .ok instruction := by
  have fits : Word.Fits word := by
    rw [← (toWord_of_decode decoded).1]
    exact Word.fits_make _ _
  rw [instructionOf_of_fits fits, decoded]

theorem instructionOf_of_illegal {reason : IllegalWord}
    (illegal : decode word = .error (.illegal reason)) :
    instructionOf word = .error (.illegal reason) := by
  by_cases fits : Word.Fits word
  · rw [instructionOf_of_fits fits, illegal]
  · rw [decode, if_neg fits] at illegal
    split at illegal
    · cases illegal
      exact instructionOf_of_wide fits
    · cases illegal

theorem decode_of_instructionOf {instruction : Instruction}
    (found : instructionOf word = .ok instruction) : decode word = .ok instruction := by
  have fits : Word.Fits word := by
    by_contra wide
    rw [instructionOf_of_wide wide] at found
    cases found
  cases decoded : decode word with
  | ok other =>
      obtain rfl := Except.ok.inj ((instructionOf_of_decode decoded).symm.trans found)
      rfl
  | error error =>
      obtain ⟨reason, rfl⟩ := exists_illegal_of_fits fits decoded
      cases (instructionOf_of_illegal decoded).symm.trans found

theorem instructionAt_of_outside (outside : ¬ (0 ≤ address ∧ address < memorySize)) :
    instructionAt program address = .error (.pcOutOfBounds address) :=
  if_neg outside

theorem inside_of_instructionAt {instruction : Instruction}
    (found : instructionAt program address = .ok instruction) :
    0 ≤ address ∧ address < memorySize := by
  by_contra outside
  rw [instructionAt_of_outside outside] at found
  exact absurd found (by simp)

theorem instructionAt_of_decode {instruction : Instruction} (nonneg : 0 ≤ address)
    (inside : address < memorySize) (decoded : decode (program address) = .ok instruction) :
    instructionAt program address = .ok instruction := by
  rw [instructionAt, if_pos ⟨nonneg, inside⟩, instructionOf_of_decode decoded]

theorem instructionAt_of_illegal {reason : IllegalWord} (nonneg : 0 ≤ address)
    (inside : address < memorySize)
    (illegal : decode (program address) = .error (.illegal reason)) :
    instructionAt program address = .error (.illegal reason) := by
  rw [instructionAt, if_pos ⟨nonneg, inside⟩, instructionOf_of_illegal illegal]

theorem decode_of_instructionAt {instruction : Instruction}
    (found : instructionAt program address = .ok instruction) :
    decode (program address) = .ok instruction := by
  rw [instructionAt, if_pos (inside_of_instructionAt found)] at found
  exact decode_of_instructionOf found

theorem instructionAt_congr
    (same : 0 ≤ address → address < memorySize → program address = other address) :
    instructionAt program address = instructionAt other address := by
  by_cases inside : 0 ≤ address ∧ address < memorySize
  · rw [instructionAt, instructionAt, same inside.1 inside.2]
  · rw [instructionAt_of_outside inside, instructionAt_of_outside inside]

/-- What a stack becomes by the instruction at an address. -/
def performAt (program : Int → Int) (address : Int) (stack : List Int) :
    Except FaultCause (List Int × Status) :=
  instructionAt program address >>= perform stack

theorem step_of_stopped (stopped : machine.status ≠ .running) : machine.step program = machine := by
  rw [step]
  split
  · next running => exact absurd running stopped
  · rfl

theorem step_of_performAt {stack : List Int} {status : Status}
    (running : machine.status = .running)
    (performed : performAt program machine.pc machine.stack = .ok (stack, status)) :
    machine.step program = { machine with stack, status, pc := machine.pc + 1 } := by
  rw [performAt] at performed
  simp only [step, running, performed]

theorem step_of_failed (running : machine.status = .running)
    (failed : performAt program machine.pc machine.stack = .error cause) :
    machine.step program =
      { machine with status := .faulted, fault := some { cause, pc := some machine.pc } } := by
  rw [performAt] at failed
  simp only [step, running, failed]

theorem steps_eq_iterate (program : Int → Int) (count : Nat) (machine : AbstractMachine) :
    steps program count machine = (step program)^[count] machine := by
  induction count generalizing machine with
  | zero => rfl
  | succ count ih => rw [steps, ih, Function.iterate_succ_apply]

theorem steps_succ (program : Int → Int) (count : Nat) (machine : AbstractMachine) :
    steps program (count + 1) machine = (steps program count machine).step program := by
  rw [steps_eq_iterate, steps_eq_iterate, Function.iterate_succ_apply']

theorem steps_add (program : Int → Int) (first second : Nat) (machine : AbstractMachine) :
    steps program (first + second) machine =
      steps program second (steps program first machine) := by
  rw [steps_eq_iterate, steps_eq_iterate, steps_eq_iterate, Nat.add_comm,
    Function.iterate_add_apply]

/-- However often it is asked to step, a stopped machine stays as it is. -/
theorem steps_of_stopped (stopped : machine.status ≠ .running) (count : Nat) :
    steps program count machine = machine := by
  rw [steps_eq_iterate]
  exact Function.iterate_fixed (step_of_stopped stopped) count

/-- A machine stops in one way, whenever one looks. -/
theorem steps_eq_of_stopped {first second : Nat}
    (stopped : (steps program first machine).status ≠ .running)
    (alsoStopped : (steps program second machine).status ≠ .running) :
    steps program first machine = steps program second machine := by
  rcases Nat.le_total first second with le | le
  · obtain ⟨further, rfl⟩ := Nat.exists_eq_add_of_le le
    rw [steps_add, steps_of_stopped stopped]
  · obtain ⟨further, rfl⟩ := Nat.exists_eq_add_of_le le
    rw [steps_add, steps_of_stopped alsoStopped]

end AbstractMachine

end ReversePolish
