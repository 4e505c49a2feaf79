import ReversePolish.Proofs.Listing.Printer
import ReversePolish.Proofs.Machine.Trace

/-! # A step does what the listing shows

The text of a word in a listing tells what a step makes of it. A word that is listed bare is
one that no step carries out; any other is listed as an order (`Cpu.Orders`), and the step
attempts what is ordered (`Cpu.asListed`). Whether a word is at fault does not depend
on the stack: what the stack does not admit fails in another way.
-/

namespace ReversePolish

/-- The faults of a word that is not to be carried out: those of words that say nothing, and
among them those of the reserved tag. -/
inductive FaultCause.Illegal : FaultCause → Prop where
  | illegal (reason : IllegalWord) : Illegal (.illegal reason)
  | reserved (payload : Int) : Illegal (.reserved payload)

/-- The text of a word that a listing shows bare. -/
def ListedBare (shown : String) : Prop := ".word".toList <+: shown.toList

variable {word payload : Int} {instruction : Instruction} {shown : String}

theorem head?_render_push (value : Int) :
    ((Instruction.push value).render.toList).head? = some 'p' := by
  show ("push " ++ toString value).toList.head? = _
  rw [String.toList_append]
  rfl

/-- An instruction is written as a bare word if its tag is reserved. -/
theorem Instruction.bare_iff :
    ".word".toList <+: instruction.render.toList ↔ ∃ payload, instruction = .reserved payload := by
  constructor
  · intro bare
    obtain ⟨rest, same⟩ := bare
    have head : instruction.render.toList.head? = some '.' := by
      rw [← same]
      rfl
    rcases instruction with value | opcode | payload
    · rw [head?_render_push] at head
      exact absurd head (by decide)
    · refine absurd head ?_
      rcases opcode with _ | (_ | _ | _ | _) <;> decide
    · exact ⟨payload, rfl⟩
  · rintro ⟨payload, rfl⟩
    exact ⟨_, (toList_renderWord _).symm⟩

theorem listedBare_of_illegal {reason : IllegalWord}
    (illegal : decode word = .error (.illegal reason))
    (shows : disassembleWord? word = some shown) : ListedBare shown := by
  obtain rfl := Option.some.inj ((disassembleWord?_of_illegal illegal).symm.trans shows)
  exact ⟨_, (toList_renderWord word).symm⟩

theorem listedBare_iff_of_decode (decoded : decode word = .ok instruction)
    (shows : disassembleWord? word = some shown) :
    ListedBare shown ↔ ∃ payload, instruction = .reserved payload := by
  obtain rfl := Option.some.inj ((disassembleWord?_of_decode decoded).symm.trans shows)
  exact Instruction.bare_iff

/-- The words of the reserved tag are all read as reserved instructions. -/
theorem exists_decode_reserved_iff (fits : Word.Fits word) :
    (∃ payload, decode word = .ok (.reserved payload)) ↔ Word.tag word = .negative := by
  constructor
  · intro read
    obtain ⟨payload, decoded⟩ := read
    obtain ⟨rfl, -⟩ := toWord_of_decode decoded
    exact Word.tag_make .negative payload
  · intro reserved
    exact ⟨Word.payload word, by simp only [decode, if_pos fits, reserved]⟩

namespace Cpu

open AbstractMachine

variable {cpu : Cpu} {stack : List Int} {cause : FaultCause} {operation : Action Unit}

/-- What the text of an instruction orders a processor to do. -/
inductive Orders : String → Action Unit → Prop where
  | push (value : Int) : Orders s!"push {value}" (push value)
  | halt : Orders "halt" halt
  | add : Orders "add" (combine .add)
  | sub : Orders "sub" (combine .sub)
  | mul : Orders "mul" (combine .mul)
  | div : Orders "div" divide

/-- An operation as a step attempts it: the processor has moved past the word that orders it,
and a fault takes it back there and is recorded. -/
def attempt (operation : Action Unit) : Action Unit := fun cpu =>
  match operation { cpu with pc := cpu.pc + 1 } with
  | .error (.fault fault) after =>
      let fault := { fault with pc := some cpu.pc }
      .error (.fault fault) { after with pc := cpu.pc, status := .faulted, fault := some fault }
  | outcome => outcome

/-- A step of a processor fails by a cause. -/
def FaultsBy (cpu : Cpu) (cause : FaultCause) : Prop :=
  ∃ fault after, step cpu = .error (.fault fault) after ∧ fault.cause = cause

/-- The text of an instruction that is not reserved orders what it is carried out by. -/
theorem orders_render (defined : ∀ payload, instruction ≠ .reserved payload) :
    Orders instruction.render (dispatch instruction) := by
  rcases instruction with value | (_ | (_ | _ | _ | _)) | payload
  · exact .push value
  · exact .halt
  · exact .add
  · exact .sub
  · exact .mul
  · exact .div
  · exact absurd rfl (defined payload)

/-- A step attempts what the instruction of the word says. -/
theorem step_of_decode (running : cpu.status = .running)
    (read : cpu.memory.readWord cpu.pc = .ok word) (decoded : decode word = .ok instruction) :
    step cpu = attempt (dispatch instruction) cpu := by
  have moved : advance cpu = dispatch instruction { cpu with pc := cpu.pc + 1 } := by
    rw [advance, bind_of_ok (fetch_apply read), decoded]
  rw [attempt, ← moved]
  cases advanced : advance cpu with
  | ok _ after => simp only [step, running, advanced]
  | error failure after => cases failure <;> simp only [step, running, advanced]

/-- Any word but a bare one orders what its step attempts. -/
theorem exists_order (running : cpu.status = .running)
    (read : cpu.memory.readWord cpu.pc = .ok word) (shows : disassembleWord? word = some shown)
    (notBare : ¬ ListedBare shown) :
    ∃ operation, Orders shown operation ∧ step cpu = attempt operation cpu := by
  cases decoded : decode word with
  | error error =>
      obtain ⟨reason, rfl⟩ := exists_illegal_of_fits (Memory.fits_of_readWord read) decoded
      exact absurd (listedBare_of_illegal decoded shows) notBare
  | ok instruction =>
      rw [listedBare_iff_of_decode decoded shows] at notBare
      obtain rfl := Option.some.inj ((disassembleWord?_of_decode decoded).symm.trans shows)
      exact ⟨_, orders_render fun payload same => notBare ⟨payload, same⟩,
        step_of_decode running read decoded⟩

/-- A step fails by what makes the instruction fail on the stack. -/
theorem faultsBy_iff (running : cpu.status = .running) (holds : cpu.memory.Holds cpu.sp stack)
    (writable : Text.Writable cpu.pc) :
    cpu.FaultsBy cause ↔ performAt cpu.memory.wordAt cpu.pc stack = .error cause := by
  rcases step_cases holds writable with ⟨stopped, -⟩ |
    ⟨-, instruction, remaining, status, line, after, found, performs, stepped, -⟩ |
    ⟨-, other, failed, stepped⟩
  · exact absurd running stopped
  · have performed : performAt cpu.memory.wordAt cpu.pc stack = .ok (remaining, status) := by
      rw [performAt, found]
      exact perform_eq_ok_iff.mpr ⟨line, performs⟩
    simp [FaultsBy, stepped, performed]
  · rw [failed]
    constructor
    · intro faults
      obtain ⟨fault, after, stepped', rfl⟩ := faults
      rw [stepped] at stepped'
      cases stepped'
      rfl
    · intro same
      obtain rfl := Except.error.inj same
      exact ⟨_, _, stepped, rfl⟩

/-- What fails on a stack by the fault of a word is the reserved instruction. -/
theorem eq_reserved_of_perform (failed : perform stack instruction = .error cause)
    (illegal : cause.Illegal) : ∃ payload, instruction = .reserved payload := by
  rcases instruction with value | (_ | operator) | payload
  · obtain ⟨-, rfl⟩ := Stack.push_eq_error_iff.mp (map_eq_error_iff.mp failed)
    cases illegal
  · exact absurd failed (by simp [perform])
  · rcases Stack.operate_eq_error_iff.mp (map_eq_error_iff.mp failed) with
      ⟨-, rfl⟩ | ⟨-, -, rfl⟩ <;> cases illegal
  · exact ⟨payload, rfl⟩

/-- An operation that wants two values is called by its name in the listing. -/
theorem eq_render_of_perform {needed : String} {depth : Int}
    (failed : perform stack instruction = .error (.stackUnderflow needed depth)) :
    needed = instruction.render := by
  rcases instruction with value | (_ | operator) | payload
  · obtain ⟨-, same⟩ := Stack.push_eq_error_iff.mp (map_eq_error_iff.mp failed)
    cases same
  · exact absurd failed (by simp [perform])
  · rcases Stack.operate_eq_error_iff.mp (map_eq_error_iff.mp failed) with ⟨-, same⟩ | ⟨-, -, same⟩
    · cases same
      rfl
    · cases same
  · exact absurd failed (by simp [perform])

section Listed

variable (running : cpu.status = .running) (holds : cpu.memory.Holds cpu.sp stack)
  (read : cpu.memory.readWord cpu.pc = .ok word)
include running holds read

theorem faultsBy_iff_of_illegal {reason : IllegalWord}
    (illegal : decode word = .error (.illegal reason)) :
    cpu.FaultsBy cause ↔ cause = .illegal reason := by
  obtain ⟨nonneg, inside⟩ := Memory.exists_readWord_iff.mp ⟨word, read⟩
  have unreadable : instructionAt cpu.memory.wordAt cpu.pc = .error (.illegal reason) :=
    instructionAt_of_illegal nonneg inside (by rw [Memory.wordAt_eq read, illegal])
  have failed : performAt cpu.memory.wordAt cpu.pc stack = .error (.illegal reason) := by
    rw [performAt, unreadable]
    rfl
  rw [faultsBy_iff running holds (writable_address nonneg (Int.le_of_lt inside)), failed,
    Except.error.injEq, eq_comm]

theorem faultsBy_iff_of_decode (decoded : decode word = .ok instruction) :
    cpu.FaultsBy cause ↔ perform stack instruction = .error cause := by
  obtain ⟨nonneg, inside⟩ := Memory.exists_readWord_iff.mp ⟨word, read⟩
  have found : instructionAt cpu.memory.wordAt cpu.pc = .ok instruction :=
    instructionAt_of_decode nonneg inside (by rw [Memory.wordAt_eq read, decoded])
  rw [faultsBy_iff running holds (writable_address nonneg (Int.le_of_lt inside)), performAt,
    found]
  rfl

/-- A step fails by the fault of its word exactly when the word is listed bare. -/
theorem faultsBy_illegal_iff (shows : disassembleWord? word = some shown) :
    (∃ cause, cause.Illegal ∧ cpu.FaultsBy cause) ↔ ListedBare shown := by
  cases decoded : decode word with
  | error error =>
      obtain ⟨reason, rfl⟩ := exists_illegal_of_fits (Memory.fits_of_readWord read) decoded
      simp only [faultsBy_iff_of_illegal running holds read decoded]
      exact iff_of_true ⟨_, .illegal reason, rfl⟩ (listedBare_of_illegal decoded shows)
  | ok instruction =>
      simp only [faultsBy_iff_of_decode running holds read decoded,
        listedBare_iff_of_decode decoded shows]
      constructor
      · intro faults
        obtain ⟨cause, illegal, failed⟩ := faults
        exact eq_reserved_of_perform failed illegal
      · rintro ⟨payload, rfl⟩
        exact ⟨_, .reserved payload, rfl⟩

theorem faultsBy_reserved_iff :
    (∃ payload, cpu.FaultsBy (.reserved payload)) ↔ Word.tag word = .negative := by
  have fits := Memory.fits_of_readWord read
  rw [← exists_decode_reserved_iff fits]
  cases decoded : decode word with
  | error error =>
      obtain ⟨reason, rfl⟩ := exists_illegal_of_fits fits decoded
      simp [faultsBy_iff_of_illegal running holds read decoded]
  | ok instruction =>
      simp only [faultsBy_iff_of_decode running holds read decoded, Except.ok.injEq]
      constructor
      · intro faults
        obtain ⟨payload, failed⟩ := faults
        exact eq_reserved_of_perform failed (.reserved payload)
      · rintro ⟨payload, rfl⟩
        exact ⟨payload, rfl⟩

theorem eq_shown_of_faultsBy {needed : String} {depth : Int}
    (shows : disassembleWord? word = some shown)
    (faults : cpu.FaultsBy (.stackUnderflow needed depth)) : needed = shown := by
  cases decoded : decode word with
  | error error =>
      obtain ⟨reason, rfl⟩ := exists_illegal_of_fits (Memory.fits_of_readWord read) decoded
      exact absurd ((faultsBy_iff_of_illegal running holds read decoded).mp faults) (by simp)
  | ok instruction =>
      obtain rfl := Option.some.inj ((disassembleWord?_of_decode decoded).symm.trans shows)
      exact eq_render_of_perform ((faultsBy_iff_of_decode running holds read decoded).mp faults)

end Listed

/-- The step of a processor is what a listing shows of its word. -/
structure AsListed (cpu : Cpu) : Prop where
  fetched : cpu.memory.readWord cpu.pc = .ok cpu.word
  shown : disassembleWord? cpu.word = some cpu.wordText
  /-- A bare word, and no other, is at fault itself. -/
  illegal_iff : (∃ cause, cause.Illegal ∧ cpu.FaultsBy cause) ↔ ListedBare cpu.wordText
  reserved_iff : (∃ payload, cpu.FaultsBy (.reserved payload)) ↔ Word.tag cpu.word = .negative
  /-- Any other word is attempted as it is listed. -/
  ordered : ¬ ListedBare cpu.wordText →
    ∃ operation, Orders cpu.wordText operation ∧ step cpu = attempt operation cpu
  /-- A step tells its word as it is listed, with the operands of an operator. -/
  told : cpu.traced = true → ∀ after, step cpu = .ok () after →
    after.lines = cpu.lines ++ [cpu.operationLine, after.topLine]
  /-- An operation is called by its name in the listing where it wants values. -/
  needed : ∀ needed depth, cpu.FaultsBy (.stackUnderflow needed depth) →
    needed = cpu.wordText

/-- **A step does what the listing shows**, whatever the stack holds. -/
theorem asListed (running : cpu.status = .running) (sp_nonneg : 0 ≤ cpu.sp)
    (sp_le : cpu.sp ≤ origin) (pc_nonneg : 0 ≤ cpu.pc) (pc_lt : cpu.pc < memorySize) :
    AsListed cpu := by
  obtain ⟨stack, holds⟩ := cpu.memory.exists_holds sp_nonneg sp_le
  obtain ⟨word, read⟩ := cpu.memory.exists_readWord pc_nonneg pc_lt
  have at_pc : cpu.word = word := Memory.wordAt_eq read
  subst at_pc
  have shows := disassembleWord?_word cpu
  refine ⟨read, shows, faultsBy_illegal_iff running holds read shows,
    faultsBy_reserved_iff running holds read, exists_order running read shows, ?_,
    fun _ _ => eq_shown_of_faultsBy running holds read shows⟩
  intro traced after stepped
  obtain rfl := afterStep_of_ok stepped
  have ready : Ready cpu := .of_pc ⟨stack, holds⟩ pc_nonneg (Int.le_of_lt pc_lt)
  exact (lines_afterStep ready traced ⟨running, stepped⟩).2

/-- A traced processor that has come to a word, its stack at an address. -/
def comeTo (quad : Quad) (sp : Int) : Cpu := { Machine.ofQuads [quad] with sp, traced := true }

theorem word_comeTo (quad : Quad) (sp : Int) : (comeTo quad sp).word = quad.toWord := by
  have loaded : Machine.Loaded [quad.toWord] (Machine.ofQuads [quad]) :=
    @Machine.loaded_ofQuads [quad] (by simp [origin, memorySize])
  exact Memory.wordAt_eq (loaded.code origin (by decide) (by decide))

/-- A word of the reserved tag over a full stack, and an addition to a single value. -/
theorem asListed_of_reserved :
    (∃ payload, (comeTo ⟨0x80, 0, 0, 5⟩ 0).FaultsBy (.reserved payload)) ∧
      ∃ operation, Orders "add" operation ∧
        step (comeTo ⟨0x40, 0, 0, 1⟩ 99) = attempt operation (comeTo ⟨0x40, 0, 0, 1⟩ 99) := by
  constructor
  · have listed : AsListed (comeTo ⟨0x80, 0, 0, 5⟩ 0) :=
      asListed rfl (by decide) (by decide) (by decide) (by decide)
    rw [listed.reserved_iff, word_comeTo]
    decide
  · have listed : AsListed (comeTo ⟨0x40, 0, 0, 1⟩ 99) :=
      asListed rfl (by decide) (by decide) (by decide) (by decide)
    have addition : Quad.toWord ⟨0x40, 0, 0, 1⟩ =
        (Instruction.primitive (.arithmetic .add)).toWord := by decide
    have decoded : decode (comeTo ⟨0x40, 0, 0, 1⟩ 99).word =
        .ok (.primitive (.arithmetic .add)) := by
      rw [word_comeTo, addition]
      exact decode_toWord (Instruction.encodable_primitive (.arithmetic .add))
    have ordered := listed.ordered
    rw [listedBare_iff_of_decode decoded listed.shown, wordText_of_decode decoded] at ordered
    exact ordered (by simp)

end Cpu

end ReversePolish
