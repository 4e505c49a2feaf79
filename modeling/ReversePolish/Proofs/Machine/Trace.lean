import Mathlib.Data.Nat.Find
import ReversePolish.Proofs.Machine.Execution
import ReversePolish.Proofs.Machine.Lockstep

/-! # What a trace shows

A trace shows two lines for each instruction that is carried out, and nothing of one that
faults. `Cpu.operationLine` and `Cpu.topLine` read these lines off the processor before
and after the instruction: its word as a listing shows it, with the operands of an
operator, and the top of the stack that it leaves. `Cpu.narrated_run` says that the trace
of a run consists of these lines and no others.
-/

namespace ReversePolish

/-- The lines that an execution prints. -/
def Execution.lines (execution : Execution) : List String :=
  execution.trace.toList.map TraceLine.render

namespace Cpu

open AbstractMachine

/-- The values on the stack of a processor, the top first. -/
def stack (cpu : Cpu) : List Int :=
  match cpu.memory.valuesFrom cpu.sp with
  | .ok values => values
  | .error _ => []

/-- The word at the address that a processor has come to. -/
def word (cpu : Cpu) : Int := cpu.memory.wordAt cpu.pc

/-- The word that a processor has come to as a listing shows it; every word in memory is
shown (`disassembleWord?_word`). -/
def wordText (cpu : Cpu) : String := (disassembleWord? cpu.word).getD ""

/-- The line of the instruction that a processor has come to: its word as a listing shows
it, and after an operator the second value and the top. -/
def operationLine (cpu : Cpu) : String :=
  match decode cpu.word, cpu.stack with
  | .ok (.primitive (.arithmetic _)), top :: second :: _ => s!"{cpu.wordText} {second} {top}"
  | _, _ => cpu.wordText

/-- The line of the top of a stack. -/
def topLine (cpu : Cpu) : String :=
  match cpu.stack with
  | [] => "tos: empty"
  | top :: _ => s!"tos: {top}"

/-- A processor carries out the instruction that it has come to. -/
def Completes (cpu : Cpu) : Prop :=
  cpu.status = .running ∧ step cpu = .ok () cpu.afterStep

/-- The lines of a processor's trace so far. -/
def lines (cpu : Cpu) : List String := cpu.trace.toList.map TraceLine.render

/-- The lines of the first instructions of a machine. -/
def narration (machine : Machine) (completed : Nat) : List String :=
  (List.range completed).flatMap fun index =>
    [(reached machine true index).operationLine, (reached machine true (index + 1)).topLine]

variable {cpu : Cpu} {stack : List Int}

theorem disassembleWord?_word (cpu : Cpu) : disassembleWord? cpu.word = some cpu.wordText := by
  have fits : Word.Fits cpu.word := cpu.memory.fits_wordAt cpu.pc
  obtain ⟨shown, shows⟩ := exists_disassembleWord? fits.writable
  rw [wordText, shows, Option.getD_some]

theorem wordText_of_decode {instruction : Instruction}
    (decoded : decode cpu.word = .ok instruction) : cpu.wordText = instruction.render :=
  Option.some.inj ((disassembleWord?_word cpu).symm.trans (disassembleWord?_of_decode decoded))

theorem stack_eq (holds : cpu.memory.Holds cpu.sp stack) : cpu.stack = stack := by
  rw [Cpu.stack, holds.values]

theorem topLine_eq (holds : cpu.memory.Holds cpu.sp stack) :
    cpu.topLine = (TraceLine.topOfStack stack.head?).render := by
  rw [topLine, stack_eq holds]
  cases stack <;> rfl

/-- No value is written as the empty stack is: a value has a digit or a sign where the
other has a letter. -/
theorem render_topOfStack_eq_empty_iff {top : Option Int} :
    (TraceLine.topOfStack top).render = "tos: empty" ↔ top = none := by
  cases top with
  | none => exact iff_of_true rfl rfl
  | some value =>
      refine iff_of_false (fun same => ?_) (Option.some_ne_none value)
      have written : value.repr = "empty" := (String.append_right_inj "tos: ").mp same
      cases value with
      | ofNat number =>
          have digits : Nat.toDigits 10 number = ['e', 'm', 'p', 't', 'y'] := by
            rw [← Nat.toList_repr]
            exact congrArg String.toList written
          have digit := Nat.isDigit_of_mem_toDigits (by decide) (by decide)
            (digits ▸ List.mem_cons_self ..)
          exact absurd digit (by decide)
      | negSucc number =>
          have signed : "-".toList ++ number.succ.repr.toList = "empty".toList := by
            rw [← String.toList_append]
            exact congrArg String.toList written
          exact absurd (List.cons.inj signed).1 (by decide)

theorem topLine_eq_empty_iff (holds : cpu.memory.Holds cpu.sp stack) :
    cpu.topLine = "tos: empty" ↔ cpu.sp = origin := by
  rw [topLine_eq holds, render_topOfStack_eq_empty_iff, List.head?_eq_none_iff]
  constructor
  · rintro rfl
    exact Memory.holds_nil_iff.mp holds
  · intro empty
    rw [empty] at holds
    have eq := holds.sp_eq
    exact List.length_eq_zero_iff.mp (by omega)

/-- The line told of an instruction is the one read off the processor before it. -/
theorem render_eq_operationLine {instruction : Instruction} {remaining : List Int}
    {status : Status} {line : TraceLine} (holds : cpu.memory.Holds cpu.sp stack)
    (found : instructionAt cpu.memory.wordAt cpu.pc = .ok instruction)
    (performs : Performs stack instruction remaining status line) :
    line.render = cpu.operationLine := by
  have decoded : decode cpu.word = .ok instruction := decode_of_instructionAt found
  rw [operationLine, decoded, stack_eq holds, wordText_of_decode decoded]
  cases performs <;> rfl

/-- Whoever completes a step has found an instruction and done what it says. -/
theorem Completes.exists_performed (holds : cpu.memory.Holds cpu.sp stack)
    (writable : Text.Writable cpu.pc) (completes : cpu.Completes) :
    ∃ instruction remaining status line,
      instructionAt cpu.memory.wordAt cpu.pc = .ok instruction ∧
      Performs stack instruction remaining status line ∧
      Performed { cpu with pc := cpu.pc + 1 } cpu.afterStep remaining status line := by
  obtain ⟨running, stepped⟩ := completes
  rcases step_cases holds writable with ⟨stopped, -⟩ |
    ⟨-, instruction, remaining, status, line, after, found, performs, completed, summary⟩ |
    ⟨-, cause, -, failed⟩
  · exact absurd running stopped
  · refine ⟨instruction, remaining, status, line, found, performs, ?_⟩
    rwa [afterStep_of_ok completed]
  · exact absurd (failed.symm.trans stepped) (by simp)

/-- A step that completes adds two lines to the trace. -/
theorem lines_afterStep (ready : Ready cpu) (traced : cpu.traced = true)
    (completes : cpu.Completes) :
    cpu.afterStep.traced = true ∧
      cpu.afterStep.lines = cpu.lines ++ [cpu.operationLine, cpu.afterStep.topLine] := by
  obtain ⟨⟨stack, holds⟩, writable⟩ := ready
  obtain ⟨instruction, remaining, status, line, found, performs, summary⟩ :=
    completes.exists_performed holds writable
  refine ⟨summary.traced.trans traced, ?_⟩
  have told := summary.trace
  rw [if_pos traced] at told
  rw [lines, told, topLine_eq summary.holds, ← render_eq_operationLine holds found performs]
  simp only [Array.toList_push, List.map_append, List.map_cons, List.map_nil,
    List.append_assoc, List.cons_append, List.nil_append]
  rfl

/-- A step of a processor that is not traced tells nothing. -/
theorem trace_afterStep_of_untraced (ready : Ready cpu) (untraced : cpu.traced = false) :
    cpu.afterStep.traced = false ∧ cpu.afterStep.trace = cpu.trace := by
  obtain ⟨⟨stack, holds⟩, writable⟩ := ready
  rcases step_cases holds writable with ⟨-, stepped⟩ |
    ⟨-, _, _, _, _, after, -, -, stepped, summary⟩ | ⟨-, cause, -, stepped⟩
  · rw [afterStep_of_ok stepped]
    exact ⟨untraced, rfl⟩
  · rw [afterStep_of_ok stepped]
    have told := summary.trace
    rw [if_neg (by simp [untraced])] at told
    exact ⟨summary.traced.trans untraced, told⟩
  · rw [afterStep_of_error stepped]
    exact ⟨untraced, rfl⟩

/-- A step that does not complete finds the processor stopped, or stops it by a fault. -/
theorem afterStep_of_not_completes (ready : Ready cpu) (incomplete : ¬ cpu.Completes) :
    (cpu.status ≠ .running ∧ cpu.afterStep = cpu) ∨
      (cpu.status = .running ∧ ∃ cause, cpu.afterStep = cpu.faulted cause) := by
  obtain ⟨⟨stack, holds⟩, writable⟩ := ready
  rcases step_cases holds writable with ⟨stopped, stepped⟩ |
    ⟨running, _, _, _, _, after, -, -, stepped, -⟩ | ⟨running, cause, -, stepped⟩
  · exact .inl ⟨stopped, afterStep_of_ok stepped⟩
  · exact absurd ⟨running, by rwa [afterStep_of_ok stepped]⟩ incomplete
  · exact .inr ⟨running, cause, afterStep_of_error stepped⟩

section Run

variable {image : Bytes} {words : List Int} {machine : Machine} {index completed : Nat}

theorem trace_reached_of_untraced (loaded : machine.Loaded words) (count : Nat) :
    (reached machine false count).traced = false ∧ (reached machine false count).trace = #[] := by
  induction count with
  | zero => exact ⟨rfl, rfl⟩
  | succ count ih =>
      obtain ⟨untraced, silent⟩ := ih
      have kept := trace_afterStep_of_untraced (sound_reached loaded false count).ready untraced
      rw [reached_succ, ← silent]
      exact kept

theorem narration_succ (machine : Machine) (completed : Nat) :
    narration machine (completed + 1) = narration machine completed ++
      [(reached machine true completed).operationLine,
        (reached machine true (completed + 1)).topLine] := by
  rw [narration, List.range_succ, List.flatMap_append, ← narration, List.flatMap_singleton]

theorem length_narration (machine : Machine) (completed : Nat) :
    (narration machine completed).length = 2 * completed := by
  induction completed with
  | zero => rfl
  | succ completed ih =>
      rw [narration_succ, List.length_append, ih]
      rfl

/-- Where the two lines of an instruction stand. -/
theorem getElem?_narration (machine : Machine) (inside : index < completed) :
    (narration machine completed)[2 * index]? =
        some (reached machine true index).operationLine ∧
      (narration machine completed)[2 * index + 1]? =
        some (reached machine true (index + 1)).topLine := by
  induction completed with
  | zero => exact absurd inside (Nat.not_lt_zero index)
  | succ completed ih =>
      have length := length_narration machine completed
      rw [narration_succ]
      rcases Nat.lt_succ_iff_lt_or_eq.mp inside with earlier | rfl
      · rw [List.getElem?_append_left (by omega), List.getElem?_append_left (by omega)]
        exact ih earlier
      · rw [List.getElem?_append_right (by omega), List.getElem?_append_right (by omega), length,
          Nat.sub_self, Nat.add_sub_cancel_left]
        exact ⟨rfl, rfl⟩

/-- After instructions that have all been carried out, the trace is theirs. -/
theorem lines_reached (loaded : machine.Loaded words)
    (completes : ∀ index < completed, (reached machine true index).Completes) :
    (reached machine true completed).traced = true ∧
      (reached machine true completed).lines = narration machine completed := by
  induction completed with
  | zero => exact ⟨rfl, rfl⟩
  | succ completed ih =>
      obtain ⟨traced, before⟩ := ih fun index earlier => completes index (by omega)
      have added := lines_afterStep (sound_reached loaded true completed).ready traced
        (completes completed (Nat.lt_succ_self completed))
      rw [narration_succ, reached_succ, ← before]
      exact added

/-- Once an instruction has not been carried out, none is any more. -/
theorem not_completes_of_le (loaded : machine.Loaded words)
    (ends : ¬ (reached machine true completed).Completes) (le : completed ≤ index) :
    ¬ (reached machine true index).Completes := by
  induction le with
  | refl => exact ends
  | @step index le ih =>
      rw [reached_succ]
      intro completes
      rcases afterStep_of_not_completes (sound_reached loaded true index).ready ih with
        ⟨stopped, same⟩ | ⟨-, cause, failed⟩
      · rw [same] at completes
        exact stopped completes.1
      · rw [failed] at completes
        exact absurd completes.1 (by simp [faulted])

/-- The first instruction that is not carried out ends a run: either the processor had
stopped before it, or it faults there. -/
theorem reached_of_ended (loaded : machine.Loaded words)
    (ends : ¬ (reached machine true completed).Completes) (le : completed ≤ stepLimit) :
    ((reached machine true completed).status ≠ .running ∧
        reached machine true stepLimit = reached machine true completed) ∨
      ∃ cause, reached machine true stepLimit = (reached machine true completed).faulted cause := by
  have ready := (sound_reached loaded true completed).ready
  rcases afterStep_of_not_completes ready ends with ⟨stopped, -⟩ | ⟨running, cause, failed⟩
  · obtain ⟨further, limit⟩ := Nat.exists_eq_add_of_le le
    exact .inl ⟨stopped, by rw [limit, reached_add_of_stopped stopped]⟩
  · have before : completed ≠ stepLimit := by
      rintro rfl
      exact stopped_reached loaded true running
    obtain ⟨further, limit⟩ := Nat.exists_eq_add_of_le (Nat.lt_of_le_of_ne le before)
    rw [← reached_succ] at failed
    have stopped : (reached machine true (completed + 1)).status ≠ .running := by
      rw [failed]
      simp [faulted]
    exact .inr ⟨cause, by rw [limit, Nat.succ_eq_add_one, reached_add_of_stopped stopped, failed]⟩

/-- Some instruction is the first that is not carried out. -/
theorem exists_completed (loaded : machine.Loaded words) :
    ∃ completed ≤ stepLimit, (∀ index < completed, (reached machine true index).Completes) ∧
      ¬ (reached machine true completed).Completes := by
  classical
  have ends : ∃ count, ¬ (reached machine true count).Completes :=
    ⟨stepLimit, fun completes => stopped_reached loaded true completes.1⟩
  refine ⟨Nat.find ends, Nat.find_min' ends fun completes =>
    stopped_reached loaded true completes.1, ?_, Nat.find_spec ends⟩
  intro index earlier
  exact not_not.mp (Nat.find_min ends earlier)

/-- Lines that a run of a machine prints, if it carries out a number of instructions:
those read off the states before and after each of them, and no others. -/
structure Narrated (machine : Machine) (lines : List String) (completed : Nat) : Prop where
  completes_iff : ∀ index, (reached machine true index).Completes ↔ index < completed
  fetched : ∀ index < completed, (reached machine true index).memory.readWord
    (reached machine true index).pc = .ok (reached machine true index).word
  /-- The words that are fetched are told as a listing shows them. -/
  shown : ∀ index < completed, disassembleWord? (reached machine true index).word =
    some (reached machine true index).wordText
  lines_eq : lines = narration machine completed
  length_eq : lines.length = 2 * completed
  /-- An operator takes the value that was told to be on top right before. -/
  operands : ∀ index < completed, ∀ operator,
    decode (reached machine true index).word = .ok (.primitive (.arithmetic operator)) →
      ∃ second top : Int, lines[2 * index]? = some s!"{operator.mnemonic} {second} {top}" ∧
        0 < index ∧ lines[2 * index - 1]? = some s!"tos: {top}"
  /-- A stack is told to be empty exactly when it is. -/
  empty_iff : ∀ index < completed, lines[2 * index + 1]? = some "tos: empty" ↔
    (reached machine true (index + 1)).sp = origin

/-- Whoever carries out an instruction has fetched its word. -/
theorem Completes.fetched (ready : Ready cpu) (completes : cpu.Completes) :
    cpu.memory.readWord cpu.pc = .ok cpu.word := by
  obtain ⟨⟨stack, holds⟩, writable⟩ := ready
  obtain ⟨_, _, _, _, found, -, -⟩ := completes.exists_performed holds writable
  obtain ⟨nonneg, inside⟩ := inside_of_instructionAt found
  obtain ⟨found, read⟩ := cpu.memory.exists_readWord nonneg inside
  rw [word, Memory.wordAt_eq read, read]

/-- An operator that is carried out finds two values. -/
theorem Completes.exists_operands (ready : Ready cpu) (completes : cpu.Completes)
    {operator : Operator} (decoded : decode cpu.word = .ok (.primitive (.arithmetic operator))) :
    ∃ top second rest, cpu.memory.Holds cpu.sp (top :: second :: rest) := by
  obtain ⟨⟨stack, holds⟩, writable⟩ := ready
  obtain ⟨instruction, _, _, _, found, performs, -⟩ := completes.exists_performed holds writable
  obtain rfl := Except.ok.inj ((decode_of_instructionAt found).symm.trans decoded)
  cases performs with
  | operate combined => exact ⟨_, _, _, holds⟩

/-- An execution prints what the state that it ends in has told. -/
theorem lines_execute (accepted : Machine.load image = .ok machine) :
    (execute image true).lines = (reached machine true stepLimit).lines := by
  obtain ⟨words, -, loaded⟩ := Machine.exists_loaded accepted
  obtain ⟨stack, holds⟩ := (sound_reached loaded true stepLimit).hasStack
  -- The last state is named, so that nothing tries to compute it.
  obtain ⟨final, ends⟩ : ∃ final, reached machine true stepLimit = final := ⟨_, rfl⟩
  rw [ends] at holds
  rw [execute_of_reached accepted ends holds, ends]
  rfl

/-- **A trace is faithful**: it tells of the instructions that were carried out, of each
by the word and the stack that it met and the stack that it left. -/
theorem narrated_run (accepted : Machine.load image = .ok machine) :
    ∃ completed, Narrated machine (execute image true).lines completed := by
  obtain ⟨words, -, loaded⟩ := Machine.exists_loaded accepted
  obtain ⟨completed, le, completes, ends⟩ := exists_completed loaded
  have lines_eq : (execute image true).lines = narration machine completed := by
    rw [lines_execute accepted, ← (lines_reached loaded completes).2]
    rcases reached_of_ended loaded ends le with ⟨-, same⟩ | ⟨cause, failed⟩
    · rw [same]
    · rw [failed]
      rfl
  refine ⟨completed, ?_, ?_, fun _ _ => disassembleWord?_word _, lines_eq, ?_, ?_, ?_⟩
  · intro index
    refine ⟨fun carried => ?_, completes index⟩
    by_contra later
    exact not_completes_of_le loaded ends (by omega) carried
  · intro index inside
    exact (completes index inside).fetched (sound_reached loaded true index).ready
  · rw [lines_eq, length_narration]
  · intro index inside operator decoded
    obtain ⟨top, second, rest, holds⟩ := (completes index inside).exists_operands
      (sound_reached loaded true index).ready decoded
    have positive : 0 < index := by
      by_contra first
      obtain rfl : index = 0 := by omega
      have eq : machine.sp = origin - _ := holds.sp_eq
      rw [loaded.sp, List.length_cons] at eq
      omega
    obtain ⟨earlier, rfl⟩ := Nat.exists_eq_succ_of_ne_zero (Nat.ne_of_gt positive)
    refine ⟨second, top, ?_, positive, ?_⟩
    · rw [lines_eq, (getElem?_narration machine inside).1, operationLine, decoded, stack_eq holds,
        wordText_of_decode decoded]
      rfl
    · have before := (getElem?_narration machine (Nat.lt_of_succ_lt inside)).2
      rw [lines_eq, show 2 * (earlier + 1) - 1 = 2 * earlier + 1 by omega, before, topLine_eq holds]
      rfl
  · intro index inside
    obtain ⟨stack, holds⟩ := (sound_reached loaded true (index + 1)).hasStack
    rw [lines_eq, (getElem?_narration machine inside).2, Option.some.injEq,
      topLine_eq_empty_iff holds]

/-- The last line of a run that comes to a result shows it. -/
theorem getLast?_lines_execute (accepted : Machine.load image = .ok machine) {result : Option Int}
    (told : (execute image true).outcome = .ok result) :
    (execute image true).lines.getLast? = some (TraceLine.topOfStack result).render := by
  obtain ⟨words, -, loaded⟩ := Machine.exists_loaded accepted
  obtain ⟨completed, le, completes, ends⟩ := exists_completed loaded
  obtain ⟨stack, holds⟩ := (sound_reached loaded true stepLimit).hasStack
  rw [lines_execute accepted]
  have cases := reached_of_ended loaded ends le
  obtain ⟨final, final_eq⟩ : ∃ final, reached machine true stepLimit = final := ⟨_, rfl⟩
  rw [final_eq] at holds cases ⊢
  rw [execute_of_reached accepted final_eq holds] at told
  rcases cases with ⟨stopped, rfl⟩ | ⟨cause, rfl⟩
  · -- At least one instruction was carried out, since a loaded machine runs.
    obtain ⟨earlier, rfl⟩ : ∃ earlier, completed = earlier + 1 := by
      refine Nat.exists_eq_succ_of_ne_zero ?_
      rintro rfl
      exact stopped loaded.status
    rw [(lines_reached loaded completes).2, narration_succ, List.getLast?_append,
      topLine_eq holds]
    cases present : (reached machine true (earlier + 1)).fault with
    | some fault =>
        rw [present] at told
        exact absurd told (by simp)
    | none =>
        rw [present] at told
        obtain rfl := Except.ok.inj told
        rfl
  · exact absurd told (by simp [faulted])

end Run

end Cpu

end ReversePolish
