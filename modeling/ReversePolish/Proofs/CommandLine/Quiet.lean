import ReversePolish.Proofs.CommandLine.Emulator
import ReversePolish.Proofs.Machine.Trace

/-! # The quiet emulator

An emulator that is told to be quiet does what it does otherwise, and prints nothing
(`Tool.run_quiet`). What it leaves unprinted is a faithful trace of the run
(`Tool.trace_faithful`).
-/

namespace ReversePolish

namespace Arguments

/-- Arguments that ask for no trace. -/
def hushed (arguments : Arguments) : Arguments := { arguments with quiet := true }

/-- What was read of an argument, of arguments that ask for no trace. -/
def Progress.hushed (progress : Progress) : Progress :=
  { progress with arguments := progress.arguments.hushed }

variable {known : List OptionName} {arguments : Arguments}

theorem hushed_withFlag (arguments : Arguments) (option : OptionName) :
    arguments.hushed.withFlag option = (arguments.withFlag option).hushed := by
  cases option <;> rfl

theorem readLong_hushed (argument : String) :
    readLong known arguments.hushed argument =
      Progress.hushed <$> readLong known arguments argument := by
  simp only [readLong]
  cases known.find? fun option =>
      decide (option.long = String.ofList (argument.toList.takeWhile (· ≠ '='))) with
  | none => rfl
  | some option =>
      simp only
      split
      · rfl
      · rfl
      · rfl
      · simp only [hushed_withFlag]
        rfl

theorem readShort_hushed (letters : List Char) :
    readShort known arguments.hushed letters =
      Progress.hushed <$> readShort known arguments letters := by
  induction letters generalizing arguments with
  | nil => rfl
  | cons letter rest ih =>
      simp only [readShort]
      cases known.find? fun option => decide (option.short = letter) with
      | none => rfl
      | some option =>
          simp only [hushed_withFlag, ih]
          split
          · split <;> rfl
          · rfl

theorem readFrom_hushed (awaiting : Option String) (command : List String) :
    readFrom known awaiting arguments.hushed command =
      hushed <$> readFrom known awaiting arguments command := by
  induction command generalizing arguments awaiting with
  | nil => cases awaiting <;> rfl
  | cons argument rest ih =>
      simp only [readFrom]
      split
      · exact @ih { arguments with output := some argument } none
      · rfl
      · rw [readLong_hushed]
        cases readLong known arguments argument with
        | error error => rfl
        | ok progress => exact ih progress.awaiting
      · rw [readShort_hushed]
        cases readShort known arguments _ with
        | error error => rfl
        | ok progress => exact ih progress.awaiting
      · exact @ih { arguments with operands := arguments.operands ++ [argument] } none

end Arguments

/-- Without its results, a report. -/
def Report.withoutResults (report : Report) : Report := { report with results := [] }

variable {image : Bytes} {machine : Machine}

/-- An untraced execution comes to what a traced one comes to, and traces nothing. -/
theorem execute_untraced (image : Bytes) :
    execute image false = ⟨(execute image true).outcome, #[]⟩ := by
  cases accepted : Machine.load image with
  | error error => rw [execute_of_refused accepted, execute_of_refused accepted]
  | ok machine =>
      obtain ⟨words, -, loaded⟩ := Machine.exists_loaded accepted
      have outcome_eq : (execute image false).outcome = (execute image true).outcome :=
        (execute_outcome accepted loaded).trans (execute_outcome accepted loaded).symm
      have silent := (Cpu.trace_reached_of_untraced loaded Cpu.stepLimit).2
      obtain ⟨stack, holds⟩ := (Cpu.sound_reached loaded false Cpu.stepLimit).hasStack
      obtain ⟨final, ends⟩ : ∃ final, Cpu.reached machine false Cpu.stepLimit = final := ⟨_, rfl⟩
      rw [ends] at holds silent
      rw [← outcome_eq, execute_of_reached accepted ends holds, silent]

namespace Plan

theorem emulate_quiet (image : Bytes) (quiet : Bool) :
    emulate true image = { emulate quiet image with results := [] } := by
  cases quiet with
  | true =>
      rw [emulate, Bool.not_true, execute_untraced]
      split <;> rfl
  | false =>
      rw [emulate, emulate, Bool.not_true, Bool.not_false, execute_untraced]
      simp only
      split <;> rfl

theorem results_emulate (image : Bytes) :
    (emulate false image).results = (execute image true).lines := by
  rw [emulate, Bool.not_false]
  split <;> rfl

theorem carryOut_withoutResults {plan : Plan} (noOutput : plan.output = none) (verbose : Bool)
    (disk : Disk) :
    ({ plan with results := [] } : Plan).carryOut verbose disk =
      ((plan.carryOut verbose disk).1.withoutResults, disk) := by
  rw [carryOut, carryOut]
  simp only [noOutput]
  rfl

end Plan

namespace Tool

theorem parse_quiet (command : List String) :
    emulator.parse ("-q" :: command) =
      (fun (arguments, input) => (arguments.hushed, input)) <$> emulator.parse command := by
  have read : Arguments.read emulator.options ("-q" :: command) =
      Arguments.hushed <$> Arguments.read emulator.options command :=
    Arguments.readFrom_hushed none command
  rw [parse, parse, read]
  cases Arguments.read emulator.options command with
  | error error => rfl
  | ok arguments =>
      have operand : arguments.hushed.operand = arguments.operand := rfl
      simp only [bind, Except.bind, Functor.map, Except.map, operand]
      cases arguments.operand <;> rfl

/-- **Quiet, the emulator does the same and prints nothing.** -/
theorem run_quiet (command : List String) (disk : Disk) :
    emulator.run ("-q" :: command) disk =
      (Report.withoutResults <$> (emulator.run command disk).1, disk) := by
  rw [run, run, parse_quiet]
  cases emulator.parse command with
  | error error => rfl
  | ok parsed =>
      obtain ⟨arguments, input⟩ := parsed
      simp only [Functor.map, Except.map]
      cases disk.read input with
      | error error => rfl
      | ok image =>
          have quiet : emulator.plan arguments.hushed input image =
              { emulator.plan arguments input image with results := [] } :=
            Plan.emulate_quiet image arguments.quiet
          have noOutput : (emulator.plan arguments input image).output = none :=
            Plan.output_emulate image (arguments.quiet)
          simp only [quiet, Plan.carryOut_withoutResults noOutput]
          rfl

/-- **A trace is faithful and has no effect.** A traced run prints two lines for each
instruction that it carries out, read off the states before and after it, and its last line
shows its result. Without a trace the same states are passed through to the same outcome,
so that a quiet emulator prints nothing and differs in nothing else. -/
theorem trace_faithful (accepted : Machine.load image = .ok machine) :
    (∃ completed, Cpu.Narrated machine (execute image true).lines completed) ∧
    (∀ result, (execute image true).outcome = .ok result →
      (execute image true).lines.getLast? = some (TraceLine.topOfStack result).render) ∧
    (∀ count, (Cpu.reached machine false count).toMachine =
      (Cpu.reached machine true count).toMachine) ∧
    execute image false = ⟨(execute image true).outcome, #[]⟩ ∧
    (Plan.emulate false image).results = (execute image true).lines ∧
    ∀ command disk, emulator.run ("-q" :: command) disk =
      (Report.withoutResults <$> (emulator.run command disk).1, disk) := by
  obtain ⟨words, -, loaded⟩ := Machine.exists_loaded accepted
  exact ⟨Cpu.narrated_run accepted, fun _ => Cpu.getLast?_lines_execute accepted,
    Cpu.toMachine_reached loaded false true, execute_untraced image, Plan.results_emulate image,
    run_quiet⟩

/-- Six divided by two, and the quotient divided by nothing: two lines for each of three
instructions, none for the fourth. -/
theorem trace_faithful_of_division :
    ∃ machine, Machine.load [0, 0, 0, 6, 0, 0, 0, 2, 0x40, 0, 0, 4, 0x40, 0, 0, 4] = .ok machine ∧
      ∃ completed, Cpu.Narrated machine
        (execute [0, 0, 0, 6, 0, 0, 0, 2, 0x40, 0, 0, 4, 0x40, 0, 0, 4] true).lines completed := by
  have accepted : Machine.load [0, 0, 0, 6, 0, 0, 0, 2, 0x40, 0, 0, 4, 0x40, 0, 0, 4] =
      .ok (Machine.ofQuads [⟨0, 0, 0, 6⟩, ⟨0, 0, 0, 2⟩, ⟨0x40, 0, 0, 4⟩, ⟨0x40, 0, 0, 4⟩]) := rfl
  exact ⟨_, accepted, (trace_faithful accepted).1⟩

end Tool

end ReversePolish
