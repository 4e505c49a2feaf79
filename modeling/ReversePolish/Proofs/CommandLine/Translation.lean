import ReversePolish.CommandLine.Tool
import ReversePolish.Proofs.Disk.Output

/-! # Translating is all or nothing

A compiler or an assembler either writes the whole translation of its input or leaves every
file as it was, an output from before included. It writes exactly when there is a translation
and its path is free and fits (`Tool.translation_all_or_nothing`). A free path alone is not
enough, since the temporary file has a longer name (`Tool.run_of_longName`).
-/

namespace ReversePolish

/-- What a tool that translates makes of the content of its input. -/
def Tool.translation? : Tool → Option (Bytes → Except Diagnostic Bytes)
  | compiler => some fun content => decodeText content >>= compileSource
  | assembler => some fun content => decodeText content >>= assemble
  | emulator | disassembler => none

/-- The path of the output that arguments ask for. -/
def Arguments.outputPath (arguments : Arguments) : Path :=
  .ofString (arguments.output.getD "out.bin")

variable {tool : Tool} {translate : Bytes → Except Diagnostic Bytes} {arguments : Arguments}
  {command : List String} {input : String} {content image : Bytes} {disk after : Disk}
  {diagnostic : Diagnostic} {report : Report} {plan : Plan} {path : Path}

theorem compile_digit :
    (decodeText [0x31] >>= compileSource) = .ok [0, 0, 0, 1, 0x40, 0, 0, 0] := by
  have split : Utf8.split [0x31] = (['1'], []) := by decide +kernel
  rw [decodeText, split]
  rfl

namespace Plan

/-- A plan writes what an outcome gives, and fails where it gives a mistake. -/
inductive Follows (plan : Plan) (path : Path) : Except Diagnostic Bytes → Prop where
  | writes (image : Bytes) : plan.exit = 0 → plan.output = some (path, image) →
      plan.Follows path (.ok image)
  | fails (diagnostic : Diagnostic) : plan.exit = 1 → plan.output = none →
      plan.Follows path (.error diagnostic)

theorem follows_compile (settings : Settings) (input : Path) (content : Bytes) :
    (compile settings input content).Follows settings.output
      (decodeText content >>= compileSource) := by
  rw [compile]
  cases decodeText content with
  | error diagnostic => exact .fails diagnostic rfl rfl
  | ok text =>
      simp only [bind, Except.bind]
      cases compileSource text with
      | error diagnostic => exact .fails diagnostic rfl rfl
      | ok image => exact .writes image rfl rfl

theorem follows_assemble (output : Path) (content : Bytes) :
    (assemble output content).Follows output
      (decodeText content >>= ReversePolish.assemble) := by
  rw [assemble]
  cases decodeText content with
  | error diagnostic => exact .fails diagnostic rfl rfl
  | ok text =>
      simp only [bind, Except.bind]
      cases ReversePolish.assemble text with
      | error diagnostic => exact .fails diagnostic rfl rfl
      | ok image => exact .writes image rfl rfl

/-- What a translation to a path comes to: a report, and the disk afterwards. -/
inductive Settled (disk : Disk) (path : Path) : Except Diagnostic Bytes → Report × Disk → Prop where
  | written {report : Report} {after : Disk} (image : Bytes) (target : Location) :
      report.exit = 0 → disk.Free path target → path.Fits target →
      after.content? = Function.update disk.content? target (some image) →
      Settled disk path (.ok image) (report, after)
  | barred {report : Report} {after : Disk} (image : Bytes) :
      report.exit = 1 → report.refusal.isSome → after.files = disk.files →
      (∀ target, disk.Free path target → ¬ path.Fits target) →
      Settled disk path (.ok image) (report, after)
  | mistaken {report : Report} (diagnostic : Diagnostic) :
      report.exit = 1 → report.refusal = none →
      Settled disk path (.error diagnostic) (report, disk)

theorem settled_carryOut {outcome : Except Diagnostic Bytes} (follows : plan.Follows path outcome)
    (verbose : Bool) (disk : Disk) : Settled disk path outcome (plan.carryOut verbose disk) := by
  rw [carryOut]
  cases follows with
  | fails diagnostic exit output =>
      rw [output]
      exact .mistaken diagnostic exit rfl
  | writes image exit output =>
      simp only [output]
      generalize ends : Disk.replaceFile path image disk = result
      cases ends ▸ Disk.replaceFile_cases disk path image with
      | replaced target after free fits content =>
          exact .written image target exit free fits content
      | kept error after files blocked => exact .barred image rfl rfl files blocked

end Plan

namespace Tool

theorem output_update (arguments : Arguments) :
    (Settings.update {} (some arguments.verbose) (arguments.output.map Path.ofString)).output =
      arguments.outputPath := by
  rw [Arguments.outputPath]
  cases arguments.output <;> rfl

theorem follows_plan (translates : tool.translation? = some translate) (arguments : Arguments)
    (input : String) (content : Bytes) :
    (tool.plan arguments input content).Follows arguments.outputPath (translate content) := by
  rw [← output_update]
  cases tool with
  | compiler =>
      obtain rfl := Option.some.inj translates
      exact Plan.follows_compile _ _ content
  | assembler =>
      obtain rfl := Option.some.inj translates
      exact Plan.follows_assemble _ content
  | emulator => exact absurd translates (by simp [translation?])
  | disassembler => exact absurd translates (by simp [translation?])

theorem settled_run (translates : tool.translation? = some translate)
    (parsed : tool.parse command = .ok (arguments, input))
    (readable : disk.read input = .ok content) :
    ∃ report after, tool.run command disk = (.ok report, after) ∧
      Plan.Settled disk arguments.outputPath (translate content) (report, after) := by
  have follows := follows_plan translates arguments input content
  have settled := Plan.settled_carryOut follows arguments.verbose disk
  refine ⟨((tool.plan arguments input content).carryOut arguments.verbose disk).1,
    ((tool.plan arguments input content).carryOut arguments.verbose disk).2, ?_, settled⟩
  rw [run, parsed]
  simp only [readable]

/-- **Translating is all or nothing.** A translator succeeds exactly when its input has a
translation and its output path is free and fits. Then the file there holds the translation
and all others what they held; otherwise every file is what it was, and the disk has refused
exactly where there is a translation. -/
theorem translation_all_or_nothing (translates : tool.translation? = some translate)
    (parsed : tool.parse command = .ok (arguments, input))
    (readable : disk.read input = .ok content) :
    ∃ report after, tool.run command disk = (.ok report, after) ∧
      (report.exit = 0 ↔ ∃ image target, translate content = .ok image ∧
        disk.Free arguments.outputPath target ∧ arguments.outputPath.Fits target) ∧
      (∀ image target, translate content = .ok image →
        disk.Free arguments.outputPath target → arguments.outputPath.Fits target →
          after.content? = Function.update disk.content? target (some image)) ∧
      (report.exit ≠ 0 → report.exit = 1 ∧ after.files = disk.files ∧
        (report.refusal.isSome ↔ ∃ image, translate content = .ok image)) := by
  obtain ⟨report, after, ran, settled⟩ := settled_run translates parsed readable
  refine ⟨report, after, ran, ?_⟩
  generalize translate content = outcome at settled
  cases settled with
  | written image target exit free fits content =>
      refine ⟨⟨fun _ => ⟨image, target, rfl, free, fits⟩, fun _ => exit⟩, ?_, absurd exit⟩
      intro other place same free' _
      obtain rfl := Except.ok.inj same
      obtain rfl := free.target_unique free'
      exact content
  | barred image exit refused files blocked =>
      refine ⟨⟨fun zero => ?_, ?_⟩, fun _ place _ free fits => (blocked place free fits).elim, ?_⟩
      · exact absurd (exit.symm.trans zero) (by decide)
      · rintro ⟨_, place, _, free, fits⟩
        exact (blocked place free fits).elim
      · exact fun _ => ⟨exit, files, fun _ => ⟨image, rfl⟩, fun _ => refused⟩
  | mistaken diagnostic exit refused =>
      refine ⟨⟨fun zero => ?_, ?_⟩, fun _ _ same => absurd same (by simp), ?_⟩
      · exact absurd (exit.symm.trans zero) (by decide)
      · rintro ⟨_, _, same, _⟩
        exact absurd same (by simp)
      · refine fun _ => ⟨exit, rfl, ?_⟩
        simp [refused]

/-- A digit in a file, and a working directory below the root. -/
def digitDisk : Disk := ⟨[(["w", "a"], [0x31])], [], ["w"]⟩

/-- A digit is compiled to a file beside the working directory, which is named from the working
directory or from the root. -/
theorem translation_all_or_nothing_of_digit :
    (∃ report after,
      compiler.run ["a", "-o", "../out.bin"] digitDisk = (.ok report, after) ∧
        report.exit = 0 ∧ after.content? ["out.bin"] = some [0, 0, 0, 1, 0x40, 0, 0, 0]) ∧
    ∃ report after, compiler.run ["a", "-o", "/out.bin"] digitDisk = (.ok report, after) ∧
      report.exit = 0 ∧ after.content? ["out.bin"] = some [0, 0, 0, 1, 0x40, 0, 0, 0] := by
  have readable : digitDisk.read "a" = .ok [0x31] := rfl
  have upward : Path.ofString "../out.bin" = ⟨.workingDirectory, ["..", "out.bin"]⟩ := by decide
  have absolute : Path.ofString "/out.bin" = ⟨.root, ["out.bin"]⟩ := by decide
  have compiled {written : String}
      (parsed : compiler.parse ["a", "-o", written] =
        .ok ({ output := some written, operands := ["a"] }, "a"))
      (free : digitDisk.Free (.ofString written) ["out.bin"])
      (fits : (Path.ofString written).Fits ["out.bin"]) :
      ∃ report after, compiler.run ["a", "-o", written] digitDisk = (.ok report, after) ∧
        report.exit = 0 ∧ after.content? ["out.bin"] = some [0, 0, 0, 1, 0x40, 0, 0, 0] := by
    obtain ⟨report, after, ran, succeeds, writes, -⟩ :=
      translation_all_or_nothing rfl parsed readable
    refine ⟨report, after, ran, succeeds.mpr ⟨_, _, compile_digit, free, fits⟩, ?_⟩
    rw [writes _ _ compile_digit free fits]
    rfl
  have named {path : Path} (last : path.fileName? = some "out.bin") :
      ∀ name, path.fileName? = some name → name.utf8ByteSize + temporaryRoom ≤ nameLimit := by
    intro name same
    obtain rfl : "out.bin" = name := Option.some.inj (last.symm.trans same)
    decide
  constructor
  · refine compiled rfl ?_ ?_ <;> rw [upward]
    · exact Disk.free_of_wayTo_eq_nil rfl rfl (by decide) (by decide)
    · exact ⟨by decide, named rfl, by decide, by decide, by decide⟩
  · refine compiled rfl ?_ ?_ <;> rw [absolute]
    · exact Disk.free_of_wayTo_eq_nil rfl rfl (by decide) (by decide)
    · exact ⟨by decide, named rfl, by decide, by decide, by decide⟩

/-- A name of as many letters. -/
def letters : Nat → String
  | 0 => ""
  | count + 1 => "x" ++ letters count

theorem toList_letters (count : Nat) : (letters count).toList = List.replicate count 'x' := by
  induction count with
  | zero => rfl
  | succ count ih =>
      rw [letters, String.toList_append, ih, List.replicate_succ]
      rfl

theorem utf8ByteSize_letters (count : Nat) : (letters count).utf8ByteSize = count := by
  induction count with
  | zero => rfl
  | succ count ih =>
      rw [letters, String.utf8ByteSize_append, ih, Nat.add_comm]
      rfl

theorem letters_ne {count : Nat} {other : String} (some : count ≠ 0)
    (different : 'x' ∉ other.toList) : letters count ≠ other := by
  rintro rfl
  refine different ?_
  rw [toList_letters]
  exact List.mem_replicate.mpr ⟨some, rfl⟩

theorem ofString_letters {count : Nat} (some : count ≠ 0) :
    Path.ofString (letters count) = ⟨.workingDirectory, [letters count]⟩ := by
  refine Path.ofString_name ?_ (letters_ne some (by decide)) (letters_ne some (by decide))
  rw [toList_letters, List.mem_replicate]
  exact fun same => absurd same.2 (by decide)

/-- **A free path is not enough** for a translation to be written: where a name leaves no
room for that of the temporary file, the compiler fails. -/
theorem run_of_longName :
    ∃ report after, compiler.run ["a", "-o", letters 242] ⟨[(["a"], [0x31])], [], []⟩ =
        (.ok report, after) ∧ report.exit = 1 ∧
      (decodeText [0x31] >>= compileSource) = .ok [0, 0, 0, 1, 0x40, 0, 0, 0] ∧
      Disk.Free ⟨[(["a"], [0x31])], [], []⟩ (.ofString (letters 242)) [letters 242] := by
  have parsed : compiler.parse ["a", "-o", letters 242] =
    .ok ({ output := some (letters 242), operands := ["a"] }, "a") := rfl
  have readable : Disk.read ⟨[(["a"], [0x31])], [], []⟩ "a" = .ok [0x31] := rfl
  have path : Path.ofString (letters 242) = ⟨.workingDirectory, [letters 242]⟩ :=
    ofString_letters (by decide)
  have down : letters 242 ≠ ".." := letters_ne (by decide) (by decide)
  obtain ⟨report, after, ran, settled⟩ := settled_run rfl parsed readable
  refine ⟨report, after, ran, ?_, compile_digit, ?_⟩
  · simp only [compile_digit] at settled
    cases settled with
    | written image target exit free fits content =>
        rw [Arguments.outputPath, Option.getD_some, path] at fits
        have short := fits.fileName (letters 242) (Path.fileName?_name down _)
        rw [utf8ByteSize_letters] at short
        exact absurd short (by decide)
    | barred image exit => exact exit
  · rw [path]
    exact Disk.free_name down (by simp [Disk.isDir])

end Tool

end ReversePolish
