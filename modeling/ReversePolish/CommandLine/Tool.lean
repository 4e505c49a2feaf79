import ReversePolish.CommandLine.Options
import ReversePolish.Disk.Basic
import ReversePolish.Listing.Assembler
import ReversePolish.Listing.Printer
import ReversePolish.Machine.Execution
import ReversePolish.Settings
import ReversePolish.Source.Decoding
import ReversePolish.Source.Encoding

/-! # The tools

Four tools work on one input file each. What a tool does with the content is a
`Plan`: what it tells before it writes its output, the output if there is one,
and what it tells after. `Tool.run` reads a command line, carries the plan out on
a disk and reports. A compiler or an assembler that finds a mistake writes no
file.
-/

namespace ReversePolish

/-- A command of the tool chain. -/
inductive Tool where
  | compiler
  | emulator
  | assembler
  | disassembler
  deriving Repr, DecidableEq

/-- The options of a tool. -/
def Tool.options : Tool → List OptionName
  | compiler => [.verbose, .output]
  | emulator => [.verbose, .quiet]
  | assembler => [.verbose, .output]
  | disassembler => [.verbose]

/-- A line that a tool tells apart from its results: a log entry, which may be for
verbose runs only, or a bare line. -/
inductive Message where
  | info (text : String)
  | debug (text : String)
  | bare (text : String)
  deriving Repr, DecidableEq

/-- A message as it is written, if it is. -/
def Message.render? (verbose : Bool) : Message → Option String
  | info text => some s!"INFO:root:{text}"
  | debug text => if verbose then some s!"DEBUG:root:{text}" else none
  | bare text => some text

/-- What a tool does with its input. -/
structure Plan where
  exit : Nat
  messages : List Message
  results : List String := []
  output : Option (Path × Bytes) := none
  closing : List Message := []

namespace Plan

/-- Tells a diagnostic and writes nothing. -/
def refuse (messages : List Message) (diagnostic : Diagnostic) : Plan where
  exit := 1
  messages := messages ++ [.bare s!"error: {diagnostic.message}"]

/-- Compiles a source to the output of the settings. -/
def compile (settings : Settings) (input : Path) (content : Bytes) : Plan :=
  let opening :=
    [.info "RPNC", .info s!"Translating {input.render} to {settings.output.render}"]
  match decodeText content with
  | .error diagnostic => refuse opening diagnostic
  | .ok text =>
      let messages := opening ++ (compileLog text).map .debug
      match compileSource text with
      | .error diagnostic => refuse messages diagnostic
      | .ok image =>
          { exit := 0
            messages
            output := some (settings.output, image)
            closing := [.debug s!"Wrote {image.length} bytes"] }

/-- Assembles a listing to a path. -/
def assemble (output : Path) (content : Bytes) : Plan :=
  let opening := [.info "RPNVM ASM"]
  match decodeText content with
  | .error diagnostic => refuse opening diagnostic
  | .ok text =>
      let messages := opening ++ (assembleLog text).map .debug
      match ReversePolish.assemble text with
      | .error diagnostic => refuse messages diagnostic
      | .ok image => { exit := 0, messages, output := some (output, image) }

/-- The result of a run as it is told. -/
def renderResult : Option Int → String
  | none => "None"
  | some value => toString value

/-- Runs a program, and traces it unless told not to. -/
def emulate (quiet : Bool) (image : Bytes) : Plan :=
  let opening := .info "RPNVM" :: (executionLog image).map .debug
  let execution := execute image !quiet
  let results := execution.trace.toList.map TraceLine.render
  match execution.outcome with
  | .ok result =>
      { exit := 0
        messages :=
          opening ++ [.info s!"Execution halted gracefully, result {renderResult result}"]
        results }
  | .error (.fault fault) =>
      { exit := 1, messages := opening ++ [.bare s!"fault: {fault.message}"], results }
  | .error (.format error) =>
      { exit := 2, messages := opening ++ [.bare s!"error: {error.message}"], results }
  | .error _ => { exit := 100, messages := opening, results }

/-- Lists a program. -/
def disassemble (image : Bytes) : Plan :=
  let messages := (unpackLog image).map .debug
  match Bytecode.unpack image with
  | .error error => { exit := 2, messages := messages ++ [.bare s!"error: {error.message}"] }
  | .ok words =>
      match wordLines? origin words with
      | some results => { exit := 0, messages, results }
      | none => { exit := 1, messages }

end Plan

/-- What a tool does with the content of its input. -/
def Tool.plan (tool : Tool) (arguments : Arguments) (input : String) (content : Bytes) : Plan :=
  let output := arguments.output.map Path.ofString
  let settings := Settings.update {} (some arguments.verbose) output
  match tool with
  | compiler => .compile settings (.ofString input) content
  | emulator => .emulate arguments.quiet content
  | assembler => .assemble settings.output content
  | disassembler => .disassemble content

/-- What a command comes to: its exit code, its results and messages line by line,
and the refusal of the disk, if there was one. -/
structure Report where
  exit : Nat
  results : List String
  messages : List String
  refusal : Option DiskError := none
  deriving Repr, DecidableEq

/-- Carries a plan out on a disk. -/
def Plan.carryOut (plan : Plan) (verbose : Bool) (disk : Disk) : Report × Disk :=
  let before := plan.messages.filterMap (Message.render? verbose)
  let after := plan.closing.filterMap (Message.render? verbose)
  match plan.output with
  | none => (⟨plan.exit, plan.results, before ++ after, none⟩, disk)
  | some (path, content) =>
      match Disk.replaceFile path content disk with
      | .ok () disk => (⟨plan.exit, plan.results, before ++ after, none⟩, disk)
      | .error error disk => (⟨1, plan.results, before, some error⟩, disk)

/-- The arguments of a command, and its one operand. -/
def Tool.parse (tool : Tool) (command : List String) : Except UsageError (Arguments × String) := do
  let arguments ← Arguments.read tool.options command
  return (arguments, ← arguments.operand)

/-- Runs a command on a disk; a command line that is wrong changes nothing. -/
def Tool.run (tool : Tool) (command : List String) (disk : Disk) :
    Except UsageError Report × Disk :=
  match tool.parse command with
  | .error error => (.error error, disk)
  | .ok (arguments, input) =>
      match disk.read input with
      | .error _ => (.error (.noInput input), disk)
      | .ok content =>
          let (report, disk) := (tool.plan arguments input content).carryOut arguments.verbose disk
          (.ok report, disk)

end ReversePolish
