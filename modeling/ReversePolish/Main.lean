import ReversePolish.CommandLine.Tool

/-! # The program

The first argument names a tool, the others are its command line. Files are read
and replaced where the program runs; all else is the tool's plan.
-/

namespace ReversePolish

/-- The tool that the first argument of the program names. -/
def Tool.ofName? : String → Option Tool
  | "compile" => some .compiler
  | "run" => some .emulator
  | "assemble" => some .assembler
  | "disassemble" => some .disassembler
  | _ => none

/-- The content of a file, if it can be read. -/
def readInput (path : String) : IO (Option Bytes) := do
  try return some (← IO.FS.readBinFile path).toList
  catch _ => return none

/-- Gives a file new content by way of a temporary file beside it. -/
def replaceOutput (path : Path) (content : Bytes) : IO Unit := do
  let directory := path.parent.render
  IO.FS.createDirAll directory
  let stamp ← IO.monoNanosNow
  let name := path.fileName?.getD ""
  let temporary := s!"{directory}/.{name}.{stamp}.tmp"
  IO.FS.writeBinFile temporary ⟨content.toArray⟩
  try IO.FS.rename temporary path.render
  catch error =>
    IO.FS.removeFile temporary
    throw error

/-- Writes the messages that a run shows. -/
def tell (verbose : Bool) (messages : List Message) : IO Unit :=
  for message in messages do
    if let some line := message.render? verbose then IO.eprintln line

/-- Carries out a plan and gives its exit code. -/
def carryOut (plan : Plan) (verbose : Bool) : IO UInt32 := do
  tell verbose plan.messages
  for line in plan.results do IO.println line
  if let some (path, content) := plan.output then replaceOutput path content
  tell verbose plan.closing
  return plan.exit.toUInt32

/-- Tells what is wrong with a command line and gives the exit code for it. -/
def complain (error : UsageError) : IO UInt32 := do
  IO.eprintln (error.complaint?.getD "usage: [-v] [-q] [-o FILE] INPUT")
  return 2

end ReversePolish

open ReversePolish in
/-- Runs the tool that the first argument names on the others. -/
def main (arguments : List String) : IO UInt32 := do
  match arguments with
  | name :: command =>
      match Tool.ofName? name with
      | some tool =>
          match tool.parse command with
          | .error error => complain error
          | .ok (options, input) =>
              match ← readInput input with
              | none => complain (.noInput input)
              | some content => carryOut (tool.plan options input content) options.verbose
      | none =>
          IO.eprintln "usage: compile|run|assemble|disassemble ..."
          return 2
  | [] =>
      IO.eprintln "usage: compile|run|assemble|disassemble ..."
      return 2
