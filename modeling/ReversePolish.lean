import ReversePolish.Position
import ReversePolish.Word.Quad
import ReversePolish.Text.Digit
import ReversePolish.Text.Numeral
import ReversePolish.Text.Quoted
import ReversePolish.Text.Spelling
import ReversePolish.Text.Utf8
import ReversePolish.Text.Tabs
import ReversePolish.Instruction.Basic
import ReversePolish.Instruction.Bytecode
import ReversePolish.Machine.Fault
import ReversePolish.Machine.Memory
import ReversePolish.Machine.Execution
import ReversePolish.Machine.Abstract
import ReversePolish.Source.Decoding
import ReversePolish.Source.Encoding
import ReversePolish.Source.Reading
import ReversePolish.Source.Printer
import ReversePolish.Source.Concatenation
import ReversePolish.Calculation
import ReversePolish.Listing.Assembler
import ReversePolish.Listing.Printer
import ReversePolish.Listing.Grammar
import ReversePolish.Listing.Lines
import ReversePolish.CommandLine.Tool
import ReversePolish.Main
import ReversePolish.Proofs.Machine.Atomicity
import ReversePolish.Proofs.Source.Pieces
import ReversePolish.Proofs.Source.Leftmost
import ReversePolish.Proofs.Source.Printer
import ReversePolish.Proofs.Source.Concatenation
import ReversePolish.Proofs.Calculation.Execution
import ReversePolish.Proofs.Listing.Assembler
import ReversePolish.Proofs.Listing.RoundTrip
import ReversePolish.Proofs.Listing.Translation
import ReversePolish.Proofs.Listing.Values
import ReversePolish.Proofs.Listing.Spacing
import ReversePolish.Proofs.Listing.Concatenation
import ReversePolish.Proofs.Listing.Refusal
import ReversePolish.Proofs.Listing.Place
import ReversePolish.Proofs.CommandLine.Emulator
import ReversePolish.Proofs.Calculation.Wrapping
import ReversePolish.Proofs.Machine.Lockstep
import ReversePolish.Proofs.Machine.Trace
import ReversePolish.Proofs.Machine.Disassembly
import ReversePolish.Proofs.CommandLine.Quiet
import ReversePolish.Proofs.Machine.Unreached
import ReversePolish.Disk.Output
import ReversePolish.Proofs.Disk.Files
import ReversePolish.Proofs.Disk.Output
import ReversePolish.Proofs.CommandLine.Translation
import ReversePolish.Proofs.Calculation.Depth
import ReversePolish.Proofs.Calculation.Kinds
import ReversePolish.Proofs.Machine.Loop
import ReversePolish.Proofs.Machine.ZeroTail
import ReversePolish.Proofs.Machine.Division
import ReversePolish.Proofs.Text.Utf8
import ReversePolish.Proofs.Source.Decoding
import ReversePolish.Proofs.Machine.Calls
import ReversePolish.Proofs.Source.Places
import ReversePolish.Proofs.Instruction.Bijection
import ReversePolish.Proofs.Source.Items
import ReversePolish.Proofs.Source.Demand
import ReversePolish.Proofs.Source.Runs
import ReversePolish.Machine.View
import ReversePolish.Proofs.Machine.Placement
import ReversePolish.Proofs.Machine.Views
import ReversePolish.Proofs.Source.Turns
