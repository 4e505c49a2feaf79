import ReversePolish.Machine.Cpu

/-! # Two views of a word

The bytes of a word of memory can be seen as an unsigned word or as a signed value. In either
view memory is read and written at an address, and a write is refused if the number does not
fit (`Cpu.store`).
-/

namespace ReversePolish

/-- What the bytes of a word are seen as. -/
inductive View where
  /-- An unsigned word. -/
  | word
  /-- A signed value. -/
  | value
  deriving Repr, DecidableEq

/-- The number at an address of memory, in a view. -/
def Memory.read (memory : Memory) : View → Int → Except StorageError Int
  | .word, address => memory.readWord address
  | .value, address => memory.readValue address

/-- Stores a number at an address of memory, in a view. -/
def Memory.write (memory : Memory) : View → Int → Int → Except StorageError Memory
  | .word, address, number => memory.writeWord address number
  | .value, address, number => memory.writeValue address number

/-- Stores a number at an address of the machine's memory, in a view. -/
def Cpu.store (view : View) (address number : Int) : Action Unit := do
  let cpu ← get
  let memory ← access (cpu.memory.write view address number)
  set { cpu with memory }

end ReversePolish
