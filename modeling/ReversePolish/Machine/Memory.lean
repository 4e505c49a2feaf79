import ReversePolish.Instruction.Bytecode

/-! # Memory

Memory is an array of bytes, read and written a word at a time, as an unsigned
word or as a signed value. What is written is read back, in either reading, and
no other address changes (`quad_set_self`, `quad_set_of_ne`).
-/

namespace ReversePolish

/-- The bytes of the machine's words. -/
structure Memory where
  bytes : Vector UInt8 (memorySize * wordSize)
  deriving DecidableEq

/-- The address of a word of memory. -/
abbrev Address := Fin memorySize

/-- An integer as an address. -/
def Address.ofInt (address : Int) : Except StorageError Address :=
  if valid : 0 ≤ address ∧ address < memorySize then
    .ok ⟨address.toNat, by omega⟩
  else .error (.noSuchAddress address)

namespace Memory

/-- Memory that holds zeros only. -/
def zero : Memory := ⟨Vector.replicate _ 0⟩

theorem byte_lt (address : Address) {place : Nat} (inWord : place < wordSize) :
    address * wordSize + place < memorySize * wordSize := by
  have := address.isLt
  simp only [memorySize, wordSize] at *
  omega

/-- The byte at a place of a word. -/
def byte (memory : Memory) (address : Address) (place : Nat) (inWord : place < wordSize) : UInt8 :=
  have inside := byte_lt address inWord
  memory.bytes[address * wordSize + place]

/-- The four bytes of a word. -/
def quad (memory : Memory) (address : Address) : Quad where
  first := memory.byte address 0 (by decide)
  second := memory.byte address 1 (by decide)
  third := memory.byte address 2 (by decide)
  fourth := memory.byte address 3 (by decide)

/-- Replaces the byte at a place of a word. -/
def setByte (memory : Memory) (address : Address) (place : Nat) (inWord : place < wordSize)
    (byte : UInt8) : Memory :=
  ⟨memory.bytes.set (address * wordSize + place) byte (byte_lt address inWord)⟩

/-- Replaces the four bytes of a word. -/
def set (memory : Memory) (address : Address) (quad : Quad) : Memory :=
  (((memory.setByte address 0 (by decide) quad.first).setByte address 1 (by decide)
    quad.second).setByte address 2 (by decide) quad.third).setByte address 3 (by decide)
    quad.fourth

theorem byte_setByte (memory : Memory) (address other : Address) {place otherPlace : Nat}
    (inWord : place < wordSize) (otherInWord : otherPlace < wordSize) (byte : UInt8) :
    (memory.setByte address place inWord byte).byte other otherPlace otherInWord =
      if address = other ∧ place = otherPlace then byte
      else memory.byte other otherPlace otherInWord := by
  have same : address.val * wordSize + place = other.val * wordSize + otherPlace ↔
      address = other ∧ place = otherPlace := by
    rw [Fin.ext_iff]
    simp only [wordSize] at *
    omega
  simp only [setByte, Memory.byte, Vector.getElem_set, same]

@[simp] theorem quad_set_self (memory : Memory) (address : Address) (quad : Quad) :
    (memory.set address quad).quad address = quad := by
  simp [Memory.quad, set, byte_setByte]

theorem quad_set_of_ne (memory : Memory) {address other : Address} (quad : Quad)
    (different : address ≠ other) : (memory.set address quad).quad other = memory.quad other := by
  simp [Memory.quad, set, byte_setByte, different]

/-- The unsigned word at an address. -/
def readWord (memory : Memory) (address : Int) : Except StorageError Int := do
  let address ← Address.ofInt address
  return (memory.quad address).toWord

/-- The signed value at an address. -/
def readValue (memory : Memory) (address : Int) : Except StorageError Int := do
  let address ← Address.ofInt address
  return (memory.quad address).toValue

/-- Stores an unsigned word at an address. -/
def writeWord (memory : Memory) (address word : Int) : Except StorageError Memory := do
  let address ← Address.ofInt address
  match Quad.ofWord? word with
  | some quad => return memory.set address quad
  | none => throw (.wordTooWide word)

/-- Stores a signed value at an address. -/
def writeValue (memory : Memory) (address value : Int) : Except StorageError Memory := do
  let address ← Address.ofInt address
  match Quad.ofValue? value with
  | some quad => return memory.set address quad
  | none => throw (.valueTooWide value)

/-- Stores words one after another from an address on; what lies past the end is
dropped. -/
def place (memory : Memory) (first : Nat) : List Quad → Memory
  | [] => memory
  | quad :: rest =>
      if inside : first < memorySize then
        (memory.set ⟨first, inside⟩ quad).place (first + 1) rest
      else memory

end Memory

end ReversePolish
