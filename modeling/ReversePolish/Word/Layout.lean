/-! # The layout of words and memory

A word is four bytes: two tag bits over a payload of thirty. Memory holds 4096
words; code starts at the origin, and the stack grows down below it.
-/

namespace ReversePolish

/-- Bytes in a word. -/
def wordSize : Nat := 4

/-- Bits of a word below its tag. -/
def tagShift : Nat := 30

/-- The first number that a literal's payload cannot hold. -/
def literalLimit : Nat := 0x40000000

/-- The payload bits of a word, all set. -/
def payloadMask : Nat := literalLimit - 1

/-- How many numbers four bytes can spell. -/
def wordRange : Nat := 0x100000000

/-- The bits of a word, all set: the largest number a word can hold. -/
def wordMask : Nat := wordRange - 1

/-- The tag sits right above the payload. -/
theorem literalLimit_eq_shiftLeft : literalLimit = 1 <<< tagShift := rfl

/-- Words in memory. -/
def memorySize : Nat := 4096

/-- The address of the first code word, and of the empty stack. -/
def origin : Nat := 100

/-- The kinds of word that the two tag bits tell apart. -/
inductive Tag where
  | literal
  | primitive
  /-- Set aside for negative literals, which no tool writes. -/
  | negative
  | invalid
  deriving Repr, DecidableEq, Inhabited

namespace Tag

/-- The two bits of a tag, as a number. -/
def bits : Tag → Nat
  | literal => 0
  | primitive => 1
  | negative => 2
  | invalid => 3

/-- The tag that the lowest two bits of a number spell. -/
def ofBits (bits : Int) : Tag :=
  if bits % 4 = 0 then literal
  else if bits % 4 = 1 then primitive
  else if bits % 4 = 2 then negative
  else invalid

@[simp] theorem ofBits_bits (tag : Tag) : ofBits tag.bits = tag := by
  cases tag <;> rfl

end Tag

end ReversePolish
