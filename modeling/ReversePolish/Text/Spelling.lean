import ReversePolish.Word.Quad

/-! # UTF-8 by its rules

A character is spelled by a lead byte and up to three bytes that go on with it. The lead byte
tells how many they are; the bits it has left and six bits of each further byte make up the number
of the character. Of the four forms only the shortest that holds the number is a spelling, and a
number that is no character's, a surrogate or one above the last code point, has none.
-/

namespace ReversePolish

namespace Utf8

/-- A byte that goes on with a character. -/
def isContinuation (byte : UInt8) : Bool := 0x80 ≤ byte.toNat && byte.toNat < 0xc0

/-- A form of spelling: how many bytes go on with its lead byte, the first of its lead bytes and
how many they are, and the least number that needs the form. -/
structure Form where
  more : Nat
  lead : Nat
  leads : Nat
  least : Nat
  deriving Repr, DecidableEq

/-- The four forms. -/
def forms : List Form :=
  [⟨0, 0x00, 0x80, 0⟩, ⟨1, 0xc0, 0x20, 0x80⟩, ⟨2, 0xe0, 0x10, 0x800⟩, ⟨3, 0xf0, 0x08, 0x10000⟩]

/-- The number with the bits of a lead byte, and after them six bits of each further byte. -/
def joinBits (bits : Nat) (more : Bytes) : Nat :=
  more.foldl (fun number byte => number * 0x40 + (byte.toNat - 0x80)) bits

/-- The bytes that spell a character. -/
inductive Spells (char : Char) : Bytes → Prop where
  | form {form : Form} {first : UInt8} {more : Bytes} (known : form ∈ forms)
      (count : more.length = form.more)
      (lead : form.lead ≤ first.toNat ∧ first.toNat < form.lead + form.leads)
      (continues : ∀ byte ∈ more, isContinuation byte)
      (number : char.toNat = joinBits (first.toNat - form.lead) more)
      (shortest : form.least ≤ char.toNat) : Spells char (first :: more)

/-- The bytes that spell a text, one character after another. -/
inductive Spelled : List Char → Bytes → Prop where
  | nil : Spelled [] []
  | cons {char : Char} {text : List Char} {piece rest : Bytes} (spells : Spells char piece)
      (more : Spelled text rest) : Spelled (char :: text) (piece ++ rest)

end Utf8

end ReversePolish
