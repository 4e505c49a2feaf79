import ReversePolish.Word.Quad

/-! # Bytecode

A program is stored as its words one after another, four bytes each.
`Bytecode.pack` writes words and `Bytecode.unpack` reads them; packing fails on
a word that four bytes cannot hold, unpacking on a ragged end.
-/

namespace ReversePolish

/-- A number that does not go into the four bytes it is meant for, or an address
outside memory. -/
inductive StorageError where
  | wordTooWide (word : Int)
  | valueTooWide (value : Int)
  | noSuchAddress (address : Int)
  deriving Repr, DecidableEq

/-- Why bytes are not a program for the machine. -/
inductive FormatError where
  /-- The length is no multiple of the word size. -/
  | ragged (length : Nat)
  /-- The words do not fit between the origin and the end of memory. -/
  | tooManyWords (count : Nat)
  deriving Repr, DecidableEq

/-- The text that tells why bytes are not a program for the machine. -/
def FormatError.message : FormatError → String
  | ragged length => s!"bytecode length {length} is not a multiple of {wordSize}"
  | tooManyWords count =>
      s!"program of {count} words does not fit in memory ({memorySize - origin} words available)"

namespace Bytecode

/-- The four bytes of a word. -/
def packWord (word : Int) : Except StorageError Bytes :=
  match Quad.ofWord? word with
  | some quad => .ok quad.toBytes
  | none => .error (.wordTooWide word)

/-- The bytes of a list of words; the first word that does not fit is at fault. -/
def pack (words : List Int) : Except StorageError Bytes :=
  List.flatten <$> words.mapM packWord

/-- The bytes cut into fours, or nothing if some are left over. -/
def quads? : Bytes → Option (List Quad)
  | [] => some []
  | first :: second :: third :: fourth :: rest =>
      (⟨first, second, third, fourth⟩ :: ·) <$> quads? rest
  | _ => none

/-- The bytes cut into fours. -/
def quads (bytes : Bytes) : Except FormatError (List Quad) :=
  match quads? bytes with
  | some quads => .ok quads
  | none => .error (.ragged bytes.length)

/-- The words that bytes spell. -/
def unpack (bytes : Bytes) : Except FormatError (List Int) :=
  List.map Quad.toWord <$> quads bytes

end Bytecode

end ReversePolish
