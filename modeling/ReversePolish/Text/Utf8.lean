import ReversePolish.Word.Quad

/-! # UTF-8

Bytes are read as UTF-8, strictly: no overlong forms, no surrogates, nothing
above the last code point; a byte order mark is a character like any other.
`Utf8.split` takes the longest well-formed run of characters off the front.
-/

namespace ReversePolish

namespace Utf8

/-- The character whose encoding the bytes start with. -/
def head? (bytes : Bytes) : Option Char :=
  (bytes.take 4).toByteArray.utf8DecodeChar? 0

theorem ne_nil_of_head? {bytes : Bytes} {char : Char} (found : head? bytes = some char) :
    bytes ≠ [] := by
  rintro rfl
  have some : ((List.take 4 ([] : Bytes)).toByteArray.utf8DecodeChar? 0).isSome := by
    rw [head?] at found
    rw [found]
    rfl
  have := ByteArray.lt_size_of_isSome_utf8DecodeChar? some
  simp at this

/-- The characters the bytes start with, and the bytes from the first malformed
sequence on; `read` holds the characters already read, last first. -/
def splitFrom (read : List Char) (bytes : Bytes) : List Char × Bytes :=
  match _found : head? bytes with
  | none => (read.reverse, bytes)
  | some char => splitFrom (char :: read) (bytes.drop char.utf8Size)
termination_by bytes.length
decreasing_by
  have := List.length_pos_iff.mpr (ne_nil_of_head? ‹head? bytes = some char›)
  have := char.utf8Size_pos
  simp only [List.length_drop]
  omega

/-- The longest well-formed run of characters the bytes start with, and the
bytes after it. -/
def split (bytes : Bytes) : List Char × Bytes := splitFrom [] bytes

theorem splitFrom_eq (read : List Char) (bytes : Bytes) :
    splitFrom read bytes = (read.reverse ++ (split bytes).1, (split bytes).2) := by
  have general : ∀ (size : Nat) (bytes : Bytes), bytes.length = size → ∀ read : List Char,
      splitFrom read bytes =
        (read.reverse ++ (splitFrom [] bytes).1, (splitFrom [] bytes).2) := by
    intro size
    induction size using Nat.strongRecOn with
    | ind size ih =>
        intro bytes length read
        rw [splitFrom, splitFrom.eq_def []]
        split
        · simp
        · next char found =>
            have shorter : (bytes.drop char.utf8Size).length < size := by
              have := List.length_pos_iff.mpr (ne_nil_of_head? found)
              have := char.utf8Size_pos
              simp only [List.length_drop]
              omega
            rw [ih _ shorter _ rfl (char :: read), ih _ shorter _ rfl [char]]
            simp
  exact general _ bytes rfl read

end Utf8

end ReversePolish
