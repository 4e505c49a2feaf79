import ReversePolish.Diagnostic
import ReversePolish.Text.Utf8

/-! # Reading a text from bytes

Sources and listings are stored as UTF-8. A malformed byte is reported at its
place counted in bytes, and by lines.
-/

namespace ReversePolish

/-- The place after some bytes: their number, and the line and the column that
line feeds among them give, the column counted in bytes. -/
def bytePosition (read : Bytes) : Position where
  offset := read.length
  line := read.count 0x0a + 1
  column := (read.reverse.takeWhile (· ≠ 0x0a)).length + 1

/-- The text that bytes spell. -/
def decodeText (bytes : Bytes) : Except Diagnostic (List Char) :=
  match Utf8.split bytes with
  | (text, []) => .ok text
  | (_, byte :: rest) =>
      let read := bytes.take (bytes.length - (byte :: rest).length)
      .error (.undecodableByte (bytePosition read) byte)

end ReversePolish
