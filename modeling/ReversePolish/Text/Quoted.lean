import ReversePolish.Text.Printable

/-! # Quoted text

Messages quote the text they speak of: in single quotes, or in double quotes
when it holds a single quote and no double one. The quote in use, the backslash
and every character without a visible form are escaped.
-/

namespace ReversePolish

namespace Text

/-- The quote that surrounds a text. -/
def quoteFor (text : List Char) : Char :=
  if '\x27' ∈ text ∧ '\x22' ∉ text then '\x22' else '\x27'

/-- A number in lower-case hexadecimal, of at least `width` places. -/
def hexEscape (width number : Nat) : List Char :=
  (Nat.toDigits 16 number).leftpad width '0'

/-- A character as it stands between quotes. -/
def escapeChar (quote char : Char) : List Char :=
  if char = quote ∨ char = '\\' then ['\\', char]
  else if char = '\n' then ['\\', 'n']
  else if char = '\r' then ['\\', 'r']
  else if char = '\t' then ['\\', 't']
  else if isPrintable char then [char]
  else if char.toNat ≤ 0xff then '\\' :: 'x' :: hexEscape 2 char.toNat
  else if char.toNat ≤ 0xffff then '\\' :: 'u' :: hexEscape 4 char.toNat
  else '\\' :: 'U' :: hexEscape 8 char.toNat

/-- A text between quotes. -/
def quoted (text : String) : String :=
  let quote := quoteFor text.toList
  String.ofList (quote :: text.toList.flatMap (escapeChar quote) ++ [quote])

end Text

end ReversePolish
