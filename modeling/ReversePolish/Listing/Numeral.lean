import ReversePolish.Diagnostic
import ReversePolish.Text.Digit
import ReversePolish.Word.Layout

/-! # Numerals of a listing

A numeral is decimal, or hexadecimal after `0x` or `0X`. It is read digit by
digit and given up as soon as it passes the largest word: the value is then the
least one that is out of range.
-/

namespace ReversePolish

namespace Numeral

/-- A decimal digit that a listing's numerals are made of. -/
def isDecimal (char : Char) : Bool := char.isDigit

/-- A hexadecimal digit that a listing's numerals are made of. -/
def isHexadecimal (char : Char) : Bool :=
  char.isDigit || ('a' ≤ char && char ≤ 'f') || ('A' ≤ char && char ≤ 'F')

/-- The longest numeral a text starts with; empty if it starts with none. -/
def atFront : List Char → List Char
  | '0' :: mark :: rest =>
      if (mark = 'x' ∨ mark = 'X') ∧ rest.takeWhile isHexadecimal ≠ [] then
        '0' :: mark :: rest.takeWhile isHexadecimal
      else ('0' :: mark :: rest).takeWhile isDecimal
  | text => text.takeWhile isDecimal

/-- Reads digits on from a value, to one past the largest word. -/
def accumulate (base value : Nat) : List Char → Except Diagnostic Nat
  | [] => .ok value
  | char :: rest =>
      match Text.hexDigit? char with
      | none => .error (.notADigit char)
      | some digit =>
          let value := value * base + digit
          if value > wordMask then .ok (wordMask + 1) else accumulate base value rest

/-- The value of a numeral, to one past the largest word. -/
def read : List Char → Except Diagnostic Nat
  | '0' :: mark :: digits =>
      if mark = 'x' ∨ mark = 'X' then accumulate 16 0 digits
      else accumulate 10 0 ('0' :: mark :: digits)
  | digits => accumulate 10 0 digits

theorem atFront_prefix (text : List Char) : atFront text <+: text := by
  unfold atFront
  split
  · split
    · next mark rest _ =>
        exact List.prefix_append_right_inj ['0', mark] |>.mpr (List.takeWhile_prefix _)
    · exact List.takeWhile_prefix _
  · exact List.takeWhile_prefix _

end Numeral

end ReversePolish
