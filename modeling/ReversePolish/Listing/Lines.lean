import ReversePolish.Calculation

/-! # Listings line by line

The listing of a calculation has a line for each entry and a last line that halts
(`Calculation.listing`). What the lines of any listing say is told by its instruction column:
each line up to its comment, without the spaces that pad it (`instructionColumn`).
-/

namespace ReversePolish

/-- An entry as a line of a listing, without its end. -/
def Entry.line : Entry → String
  | number value => s!"push {value}"
  | operator applied => applied.mnemonic

namespace Calculation

/-- The lines of a calculation: one for each entry, and a halt. -/
def lines (entries : List Entry) : List (List Char) :=
  (entries.map fun entry => entry.line.toList) ++ ["halt".toList]

/-- The listing of a calculation: its lines one behind the other, and what ends the last. -/
def listing (entries : List Entry) (ending : List Char) : List Char :=
  ['\n'].intercalate (lines entries) ++ ending

end Calculation

namespace Text

/-- The lines of a text without their ends; nothing stands behind the last line feed. -/
def lines : List Char → List (List Char)
  | [] => []
  | char :: rest =>
      if char = '\n' then [] :: lines rest
      else
        match lines rest with
        | [] => [[char]]
        | line :: others => (char :: line) :: others

/-- A line up to its comment. -/
def beforeComment : List Char → List Char
  | [] => []
  | char :: rest =>
      if char = '/' ∧ rest.head? = some '/' then [] else char :: beforeComment rest

/-- A text without the spaces at its end. -/
def withoutPadding (text : List Char) : List Char := (text.reverse.dropWhile (· = ' ')).reverse

end Text

/-- What each line of a listing says before its comment. -/
def instructionColumn (text : List Char) : List (List Char) :=
  (Text.lines text).map fun line => Text.withoutPadding (Text.beforeComment line)

end ReversePolish
