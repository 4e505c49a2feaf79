/-! # Tab stops

A listing is read with its tabs expanded: a tab becomes the spaces up to the
next stop, stops stand every eight columns, and columns start anew after a line
feed or a carriage return.
-/

namespace ReversePolish

namespace Text

/-- Columns between two tab stops. -/
def tabWidth : Nat := 8

/-- Reads the rest of a text at a column; `read` holds what is already
expanded, last character first. -/
def expandFrom (column : Nat) (read : List Char) : List Char → List Char
  | [] => read.reverse
  | char :: rest =>
      if char = '\t' then
        let width := tabWidth - column % tabWidth
        expandFrom (column + width) (List.replicate width ' ' ++ read) rest
      else if char = '\n' ∨ char = '\r' then expandFrom 0 (char :: read) rest
      else expandFrom (column + 1) (char :: read) rest

/-- A text with its tabs expanded. -/
def expandTabs (text : List Char) : List Char := expandFrom 0 [] text

end Text

end ReversePolish
