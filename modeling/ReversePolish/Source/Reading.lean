import ReversePolish.Source.Lexer

/-! # A text read directly

What the tokens of a text are, said without an automaton: at each point one blank
is dropped, or a comment with its line feed, or a longest run of digits is taken
as one number, or one operator symbol is taken; any other character ends the
reading with a failure. A text can so be divided into pieces, of which some are tokens
(`Piece.tokens`).
-/

namespace ReversePolish

/-- A character of a source that separates tokens and means nothing. -/
def isSourceBlank (char : Char) : Bool := char ∈ [' ', '\t', '\r', '\x0c', '\x0b', '\n']

/-- A character of a source that is an operator by itself. -/
def isOperatorSymbol (char : Char) : Bool := char ∈ ['+', '-', '*', '/']

/-- The number that a run of decimal digits spells. -/
def decimalValue (digits : List Char) : Nat := Nat.ofDigitChars 10 digits 0

/-- The number that a run of digits stands for in a token: that of its shortest
start that is out of range for a literal, or of all of it. -/
def literalValue (digits : List Char) : Nat :=
  let starts := (List.range (digits.length + 1)).map fun count => decimalValue (digits.take count)
  (starts.find? (literalLimit ≤ ·)).getD (decimalValue digits)

/-- The comment that a text starts with, its line feed included. -/
def commentAtFront (text : List Char) : List Char :=
  text.takeWhile (· ≠ '\n') ++ (text.dropWhile (· ≠ '\n')).take 1

theorem length_commentAtFront_pos (char : Char) (rest : List Char) :
    0 < (commentAtFront (char :: rest)).length := by
  by_cases feed : char = '\n'
  · simp [commentAtFront, feed]
  · simp [commentAtFront, feed]

/-- The tokens of a text that starts at a place, and the failure that ends
them, if one does. -/
def readTokens (position : Position) : List Char → TokenStream
  | [] => ⟨[], none⟩
  | char :: rest =>
      if isSourceBlank char then readTokens (position.advance char) rest
      else if char = '/' ∧ rest.head? = some '/' then
        let comment := commentAtFront (char :: rest)
        readTokens (position.past comment) ((char :: rest).drop comment.length)
      else if char.isDigit then
        let digits := char :: rest.takeWhile Char.isDigit
        (readTokens (position.past digits) (rest.dropWhile Char.isDigit)).cons
          (.number (literalValue digits) (some position))
      else if isOperatorSymbol char then
        (readTokens (position.advance char) rest).cons (.operator char.toString (some position))
      else ⟨[], some (.unexpectedCharacter position char)⟩
termination_by text => text.length
decreasing_by
  · simp
  · have := length_commentAtFront_pos char rest
    simp only [List.length_drop, List.length_cons]
    omega
  · have := (List.dropWhile_sublist Char.isDigit (l := rest)).length_le
    simp only [List.length_cons]
    omega
  · simp

/-- A piece of a source: a blank, a comment, a run of digits or an operator symbol. -/
inductive Piece where
  | blank (char : Char)
  | comment (text : List Char)
  | number (digits : List Char)
  | symbol (char : Char)
  deriving Repr, DecidableEq

namespace Piece

/-- The characters of a piece. -/
def chars : Piece → List Char
  | blank char => [char]
  | comment text => text
  | number digits => digits
  | symbol char => [char]

/-- A piece is made of characters of its kind. A comment has two slashes first, and no
line feed but at its end. -/
def Valid : Piece → Prop
  | blank char => isSourceBlank char
  | comment text =>
      ∃ body, '\n' ∉ body ∧
        (text = '/' :: '/' :: body ∨ text = '/' :: '/' :: (body ++ ['\n']))
  | number digits => digits ≠ [] ∧ ∀ digit ∈ digits, digit.isDigit
  | symbol char => isOperatorSymbol char

/-- The token that a piece is at a place, if it is one. -/
def token? (position : Position) : Piece → Option Token
  | number digits => some (.number (literalValue digits) (some position))
  | symbol char => some (.operator char.toString (some position))
  | _ => none

/-- The tokens among pieces that stand one after another from a place on. -/
def tokens (position : Position) : List Piece → List Token
  | [] => []
  | piece :: rest => (piece.token? position).toList ++ tokens (position.past piece.chars) rest

end Piece

end ReversePolish
