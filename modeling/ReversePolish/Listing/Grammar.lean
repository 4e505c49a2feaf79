import ReversePolish.Listing.Statement
import ReversePolish.Word.Layout

/-! # The grammar of listings

What a listing is, said without a parser: a gap, a statement, a gap, a statement, and so
on to a last gap. A gap is made of blanks and comments; a statement is a keyword that
touches no character of a word, and after the keywords of two statements a gap and a
numeral. `Composes` says that a text is put together in this way, and `Statement.Means`
what word a statement stands for.
-/

namespace ReversePolish

/-- Blanks and comments one after another, before a text. A comment goes on to the end of
its line: what comes after it is a line feed or nothing. -/
inductive Gap (after : List Char) : List Char → Prop where
  | empty : Gap after []
  | blank {char : Char} {gap : List Char} (blank : isBlank char) (more : Gap after gap) :
      Gap after (char :: gap)
  | comment {body gap : List Char} (inLine : '\n' ∉ body)
      (ends : ∀ char ∈ (gap ++ after).head?, char = '\n') (more : Gap after gap) :
      Gap after ('/' :: '/' :: (body ++ gap))

namespace Numeral

/-- The value of a digit of either case. -/
def digitValue (digit : Char) : Nat := "0123456789abcdef".toList.idxOf digit.toLower

/-- The number that digits spell to a base. -/
def valueOf (base : Nat) (digits : List Char) : Nat :=
  digits.foldl (fun value digit => value * base + digitValue digit) 0

/-- A numeral and its value: digits to base ten, or to base sixteen after `0x` or `0X`. -/
inductive Denotes : List Char → Nat → Prop where
  | decimal {digits : List Char} (nonempty : digits ≠ [])
      (decimal : ∀ digit ∈ digits, isDecimal digit) : Denotes digits (valueOf 10 digits)
  | hexadecimal {mark : Char} {digits : List Char} (marked : mark = 'x' ∨ mark = 'X')
      (nonempty : digits ≠ []) (hexadecimal : ∀ digit ∈ digits, isHexadecimal digit) :
      Denotes ('0' :: mark :: digits) (valueOf 16 digits)

end Numeral

namespace Statement

/-- The keyword of a statement. -/
def keyword : Statement → List Char
  | push _ => "push".toList
  | op opcode => opcode.mnemonic.toList
  | word _ => ".word".toList

/-- What is written between the keyword of a statement and the text after it. -/
inductive Operand (after : List Char) : Statement → List Char → Prop where
  | op (opcode : Opcode) : Operand after (op opcode) []
  | push {inner numeral : List Char} {value : Nat} (gap : Gap (numeral ++ after) inner)
      (denotes : Numeral.Denotes numeral value) : Operand after (push numeral) (inner ++ numeral)
  | word {inner numeral : List Char} {value : Nat} (gap : Gap (numeral ++ after) inner)
      (denotes : Numeral.Denotes numeral value) : Operand after (word numeral) (inner ++ numeral)

/-- The word that a statement stands for, if its value is in range. -/
inductive Means : Statement → Nat → Prop where
  | push {numeral : List Char} {value : Nat} (denotes : Numeral.Denotes numeral value)
      (inRange : value < literalLimit) : Means (push numeral) value
  | op (opcode : Opcode) : Means (op opcode) (literalLimit + opcode.code)
  | word {numeral : List Char} {value : Nat} (denotes : Numeral.Denotes numeral value)
      (inRange : value < wordRange) : Means (word numeral) value

end Statement

/-- A statement as it is written, after the gap before it. -/
structure Phrase where
  gap : List Char
  statement : Statement
  operand : List Char
  deriving Repr, DecidableEq

/-- No character of a word stands at a place in a text. -/
def Apart (char? : Option Char) : Prop := ∀ char ∈ char?, ¬ isWordChar char

namespace Phrase

/-- The characters of a phrase. -/
def chars (phrase : Phrase) : List Char :=
  phrase.gap ++ phrase.statement.keyword ++ phrase.operand

/-- A phrase that stands between two texts. -/
structure Stands (before after : List Char) (phrase : Phrase) : Prop where
  gap : Gap (phrase.statement.keyword ++ phrase.operand ++ after) phrase.gap
  operand : phrase.statement.Operand after phrase.operand
  /-- The keyword does not run on from what is before it. -/
  apart_before : Apart (before ++ phrase.gap).getLast?
  /-- The keyword does not run into what is after it. -/
  apart_after : Apart (phrase.operand ++ after).head?

/-- The characters of phrases and of the gap after them. -/
def text (phrases : List Phrase) (last : List Char) : List Char := phrases.flatMap chars ++ last

/-- Phrases that stand one after another behind a text, and a gap at the end. -/
def AllStand (before : List Char) : List Phrase → List Char → Prop
  | [], last => Gap [] last
  | phrase :: rest, last =>
      phrase.Stands before (text rest last) ∧ AllStand (before ++ phrase.chars) rest last

end Phrase

/-- A whole text made up of phrases and a last gap. -/
structure Composes (listing : List Char) (phrases : List Phrase) (last : List Char) : Prop where
  text_eq : listing = Phrase.text phrases last
  stand : Phrase.AllStand [] phrases last

end ReversePolish
