import Mathlib.Data.List.Induction
import ReversePolish.Proofs.Source.Pieces

/-! # Where tokens and mistakes stand

The place that the lexer gives for a token or for a mistake can be read off the text alone:
the line from the line feeds before it, the column from the last of them
(`Position.PlaceIn`). The characters of the token stand there, those of a number with no
digit before them and none behind (`Occurrence.StandsFor`).

Direct reading only looks ahead. That a number has no digit before it comes from what has
been read: between that and what is left, no run of digits is cut (`Seam`), and each piece
that is read leaves it so.
-/

namespace ReversePolish

variable {before piece later text : List Char} {char : Char} {position : Position}

/-! ## Places of a text -/

/-- Where the last line feed before a place of a text stands, and -1 if there is none. -/
def lastFeedBefore (text : List Char) : (offset : Nat) → Int
  | 0 => -1
  | offset + 1 => if text[offset]? = some '\n' then offset else lastFeedBefore text offset

/-- The place of a character of a text: the line counts the line feeds before it, the
column the characters from the last of them on. -/
structure Position.PlaceIn (text : List Char) (position : Position) : Prop where
  inside : position.offset < text.length
  line : position.line = 1 + (text.take position.offset).count '\n'
  column : (position.column : Int) = position.offset - lastFeedBefore text position.offset

namespace Position

theorem column_after (before later : List Char) :
    ((after before).column : Int) =
      before.length - lastFeedBefore (before ++ later) before.length := by
  induction before using List.reverseRecOn generalizing later with
  | nil => rfl
  | append_singleton before char ih =>
      have found : (before ++ char :: later)[before.length]? = some char := by simp
      rw [after_append_singleton, List.append_assoc, List.singleton_append,
        List.length_append, List.length_singleton, lastFeedBefore, found]
      by_cases feed : char = '\n'
      · simp only [advance, feed, if_true]
        omega
      · have same := ih (char :: later)
        simp only [advance, feed, Option.some.injEq, if_false]
        omega

theorem placeIn_after (before : List Char) (nonempty : later ≠ []) :
    (after before).PlaceIn (before ++ later) where
  inside := by
    have positive := List.length_pos_iff.mpr nonempty
    rw [after_offset, List.length_append]
    omega
  line := by rw [after_offset, List.take_left, after_line]
  column := by rw [after_offset, column_after before later]

end Position

/-- The lexer some characters further on, if there are that many. -/
def Lexer.moved : (count : Nat) → Lexer → Option Lexer
  | 0, lexer => some lexer
  | count + 1, lexer => lexer.consume.bind (moved count)

/-- The lexer moves on with the place of what it has passed. -/
theorem Lexer.moved_eq (before later : List Char) (lexer : Lexer)
    (stands : lexer.rest = before ++ later) :
    lexer.moved before.length =
      some { lexer with rest := later, position := lexer.position.past before } := by
  induction before generalizing lexer with
  | nil => rw [List.length_nil, moved, Position.past_nil, ← stands.trans (List.nil_append later)]
  | cons char before ih =>
      rw [List.length_cons, moved, consume, stands]
      exact ih _ rfl

/-- A mistake of the lexer that names a character of the text and its place. -/
inductive Diagnostic.StandsIn (text : List Char) : Diagnostic → Prop where
  | unexpectedCharacter {position : Position} {char : Char} (place : position.PlaceIn text)
      (found : text[position.offset]? = some char) :
      StandsIn text (.unexpectedCharacter position char)

/-! ## What stands at a place -/

/-- Some characters of a text, and the place of the first of them. -/
structure Occurrence where
  position : Position
  lexeme : List Char

namespace Occurrence

/-- How many characters of the text come before the end of an occurrence. -/
def finish (occurrence : Occurrence) : Nat := occurrence.position.offset + occurrence.lexeme.length

/-- One occurrence starts before another, and ends before it. -/
structure Before (earlier later : Occurrence) : Prop where
  starts : earlier.position.offset < later.position.offset
  ends : earlier.finish ≤ later.position.offset

/-- What characters of a text spell: a number with a run of digits that no digit of the text
comes before or behind, an operator with its symbol. -/
inductive Spells (text : List Char) (occurrence : Occurrence) : Token → Prop where
  | number (nonempty : occurrence.lexeme ≠ [])
      (digits : ∀ char ∈ occurrence.lexeme, char.isDigit)
      (first : ∀ char ∈ (text.take occurrence.position.offset).getLast?, ¬ char.isDigit)
      (last : ∀ char ∈ (text.drop occurrence.finish).head?, ¬ char.isDigit) :
      Spells text occurrence
        (.number (literalValue occurrence.lexeme) (some occurrence.position))
  | operator {char : Char} (symbol : isOperatorSymbol char) (lexeme : occurrence.lexeme = [char]) :
      Spells text occurrence (.operator char.toString (some occurrence.position))

/-- An occurrence in a text that is a token there. -/
structure StandsFor (text : List Char) (occurrence : Occurrence) (token : Token) : Prop where
  place : occurrence.position.PlaceIn text
  starts : occurrence.lexeme <+: text.drop occurrence.position.offset
  spells : occurrence.Spells text token

end Occurrence

/-! ## Reading from a place on -/

/-- Two texts of which the second does not go on with a run of digits of the first. -/
def Seam (before later : List Char) : Prop :=
  ∀ last ∈ before.getLast?, last.isDigit → ∀ first ∈ later.head?, ¬ first.isDigit

theorem seam_append_singleton (before later : List Char) (notDigit : ¬ char.isDigit) :
    Seam (before ++ [char]) later := by
  intro last ends digit
  rw [List.getLast?_concat] at ends
  obtain rfl := Option.some.inj ends
  exact absurd digit notDigit

/-- A comment ends in a line feed, or with the text. -/
theorem seam_commentAtFront (before text : List Char) :
    Seam (before ++ commentAtFront text) (text.drop (commentAtFront text).length) := by
  induction text generalizing before with
  | nil => simp [Seam]
  | cons char rest ih =>
      by_cases feed : char = '\n'
      · subst feed
        rw [commentAtFront_feed]
        exact seam_append_singleton before rest (by decide)
      · have later := ih (before ++ [char])
        rw [List.append_assoc, List.singleton_append] at later
        rwa [commentAtFront_cons rest feed, List.length_cons, List.drop_succ_cons]

/-- A run of digits behind a seam is a number if no digit follows it. -/
theorem Occurrence.spells_number {digits : List Char} (nonempty : digits ≠ [])
    (inside : ∀ digit ∈ digits, digit.isDigit) (seam : Seam before (digits ++ later))
    (ends : ∀ char ∈ later.head?, ¬ char.isDigit) :
    Spells (before ++ (digits ++ later)) ⟨.after before, digits⟩
      (.number (literalValue digits) (some (.after before))) := by
  apply Spells.number nonempty inside
  · obtain ⟨first, others, rfl⟩ := List.exists_cons_of_ne_nil nonempty
    intro last stands digit
    rw [Position.after_offset, List.take_left] at stands
    exact seam last stands digit first rfl (inside first List.mem_cons_self)
  · rw [finish, Position.after_offset, ← List.append_assoc, ← List.length_append, List.drop_left]
    exact ends

/-- Characters that spell a token where they stand are an occurrence of it. -/
theorem Occurrence.standsFor_of_spells {token : Token} (nonempty : piece ≠ [])
    (spells : Spells (before ++ (piece ++ later)) ⟨.after before, piece⟩ token) :
    StandsFor (before ++ (piece ++ later)) ⟨.after before, piece⟩ token where
  place := Position.placeIn_after before (List.append_ne_nil_of_left_ne_nil nonempty later)
  starts := by
    rw [Position.after_offset, List.drop_left]
    exact List.prefix_append piece later
  spells := spells

/-- The occurrences of the tokens that are read from a text after what stands before it. -/
structure Locates (before later : List Char) (stream : TokenStream)
    (occurrences : List Occurrence) : Prop where
  tokens : List.Forall₂ (Occurrence.StandsFor (before ++ later)) occurrences stream.tokens
  apart : occurrences.Pairwise Occurrence.Before
  behind : ∀ occurrence ∈ occurrences, before.length ≤ occurrence.position.offset
  failed : ∀ diagnostic ∈ stream.failure, diagnostic.StandsIn (before ++ later)

namespace Locates

variable {stream : TokenStream} {occurrences : List Occurrence}

/-- One more piece before what is left, which is no token. -/
theorem skip (located : Locates (before ++ piece) later stream occurrences) :
    Locates before (piece ++ later) stream occurrences where
  tokens := by
    rw [← List.append_assoc]
    exact located.tokens
  apart := located.apart
  behind occurrence member := by
    have behind := located.behind occurrence member
    rw [List.length_append] at behind
    omega
  failed := by
    rw [← List.append_assoc]
    exact located.failed

/-- One more piece before what is left, which is a token. -/
theorem cons {token : Token} (nonempty : piece ≠ [])
    (spells : Occurrence.Spells (before ++ (piece ++ later)) ⟨.after before, piece⟩ token)
    (located : Locates (before ++ piece) later stream occurrences) :
    Locates before (piece ++ later) (stream.cons token)
      (⟨.after before, piece⟩ :: occurrences) where
  tokens := .cons (Occurrence.standsFor_of_spells nonempty spells) located.skip.tokens
  apart := by
    refine List.pairwise_cons.mpr ⟨?_, located.apart⟩
    intro occurrence member
    have behind := located.behind occurrence member
    have positive := List.length_pos_iff.mpr nonempty
    rw [List.length_append] at behind
    constructor
    · rw [Position.after_offset]
      omega
    · rw [Occurrence.finish, Position.after_offset]
      exact behind
  behind := by
    refine List.forall_mem_cons.mpr ⟨?_, located.skip.behind⟩
    rw [Position.after_offset]
  failed := located.skip.failed

end Locates

/-- What is read after a text at the place where that ends, if no run of digits is cut there. -/
theorem exists_locates (position : Position) (later : List Char) :
    ∀ before, position = .after before → Seam before later →
      ∃ occurrences, Locates before later (readTokens position later) occurrences := by
  induction position, later using readTokens.induct with
  | case1 position =>
      intro before reached seam
      rw [readTokens]
      exact ⟨[], .nil, .nil, by simp, by simp⟩
  | case2 position char rest blank ih =>
      intro before reached seam
      subst reached
      have notDigit : ¬ char.isDigit := not_isDigit_of_isSourceBlank blank
      obtain ⟨occurrences, located⟩ := ih _ (Position.after_append_singleton before char).symm
        (seam_append_singleton before rest notDigit)
      rw [readTokens_of_blank blank]
      exact ⟨occurrences, located.skip⟩
  | case3 position char rest _ pair _ ih =>
      intro before reached seam
      subst reached
      obtain ⟨rfl, second⟩ := pair
      obtain ⟨tail, rfl⟩ : ∃ tail, rest = '/' :: tail := List.head?_eq_some_iff.mp second
      obtain ⟨occurrences, located⟩ := ih _
        (Position.after_append before (commentAtFront ('/' :: '/' :: tail))).symm
        (seam_commentAtFront before _)
      have skipped := located.skip
      rw [commentAtFront_append_drop] at skipped
      rw [readTokens_of_comment]
      exact ⟨occurrences, skipped⟩
  | case4 position char rest _ _ digit _ ih =>
      intro before reached seam
      subst reached
      have inside : ∀ digit ∈ char :: rest.takeWhile Char.isDigit, digit.isDigit :=
        List.forall_mem_cons.mpr ⟨digit, List.all_eq_true.mp List.all_takeWhile⟩
      have ends := not_isDigit_of_mem_head?_dropWhile rest
      obtain ⟨occurrences, located⟩ := ih _
        (Position.after_append before (char :: rest.takeWhile Char.isDigit)).symm
        fun _ _ _ => ends
      have whole : char :: rest = (char :: rest.takeWhile Char.isDigit) ++
          rest.dropWhile Char.isDigit := congrArg _ List.takeWhile_append_dropWhile.symm
      rw [whole] at seam
      have spells := Occurrence.spells_number (List.cons_ne_nil char _) inside seam ends
      rw [readTokens_of_digit digit, whole]
      exact ⟨_, located.cons (List.cons_ne_nil char _) spells⟩
  | case5 position char rest _ single _ symbol ih =>
      intro before reached seam
      subst reached
      have notDigit : ¬ char.isDigit := not_isDigit_of_isOperatorSymbol symbol
      obtain ⟨occurrences, located⟩ := ih _ (Position.after_append_singleton before char).symm
        (seam_append_singleton before rest notDigit)
      rw [readTokens_of_symbol symbol single]
      exact ⟨_, located.cons (List.cons_ne_nil char []) (.operator symbol rfl)⟩
  | case6 position char rest notBlank _ notDigit notSymbol =>
      intro before reached seam
      subst reached
      rw [readTokens_of_other notBlank notDigit notSymbol]
      refine ⟨[], .nil, .nil, by simp, ?_⟩
      intro diagnostic failed
      obtain rfl := Option.some.inj failed
      refine .unexpectedCharacter (Position.placeIn_after before (List.cons_ne_nil char rest)) ?_
      rw [Position.after_offset, List.getElem?_append_right (le_refl before.length), Nat.sub_self]
      rfl

/-- **The lexer gives exact places**, to the tokens of every text and to its mistake. Each
token stands where it says, and none reaches into the next. -/
theorem tokenize_places (text : List Char) :
    (∃ occurrences : List Occurrence,
      List.Forall₂ (Occurrence.StandsFor text) occurrences (tokenize text).tokens ∧
        occurrences.Pairwise Occurrence.Before) ∧
      ∀ diagnostic ∈ (tokenize text).failure, diagnostic.StandsIn text := by
  obtain ⟨occurrences, located⟩ := exists_locates .start text [] rfl (by simp [Seam])
  rw [tokenize_eq]
  exact ⟨⟨occurrences, located.tokens, located.apart⟩, located.failed⟩

end ReversePolish
