import ReversePolish.Proofs.Source.Pieces
import ReversePolish.Proofs.Source.Stream

/-! # The leftmost mistake of a source

The pieces of a source stand for the entries of a calculation
(`Piece.mapM_entry_tokens`), and each entry has a word if no number is out of range for a
literal. So a source is compiled unless a number is out of range or a character starts
nothing, and of several mistakes the leftmost is reported (`compileSource_leftmost`).
-/

namespace ReversePolish

theorem exists_operator_of_isOperatorSymbol {char : Char} (symbol : isOperatorSymbol char) :
    ∃ operator : Operator, operator.symbol = char := by
  simp only [isOperatorSymbol, decide_eq_true_eq, List.mem_cons, List.not_mem_nil, or_false]
    at symbol
  rcases symbol with rfl | rfl | rfl | rfl
  · exact ⟨.add, rfl⟩
  · exact ⟨.sub, rfl⟩
  · exact ⟨.mul, rfl⟩
  · exact ⟨.div, rfl⟩

namespace Piece

variable {position : Position} {piece : Piece} {pieces earlier later : List Piece}
  {digits : List Char} {entry : Entry}

/-- A number among pieces is in range for a literal. -/
def InRange : Piece → Prop
  | number digits => decimalValue digits < literalLimit
  | _ => True

/-- The entry that a piece stands for, if it is a token. -/
def meaning? : Piece → Option Entry
  | number digits => some (.number (literalValue digits))
  | symbol char => (Operator.ofSymbol? char.toString).map .operator
  | _ => none

theorem tokens_append (position : Position) (earlier later : List Piece) :
    tokens position (earlier ++ later) =
      tokens position earlier ++ tokens (position.past (earlier.flatMap chars)) later := by
  induction earlier generalizing position with
  | nil => rfl
  | cons piece rest ih =>
      rw [List.cons_append, tokens, ih, tokens, List.flatMap_cons, Position.past_append,
        List.append_assoc]

/-- Every token that is a piece stands for the entry of the piece. -/
theorem mapM_entry_tokens (position : Position) (valid : ∀ piece ∈ pieces, piece.Valid) :
    (tokens position pieces).mapM Token.entry? = some (pieces.filterMap meaning?) := by
  induction pieces generalizing position with
  | nil => rfl
  | cons piece rest ih =>
      obtain ⟨valid, valid_rest⟩ := List.forall_mem_cons.mp valid
      have later := ih (position.past piece.chars) valid_rest
      rw [tokens]
      cases piece with
      | blank char | comment text => exact later
      | number digits => exact mapM_cons_eq_some_iff.mpr ⟨_, _, rfl, later, rfl⟩
      | symbol char =>
          obtain ⟨operator, rfl⟩ := exists_operator_of_isOperatorSymbol valid
          have stands : (symbol operator.symbol).meaning? = some (.operator operator) :=
            congrArg (Option.map Entry.operator) (Operator.ofSymbol?_symbol operator)
          exact mapM_cons_eq_some_iff.mpr ⟨_, _, Token.entry?_symbol operator _, later,
            List.filterMap_cons_some stands⟩

theorem exists_piece_of_mem_tokens {token : Token} (member : token ∈ tokens position pieces) :
    ∃ piece ∈ pieces, ∃ place, piece.token? place = some token := by
  induction pieces generalizing position with
  | nil => exact absurd member List.not_mem_nil
  | cons piece rest ih =>
      rw [tokens, List.mem_append, Option.mem_toList] at member
      rcases member with first | member
      · exact ⟨piece, List.mem_cons_self .., position, first⟩
      · obtain ⟨piece, inRest, found⟩ := ih member
        exact ⟨piece, List.mem_cons_of_mem _ inRest, found⟩

/-- What keeps a token that is a piece from having a word is its value. -/
theorem eq_of_encode_eq_error {token : Token} {diagnostic : Diagnostic} (valid : piece.Valid)
    (isToken : piece.token? position = some token) (failed : token.encode = .error diagnostic) :
    diagnostic = .literalOutOfRange (some position) := by
  cases piece with
  | blank char | comment text => cases isToken
  | number digits =>
      obtain rfl := Option.some.inj isToken
      rw [Token.encode] at failed
      cases encoded : encodeLiteral? (literalValue digits) <;> rw [encoded] at failed <;>
        cases failed
      rfl
  | symbol char =>
      obtain rfl := Option.some.inj isToken
      obtain ⟨operator, rfl⟩ := exists_operator_of_isOperatorSymbol valid
      rw [Token.encode, Operator.ofSymbol?_symbol] at failed
      cases failed

theorem exists_position_of_mapM_encode_eq_error {diagnostic : Diagnostic}
    (valid : ∀ piece ∈ pieces, piece.Valid)
    (failed : (tokens position pieces).mapM Token.encode = .error diagnostic) :
    ∃ place, diagnostic = .literalOutOfRange (some place) := by
  obtain ⟨token, member, failed⟩ := exists_of_mapM_eq_error failed
  obtain ⟨piece, inPieces, place, isToken⟩ := exists_piece_of_mem_tokens member
  exact ⟨place, eq_of_encode_eq_error (valid piece inPieces) isToken failed⟩

theorem encodable_number_iff :
    (Entry.number (literalValue digits)).instruction.Encodable ↔ (number digits).InRange := by
  rw [InRange, ← literalValue_lt_iff, ← Int.ofNat_lt]
  exact and_iff_right (Int.natCast_nonneg _)

theorem encodable_of_inRange (inRange : piece.InRange) (stands : piece.meaning? = some entry) :
    entry.instruction.Encodable := by
  cases piece with
  | blank char | comment text => cases stands
  | number digits =>
      obtain rfl := Option.some.inj stands
      exact encodable_number_iff.mpr inRange
  | symbol char =>
      obtain ⟨applied, -, rfl⟩ := Option.map_eq_some_iff.mp stands
      exact Instruction.encodable_primitive _

/-- Tokens have words if their numbers are in range. -/
theorem mapM_encode_of_inRange (position : Position) (valid : ∀ piece ∈ pieces, piece.Valid)
    (inRange : ∀ piece ∈ pieces, piece.InRange) :
    (tokens position pieces).mapM Token.encode =
      .ok (Calculation.words (pieces.filterMap meaning?)) := by
  refine mapM_encode_eq_ok_iff.mpr ⟨_, mapM_entry_tokens position valid, ?_, rfl⟩
  intro entry member
  obtain ⟨piece, inPieces, stands⟩ := List.mem_filterMap.mp member
  exact encodable_of_inRange (inRange piece inPieces) stands

/-- The first number out of range is the token at fault, whatever comes after it. -/
theorem mapM_encode_of_outOfRange (position : Position) (valid : ∀ piece ∈ earlier, piece.Valid)
    (inRange : ∀ piece ∈ earlier, piece.InRange) (large : ¬ (number digits).InRange) :
    (tokens position (earlier ++ number digits :: later)).mapM Token.encode =
      .error (.literalOutOfRange (some (position.past (earlier.flatMap chars)))) := by
  have failed : encodeLiteral? (literalValue digits) = none :=
    if_neg (mt encodable_number_iff.mp large)
  rw [tokens_append]
  refine mapM_append_cons_eq_error (mapM_encode_of_inRange position valid inRange) ?_
  rw [Token.encode, failed]

end Piece

/-- **The leftmost mistake is the one reported.** The tokens of a source are pieces of it. At
the first number out of range for a literal the source is refused, whatever follows, such as
a character that starts nothing. If no number is out of range, it is refused where the lexer
fails, and compiled if the lexer does not fail. Nothing else is ever reported. -/
theorem compileSource_leftmost (text : List Char) :
    ∃ pieces left, Divides .start text (tokenize text) pieces left ∧
      (∀ earlier digits later, pieces = earlier ++ .number digits :: later →
        (∀ piece ∈ earlier, piece.InRange) → literalLimit ≤ decimalValue digits →
        compileSource text =
          .error (.literalOutOfRange (some (Position.after (earlier.flatMap Piece.chars))))) ∧
      ((∀ piece ∈ pieces, piece.InRange) →
        (∀ diagnostic, (tokenize text).failure = some diagnostic →
          compileSource text = .error diagnostic) ∧
        ((tokenize text).failure = none → ∃ image, compileSource text = .ok image)) ∧
      ∀ diagnostic, compileSource text = .error diagnostic →
        (∃ position, diagnostic = .literalOutOfRange (some position)) ∨
          ∃ position char, diagnostic = .unexpectedCharacter position char := by
  obtain ⟨pieces, left, divides⟩ := (tokenize_eq_readTokens text).2
  refine ⟨pieces, left, divides, ?_, ?_, ?_⟩
  · rintro earlier digits later rfl inRange large
    have valid := (List.forall_mem_append.mp divides.valid).1
    rw [compileSource_eq, map_eq_error_iff, TokenStream.encode_eq_error_iff, divides.tokens]
    exact .inl (Piece.mapM_encode_of_outOfRange .start valid inRange (Nat.not_lt.mpr large))
  · intro inRange
    have encoded := Piece.mapM_encode_of_inRange .start divides.valid inRange
    rw [← divides.tokens] at encoded
    constructor
    · intro diagnostic failure
      rw [compileSource_eq, map_eq_error_iff]
      exact TokenStream.encode_eq_error_iff.mpr (.inr ⟨⟨_, encoded⟩, failure⟩)
    · intro accepted
      rw [compileSource_eq, TokenStream.encode_eq_ok_iff.mpr ⟨encoded, accepted⟩]
      exact ⟨_, rfl⟩
  · intro diagnostic failed
    rw [compileSource_eq, map_eq_error_iff] at failed
    rcases TokenStream.encode_eq_error_iff.mp failed with failed | ⟨-, failure⟩
    · rw [divides.tokens] at failed
      obtain ⟨place, rfl⟩ := Piece.exists_position_of_mapM_encode_eq_error divides.valid failed
      exact .inl ⟨place, rfl⟩
    · obtain ⟨char, later, -, -, -, -, rfl⟩ := divides.failed diagnostic failure
      exact .inr ⟨_, char, rfl⟩

/-- The literal is to the left of the character that starts nothing. -/
example : compileSource "1073741824$".toList = .error (.literalOutOfRange (some ⟨0, 1, 1⟩)) := rfl

/-- The character is to the left of the literal. -/
example : compileSource "$ 1073741824".toList = .error (.unexpectedCharacter ⟨0, 1, 1⟩ '$') := rfl

end ReversePolish
