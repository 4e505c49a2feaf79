import ReversePolish.Proofs.Source.Reading

/-! # The pieces of a source

Direct reading divides a text into blanks, comments, runs of digits and operator symbols,
one after another, up to the end or to the character that it fails at (`Divides`). So
every character that is read belongs to exactly one of them, and with the lexer reading
directly the same is true of the lexer (`tokenize_eq_readTokens`).
-/

namespace ReversePolish

/-- The pieces of a text up to where its reading ends, and what is left there: nothing, or
a character that starts no piece. -/
structure Divides (position : Position) (text : List Char) (stream : TokenStream)
    (pieces : List Piece) (left : List Char) : Prop where
  text_eq : text = pieces.flatMap Piece.chars ++ left
  valid : ∀ piece ∈ pieces, piece.Valid
  tokens : stream.tokens = Piece.tokens position pieces
  accepted : stream.failure = none → left = []
  failed : ∀ diagnostic, stream.failure = some diagnostic →
    ∃ char later, left = char :: later ∧
      ¬ isSourceBlank char ∧ ¬ char.isDigit ∧ ¬ isOperatorSymbol char ∧
      diagnostic = .unexpectedCharacter (position.past (pieces.flatMap Piece.chars)) char

variable {position : Position} {text later left : List Char} {stream : TokenStream}
  {pieces : List Piece}

namespace Divides

theorem nil (position : Position) : Divides position [] ⟨[], none⟩ [] [] where
  text_eq := rfl
  valid := by simp
  tokens := rfl
  accepted _ := rfl
  failed _ failure := absurd failure (by simp)

theorem other {char : Char} (notBlank : ¬ isSourceBlank char) (notDigit : ¬ char.isDigit)
    (notSymbol : ¬ isOperatorSymbol char) :
    Divides position (char :: later) ⟨[], some (.unexpectedCharacter position char)⟩ []
      (char :: later) where
  text_eq := rfl
  valid := by simp
  tokens := rfl
  accepted failure := absurd failure (by simp)
  failed diagnostic failure :=
    ⟨char, later, rfl, notBlank, notDigit, notSymbol, (Option.some.inj failure).symm⟩

/-- One more piece before a divided text. -/
theorem cons {before : TokenStream} (piece : Piece)
    (divides : Divides (position.past piece.chars) later stream pieces left)
    (text_eq : text = piece.chars ++ later) (valid : piece.Valid)
    (tokens : before.tokens = (piece.token? position).toList ++ stream.tokens)
    (failure : before.failure = stream.failure) :
    Divides position text before (piece :: pieces) left where
  text_eq := by rw [text_eq, divides.text_eq, List.flatMap_cons, List.append_assoc]
  valid := List.forall_mem_cons.mpr ⟨valid, divides.valid⟩
  tokens := by rw [tokens, divides.tokens, Piece.tokens]
  accepted none := divides.accepted (failure ▸ none)
  failed diagnostic some := by
    rw [List.flatMap_cons, Position.past_append]
    exact divides.failed diagnostic (failure ▸ some)

end Divides

theorem commentAtFront_append_drop (text : List Char) :
    commentAtFront text ++ text.drop (commentAtFront text).length = text := by
  induction text with
  | nil => rfl
  | cons char rest ih =>
      by_cases feed : char = '\n'
      · subst feed
        rw [commentAtFront_feed]
        rfl
      · rw [commentAtFront_cons rest feed, List.length_cons, List.drop_succ_cons, List.cons_append,
          ih]

/-- A line feed stands at most at the end of a comment. -/
theorem exists_body_commentAtFront (text : List Char) :
    ∃ body, '\n' ∉ body ∧ (commentAtFront text = body ∨ commentAtFront text = body ++ ['\n']) := by
  induction text with
  | nil => exact ⟨[], by simp, .inl rfl⟩
  | cons char rest ih =>
      by_cases feed : char = '\n'
      · subst feed
        exact ⟨[], by simp, .inr (commentAtFront_feed rest)⟩
      · obtain ⟨body, inLine, comment⟩ := ih
        refine ⟨char :: body, by simp [inLine, Ne.symm feed], ?_⟩
        rw [commentAtFront_cons rest feed]
        exact comment.imp (congrArg _) (congrArg _)

theorem valid_comment (rest : List Char) :
    (Piece.comment (commentAtFront ('/' :: '/' :: rest))).Valid := by
  rw [commentAtFront_cons _ (by decide), commentAtFront_cons _ (by decide)]
  obtain ⟨body, inLine, comment⟩ := exists_body_commentAtFront rest
  refine ⟨body, inLine, ?_⟩
  exact comment.imp (congrArg fun tail => '/' :: '/' :: tail)
    (congrArg fun tail => '/' :: '/' :: tail)

/-- Direct reading divides every text. -/
theorem exists_divides (position : Position) (text : List Char) :
    ∃ pieces left, Divides position text (readTokens position text) pieces left := by
  induction position, text using readTokens.induct with
  | case1 position =>
      rw [readTokens]
      exact ⟨[], [], .nil position⟩
  | case2 position char rest blank ih =>
      obtain ⟨pieces, left, divides⟩ := ih
      rw [readTokens_of_blank blank]
      exact ⟨.blank char :: pieces, left, .cons (.blank char) divides rfl blank rfl rfl⟩
  | case3 position char rest _ pair _ ih =>
      obtain ⟨rfl, second⟩ := pair
      obtain ⟨tail, rfl⟩ : ∃ tail, rest = '/' :: tail := List.head?_eq_some_iff.mp second
      obtain ⟨pieces, left, divides⟩ := ih
      rw [readTokens_of_comment]
      exact ⟨_, left, .cons (.comment _) divides (commentAtFront_append_drop _).symm
        (valid_comment tail) rfl rfl⟩
  | case4 position char rest _ _ digit _ ih =>
      obtain ⟨pieces, left, divides⟩ := ih
      have digits : (Piece.number (char :: rest.takeWhile Char.isDigit)).Valid :=
        ⟨by simp, List.forall_mem_cons.mpr ⟨digit, List.all_eq_true.mp List.all_takeWhile⟩⟩
      rw [readTokens_of_digit digit]
      refine ⟨_, left, .cons (.number _) divides ?_ digits rfl rfl⟩
      exact congrArg _ List.takeWhile_append_dropWhile.symm
  | case5 position char rest _ single _ symbol ih =>
      obtain ⟨pieces, left, divides⟩ := ih
      rw [readTokens_of_symbol symbol single]
      exact ⟨_, left, .cons (.symbol char) divides rfl symbol rfl rfl⟩
  | case6 position char rest notBlank _ notDigit notSymbol =>
      rw [readTokens_of_other notBlank notDigit notSymbol]
      exact ⟨[], char :: rest, .other notBlank notDigit notSymbol⟩

/-- **The lexer reads directly**, to the same tokens at the same places and to the same
end or failure. So what it accepts is made up of tokens, blanks and comments, each
character in one of them. -/
theorem tokenize_eq_readTokens (text : List Char) :
    tokenize text = readTokens .start text ∧
      ∃ pieces left, Divides .start text (tokenize text) pieces left := by
  rw [tokenize_eq]
  exact ⟨rfl, exists_divides .start text⟩

end ReversePolish
