import ReversePolish.Proofs.Source.Pieces
import ReversePolish.Proofs.Source.Stream
import ReversePolish.Source.Concatenation

/-! # Compiling sources one behind another

A line break ends whatever a source leaves open: a number, a single slash, a comment. So a
source before a line break is read as if it ended there (`readTokens_append`), and what
follows is read as a source of its own at places that have moved on
(`readTokens_behind`). The words of both are then the words of the whole, and the halt of
the first program is the only thing that is dropped (`compileSource_append`).
-/

namespace ReversePolish

variable {before body first second separator text later : List Char} {position : Position}
  {diagnostic : Diagnostic}

/-! ## Places behind a text of whole lines -/

namespace Position

theorem advance_behind (before : List Char) (position : Position) (char : Char) :
    (position.behind before).advance char = (position.advance char).behind before := by
  unfold advance behind
  split <;> simp <;> omega

theorem past_behind (before : List Char) (position : Position) (text : List Char) :
    (position.behind before).past text = (position.past text).behind before := by
  induction text generalizing position with
  | nil => rfl
  | cons char rest ih => rw [past_cons, past_cons, advance_behind, ih]

/-- The place after whole lines is the start of the text behind them. -/
theorem after_append_feed (lines : List Char) :
    after (lines ++ ['\n']) = start.behind (lines ++ ['\n']) := by
  have column : (after (lines ++ ['\n'])).column = 1 := by
    rw [after, past_append]
    rfl
  have offset := after_offset (lines ++ ['\n'])
  have line := after_line (lines ++ ['\n'])
  cases place : after (lines ++ ['\n']) with
  | mk placeOffset placeLine placeColumn =>
      rw [place] at column offset line
      simp only at column offset line
      simp only [behind, start, column, offset, line, Nat.zero_add]

end Position

theorem TokenStream.append_cons (token : Token) (stream following : TokenStream) :
    (stream.cons token).append following = (stream.append following).cons token := by
  obtain ⟨tokens, failure⟩ := stream
  cases failure <;> rfl

/-- **A text behind whole lines is read as it is on its own**, at places that have moved
on. -/
theorem readTokens_behind (before : List Char) (position : Position) (text : List Char) :
    readTokens (position.behind before) text = (readTokens position text).behind before := by
  induction position, text using readTokens.induct with
  | case1 position =>
      rw [readTokens, readTokens]
      rfl
  | case2 position char rest blank ih =>
      rw [readTokens_of_blank blank, readTokens_of_blank blank, Position.advance_behind, ih]
  | case3 position char rest _ pair _ ih =>
      obtain ⟨rfl, second⟩ := pair
      obtain ⟨tail, rfl⟩ : ∃ tail, rest = '/' :: tail := List.head?_eq_some_iff.mp second
      rw [readTokens_of_comment, readTokens_of_comment, readPastComment, Position.past_behind, ih]
      rfl
  | case4 position char rest _ _ digit _ ih =>
      rw [readTokens_of_digit digit, readTokens_of_digit digit, Position.past_behind, ih]
      rfl
  | case5 position char rest _ single _ symbol ih =>
      rw [readTokens_of_symbol symbol single, readTokens_of_symbol symbol single,
        Position.advance_behind, ih]
      rfl
  | case6 position char rest notBlank _ notDigit notSymbol =>
      rw [readTokens_of_other notBlank notDigit notSymbol,
        readTokens_of_other notBlank notDigit notSymbol]
      rfl

/-! ## A line break after a text -/

theorem commentAtFront_line (inLine : '\n' ∉ body) (later : List Char) :
    commentAtFront (body ++ '\n' :: later) = body ++ ['\n'] := by
  induction body with
  | nil => exact commentAtFront_feed later
  | cons char rest ih =>
      obtain ⟨notFeed, inLine⟩ := List.ne_and_not_mem_of_not_mem_cons inLine
      rw [List.cons_append, commentAtFront_cons _ (Ne.symm notFeed), ih inLine, List.cons_append]

theorem readPastComment_line (inLine : '\n' ∉ body) (position : Position) (later : List Char) :
    readPastComment position (body ++ '\n' :: later) =
      readTokens (position.past (body ++ ['\n'])) later := by
  have split : body ++ '\n' :: later = (body ++ ['\n']) ++ later := by simp
  rw [readPastComment, commentAtFront_line inLine, split, List.drop_left]

/-- A comment is no token, and reading goes on behind its line feed. -/
theorem readTokens_of_line (inLine : '\n' ∉ body) (position : Position) (later : List Char) :
    readTokens position ('/' :: '/' :: (body ++ ['\n']) ++ later) =
      readTokens (position.past ('/' :: '/' :: (body ++ ['\n']))) later := by
  have inComment : '\n' ∉ '/' :: '/' :: body := by simp [inLine]
  calc readTokens position ('/' :: '/' :: (body ++ ['\n']) ++ later)
      = readPastComment position ('/' :: '/' :: body ++ '\n' :: later) := by
        rw [List.cons_append, List.cons_append, readTokens_of_comment, List.append_assoc]
        rfl
    _ = _ := readPastComment_line inComment position later

/-- A comment that a line feed follows ends with the first one. -/
theorem exists_line_of_comment {tail : List Char} (feed : '\n' ∈ tail) :
    ∃ body later, '\n' ∉ body ∧
      '/' :: '/' :: tail = '/' :: '/' :: (body ++ ['\n']) ++ later ∧
      commentAtFront ('/' :: '/' :: tail) = '/' :: '/' :: (body ++ ['\n']) := by
  obtain ⟨body, later, rfl, inLine⟩ := List.eq_append_cons_of_mem feed
  have inComment : '\n' ∉ '/' :: '/' :: body := by simp [inLine]
  exact ⟨body, later, inLine, by simp, commentAtFront_line inComment later⟩

namespace LineBreak

/-- A line break is the rest of a line. -/
theorem exists_line (isBreak : LineBreak separator) :
    ∃ line, '\n' ∉ line ∧ separator = line ++ ['\n'] := by
  cases isBreak with
  | feed => exact ⟨[], by simp, rfl⟩
  | @comment body inLine => exact ⟨' ' :: '/' :: '/' :: body, by simp [inLine], rfl⟩

/-- A line break runs on from no number and from no slash. -/
theorem head?_append (isBreak : LineBreak separator) (later : List Char) :
    ∀ char ∈ (separator ++ later).head?, ¬ char.isDigit ∧ char ≠ '/' := by
  cases isBreak with
  | feed =>
      intro char head
      obtain rfl : '\n' = char := Option.some.inj head
      decide
  | comment inLine =>
      intro char head
      obtain rfl : ' ' = char := Option.some.inj head
      decide

/-- A line break is no token. -/
theorem readTokens (isBreak : LineBreak separator) (position : Position) (later : List Char) :
    readTokens position (separator ++ later) = readTokens (position.past separator) later := by
  cases isBreak with
  | feed => exact readTokens_of_blank (by decide)
  | @comment body inLine =>
      calc ReversePolish.readTokens position (' ' :: '/' :: '/' :: (body ++ ['\n']) ++ later)
          = ReversePolish.readTokens (position.advance ' ')
              ('/' :: '/' :: (body ++ ['\n']) ++ later) := readTokens_of_blank (by decide)
        _ = _ := readTokens_of_line inLine _ later

end LineBreak

/-! ## Reading on behind a line break -/

theorem commentAtFront_append (feed : '\n' ∈ text) (later : List Char) :
    commentAtFront (text ++ later) = commentAtFront text := by
  induction text with
  | nil => exact absurd feed List.not_mem_nil
  | cons char rest ih =>
      by_cases isFeed : char = '\n'
      · subst isFeed
        rw [List.cons_append, commentAtFront_feed, commentAtFront_feed]
      · have inRest := (List.mem_cons.mp feed).resolve_left (Ne.symm isFeed)
        rw [List.cons_append, commentAtFront_cons _ isFeed, commentAtFront_cons _ isFeed, ih inRest]

theorem commentAtFront_of_not_mem (inLine : '\n' ∉ text) : commentAtFront text = text := by
  induction text with
  | nil => rfl
  | cons char rest ih =>
      obtain ⟨notFeed, inLine⟩ := List.ne_and_not_mem_of_not_mem_cons inLine
      rw [commentAtFront_cons _ (Ne.symm notFeed), ih inLine]

/-- A comment ends in the text it starts in, or at the line break after that. -/
theorem readPastComment_append (isBreak : LineBreak separator) (position : Position)
    (text second : List Char)
    (left : readTokens (position.past (commentAtFront text))
        (text.drop (commentAtFront text).length ++ (separator ++ second)) =
      (readPastComment position text).append
        (readTokens ((position.past (commentAtFront text)).past
          (text.drop (commentAtFront text).length ++ separator)) second)) :
    readPastComment position (text ++ (separator ++ second)) =
      (readPastComment position text).append
        (readTokens (position.past (text ++ separator)) second) := by
  by_cases feed : '\n' ∈ text
  · have whole := commentAtFront_append_drop text
    have within : (commentAtFront text).length ≤ text.length := List.IsPrefix.length_le ⟨_, whole⟩
    have place : (position.past (commentAtFront text)).past
        (text.drop (commentAtFront text).length ++ separator) =
          position.past (text ++ separator) := by
      rw [← Position.past_append, ← List.append_assoc, whole]
    rw [place] at left
    rw [← left, readPastComment, commentAtFront_append feed,
      List.drop_append_of_le_length within]
  · obtain ⟨line, inLine, rfl⟩ := isBreak.exists_line
    have split : text ++ (line ++ ['\n'] ++ second) = text ++ line ++ '\n' :: second := by simp
    rw [split, readPastComment_line (List.not_mem_append feed inLine), readPastComment,
      commentAtFront_of_not_mem feed, List.drop_length, readTokens, List.append_assoc]
    rfl

/-- **A source before a line break is read as if it ended there**, and reading goes on behind
the line break unless it has failed before. -/
theorem readTokens_append (isBreak : LineBreak separator) (position : Position)
    (first second : List Char) :
    readTokens position (first ++ (separator ++ second)) =
      (readTokens position first).append
        (readTokens (position.past (first ++ separator)) second) := by
  induction position, first using readTokens.induct with
  | case1 position =>
      rw [List.nil_append, isBreak.readTokens, readTokens, List.nil_append]
      rfl
  | case2 position char rest blank ih =>
      rw [List.cons_append, readTokens_of_blank blank, readTokens_of_blank blank, ih]
      rfl
  | case3 position char rest _ pair _ ih =>
      obtain ⟨rfl, pair⟩ := pair
      obtain ⟨tail, rfl⟩ : ∃ tail, rest = '/' :: tail := List.head?_eq_some_iff.mp pair
      have joined := readPastComment_append isBreak position ('/' :: '/' :: tail) second ih
      rw [readTokens_of_comment, ← joined]
      exact readTokens_of_comment
  | case4 position char rest _ _ digit _ ih =>
      obtain ⟨digits, left⟩ := takeWhile_append_of_ends rest
        fun char head => (isBreak.head?_append second char head).1
      rw [List.cons_append, readTokens_of_digit digit, readTokens_of_digit digit, digits, left, ih,
        TokenStream.append_cons, ← Position.past_append, List.cons_append, ← List.append_assoc,
        List.takeWhile_append_dropWhile, List.cons_append]
  | case5 position char rest _ single _ symbol ih =>
      have stillSingle : ¬ (char = '/' ∧ (rest ++ (separator ++ second)).head? = some '/') := by
        rintro ⟨rfl, pair⟩
        cases rest with
        | nil => exact (isBreak.head?_append second '/' pair).2 rfl
        | cons next rest => exact single ⟨rfl, pair⟩
      rw [List.cons_append, readTokens_of_symbol symbol stillSingle,
        readTokens_of_symbol symbol single, ih, TokenStream.append_cons]
      rfl
  | case6 position char rest notBlank _ notDigit notSymbol =>
      rw [List.cons_append, readTokens_of_other notBlank notDigit notSymbol,
        readTokens_of_other notBlank notDigit notSymbol]
      rfl

/-- The tokens of a source before a line break, and then those of the source behind it. -/
theorem tokenize_append (isBreak : LineBreak separator) (first second : List Char) :
    tokenize (first ++ separator ++ second) =
      (tokenize first).append ((tokenize second).behind (first ++ separator)) := by
  obtain ⟨line, -, rfl⟩ := isBreak.exists_line
  have place : Position.start.past (first ++ (line ++ ['\n'])) =
      Position.start.behind (first ++ (line ++ ['\n'])) := by
    rw [← List.append_assoc]
    exact Position.after_append_feed (first ++ line)
  rw [tokenize_eq, tokenize_eq, tokenize_eq, List.append_assoc, readTokens_append isBreak, place,
    readTokens_behind]

/-! ## The words of both sources -/

theorem Token.encode_behind (before : List Char) (token : Token) :
    (token.behind before).encode = token.encode.mapError (Diagnostic.behind before) := by
  cases token with
  | number value position =>
      rw [Token.behind, encode, encode]
      cases encodeLiteral? value <;> rfl
  | operator symbol position =>
      rw [Token.behind, encode, encode]
      cases Operator.ofSymbol? symbol <;> rfl

theorem mapM_encode_behind (before : List Char) (tokens : List Token) :
    (tokens.map (Token.behind before)).mapM Token.encode =
      (tokens.mapM Token.encode).mapError (Diagnostic.behind before) := by
  induction tokens with
  | nil => rfl
  | cons token rest ih =>
      rw [List.map_cons, List.mapM_cons, List.mapM_cons, ih, Token.encode_behind]
      cases token.encode with
      | error diagnostic => rfl
      | ok word => cases rest.mapM Token.encode <;> rfl

namespace TokenStream

theorem encode_behind (before : List Char) (stream : TokenStream) :
    (stream.behind before).encode = stream.encode.mapError (Diagnostic.behind before) := by
  rw [encode, encode, behind, mapM_encode_behind]
  cases stream.tokens.mapM Token.encode with
  | error diagnostic => rfl
  | ok words => cases stream.failure <;> rfl

theorem encode_append (first second : TokenStream) :
    (first.append second).encode = do
      let words ← first.encode
      let later ← second.encode
      return words ++ later := by
  obtain ⟨tokens, failure⟩ := first
  cases failure with
  | some diagnostic =>
      simp only [append, encode]
      cases tokens.mapM Token.encode <;> rfl
  | none =>
      simp only [append, encode, List.mapM_append]
      cases tokens.mapM Token.encode with
      | error diagnostic => rfl
      | ok words =>
          cases second.tokens.mapM Token.encode with
          | error diagnostic => rfl
          | ok later => cases second.failure <;> rfl

end TokenStream

/-- The last word of a program is its halt. -/
theorem take_programBytes (words : List Int) :
    (programBytes words).take ((programBytes words).length - wordSize) = Bytecode.spell words := by
  have halt : (Bytecode.spell [haltWord]).length = wordSize := Bytecode.length_spell _
  rw [programBytes, Bytecode.spell_append, List.length_append, halt, Nat.add_sub_cancel,
    List.take_left]

theorem programBytes_append (words later : List Int) :
    programBytes (words ++ later) = Bytecode.spell words ++ programBytes later := by
  rw [programBytes, List.append_assoc, Bytecode.spell_append, programBytes]

/-- **Compiling goes through line breaks.** Two sources with a line break between them compile
to the bytes of the first without its last word, the halt, and then those of the second. What
is wrong with the first is wrong with both; if nothing is, what is wrong with the second is,
at its place behind the first and the line break. -/
theorem compileSource_append (isBreak : LineBreak separator) (first second : List Char) :
    compileSource (first ++ separator ++ second) = do
      let image ← compileSource first
      let later ← (compileSource second).mapError (Diagnostic.behind (first ++ separator))
      return image.take (image.length - wordSize) ++ later := by
  rw [compileSource_eq, compileSource_eq, compileSource_eq, tokenize_append isBreak,
    TokenStream.encode_append, TokenStream.encode_behind]
  cases (tokenize first).encode with
  | error diagnostic => rfl
  | ok words =>
      cases (tokenize second).encode with
      | error diagnostic => rfl
      | ok later =>
          show Except.ok (programBytes (words ++ later)) = Except.ok
            ((programBytes words).take ((programBytes words).length - wordSize) ++
              programBytes later)
          rw [take_programBytes, programBytes_append]

/-- A slash before a comment, and a mistake on the line after it. -/
theorem compileSource_append_of_comment :
    LineBreak [' ', '/', '/', 'c', '\n'] ∧
      compileSource (['8', ' ', '2', '/'] ++ [' ', '/', '/', 'c', '\n'] ++ ['1']) =
        .ok [0, 0, 0, 8, 0, 0, 0, 2, 0x40, 0, 0, 4, 0, 0, 0, 1, 0x40, 0, 0, 0] ∧
      compileSource (['8', ' ', '2', '/'] ++ [' ', '/', '/', 'c', '\n'] ++ ['1', '$']) =
        .error (.unexpectedCharacter ⟨10, 2, 2⟩ '$') := by
  have isBreak : LineBreak [' ', '/', '/', 'c', '\n'] := @LineBreak.comment ['c'] (by decide)
  exact ⟨isBreak, (compileSource_append isBreak _ _).trans rfl,
    (compileSource_append isBreak _ _).trans rfl⟩

end ReversePolish
