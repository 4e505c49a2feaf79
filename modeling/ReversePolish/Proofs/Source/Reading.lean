import Mathlib.Data.List.TakeWhile
import ReversePolish.Proofs.Source.Literal

/-! # The lexer reads what is there

The automaton yields the tokens that a text has when it is read directly, and fails where
direct reading fails (`Lexer.run_eq_expected`). What it has consumed and not yet yielded
is told by its state: `Lexer.expected` completes it by direct reading, and each turn that the
automaton takes (`Lexer.Takes`) keeps what is expected (`Lexer.progress_turn`).
-/

namespace ReversePolish

section CharClasses

variable {char : Char}

theorem CharClass.of_some_ne_endOfText (char : Char) : CharClass.of (some char) ≠ .endOfText := by
  simp only [CharClass.of]
  split_ifs <;> simp

theorem CharClass.of_head?_eq_endOfText_iff {text : List Char} :
    CharClass.of text.head? = .endOfText ↔ text = [] := by
  cases text with
  | nil => simp [CharClass.of]
  | cons char rest => simp [CharClass.of_some_ne_endOfText]

theorem CharClass.of_eq_digit_iff : CharClass.of (some char) = .digit ↔ char.isDigit := by
  simp only [CharClass.of]
  split_ifs <;> simp_all

theorem CharClass.exists_digit_of_head? {text : List Char}
    (cls : CharClass.of text.head? = .digit) : ∃ digit ∈ text.head?, digit.isDigit := by
  cases text with
  | nil => cases cls
  | cons char rest => exact ⟨char, rfl, CharClass.of_eq_digit_iff.mp cls⟩

theorem CharClass.of_eq_slash_iff : CharClass.of (some char) = .slash ↔ char = '/' := by
  constructor
  · simp only [CharClass.of]
    split_ifs <;> simp_all
  · rintro rfl
    rfl

theorem CharClass.of_eq_newline_iff : CharClass.of (some char) = .newline ↔ char = '\n' := by
  constructor
  · simp only [CharClass.of]
    split_ifs <;> simp_all
  · rintro rfl
    rfl

theorem isSourceBlank_iff :
    isSourceBlank char ↔
      CharClass.of (some char) = .space ∨ CharClass.of (some char) = .newline := by
  constructor
  · simp only [isSourceBlank, decide_eq_true_eq, List.mem_cons, List.not_mem_nil, or_false]
    rintro (rfl | rfl | rfl | rfl | rfl | rfl) <;> decide
  · simp only [CharClass.of]
    split_ifs <;> simp_all [isSourceBlank]

theorem isOperatorSymbol_iff :
    isOperatorSymbol char ↔
      CharClass.of (some char) = .operator ∨ CharClass.of (some char) = .slash := by
  constructor
  · simp only [isOperatorSymbol, decide_eq_true_eq, List.mem_cons, List.not_mem_nil, or_false]
    rintro (rfl | rfl | rfl | rfl) <;> decide
  · simp only [CharClass.of]
    split_ifs <;> simp_all [isOperatorSymbol]

theorem not_isDigit_of_isSourceBlank (blank : isSourceBlank char) : ¬ char.isDigit := by
  rw [← CharClass.of_eq_digit_iff]
  rcases isSourceBlank_iff.mp blank with cls | cls <;> simp [cls]

theorem not_isDigit_of_isOperatorSymbol (symbol : isOperatorSymbol char) : ¬ char.isDigit := by
  rw [← CharClass.of_eq_digit_iff]
  rcases isOperatorSymbol_iff.mp symbol with cls | cls <;> simp [cls]

end CharClasses

section Reading

variable {char : Char} {rest : List Char} {position : Position}

/-- What direct reading yields after the comment that a text starts with. -/
def readPastComment (position : Position) (text : List Char) : TokenStream :=
  readTokens (position.past (commentAtFront text)) (text.drop (commentAtFront text).length)

theorem readPastComment_nil (position : Position) :
    readPastComment position [] = readTokens position [] := rfl

theorem commentAtFront_feed (rest : List Char) : commentAtFront ('\n' :: rest) = ['\n'] := by
  simp [commentAtFront]

theorem commentAtFront_cons (rest : List Char) (other : char ≠ '\n') :
    commentAtFront (char :: rest) = char :: commentAtFront rest := by
  simp [commentAtFront, other]

theorem readPastComment_feed (position : Position) (rest : List Char) :
    readPastComment position ('\n' :: rest) = readTokens (position.advance '\n') rest := by
  rw [readPastComment, commentAtFront_feed]
  rfl

theorem readPastComment_cons (position : Position) (rest : List Char) (other : char ≠ '\n') :
    readPastComment position (char :: rest) = readPastComment (position.advance char) rest := by
  rw [readPastComment, commentAtFront_cons rest other, Position.past_cons, List.length_cons,
    List.drop_succ_cons, readPastComment]

theorem readTokens_of_blank (blank : isSourceBlank char) :
    readTokens position (char :: rest) = readTokens (position.advance char) rest := by
  rw [readTokens, if_pos blank]

theorem readTokens_of_comment :
    readTokens position ('/' :: '/' :: rest) = readPastComment position ('/' :: '/' :: rest) := by
  rw [readTokens, if_neg (by decide), if_pos ⟨rfl, rfl⟩]
  rfl

theorem readTokens_of_digit (digit : char.isDigit) :
    readTokens position (char :: rest) =
      (readTokens (position.past (char :: rest.takeWhile Char.isDigit))
          (rest.dropWhile Char.isDigit)).cons
        (.number (literalValue (char :: rest.takeWhile Char.isDigit)) (some position)) := by
  have cls := CharClass.of_eq_digit_iff.mpr digit
  have notBlank : ¬ isSourceBlank char := by simp [isSourceBlank_iff, cls]
  have notSlash : ¬ (char = '/' ∧ rest.head? = some '/') := by
    rintro ⟨rfl, -⟩
    exact absurd digit (by decide)
  rw [readTokens, if_neg notBlank, if_neg notSlash, if_pos digit]

/-- A run is not taken on into a text that does not start with one of its characters. -/
theorem takeWhile_append_of_ends {p : Char → Bool} {later : List Char} (text : List Char)
    (ends : ∀ char ∈ later.head?, ¬ p char) :
    (text ++ later).takeWhile p = text.takeWhile p ∧
      (text ++ later).dropWhile p = text.dropWhile p ++ later := by
  induction text with
  | nil =>
      cases later with
      | nil => exact ⟨rfl, rfl⟩
      | cons char rest =>
          have stop := ends char rfl
          exact ⟨List.takeWhile_cons_of_neg stop, List.dropWhile_cons_of_neg stop⟩
  | cons char rest ih =>
      by_cases inside : p char
      · rw [List.cons_append, List.takeWhile_cons_of_pos inside, List.takeWhile_cons_of_pos inside,
          List.dropWhile_cons_of_pos inside, List.dropWhile_cons_of_pos inside, ih.1, ih.2]
        exact ⟨rfl, rfl⟩
      · rw [List.cons_append, List.takeWhile_cons_of_neg inside, List.takeWhile_cons_of_neg inside,
          List.dropWhile_cons_of_neg inside, List.dropWhile_cons_of_neg inside]
        exact ⟨rfl, rfl⟩

theorem not_isDigit_of_mem_head?_dropWhile (text : List Char) :
    ∀ char ∈ (text.dropWhile Char.isDigit).head?, ¬ char.isDigit := by
  intro char head
  have stopped := List.head?_dropWhile_not Char.isDigit text
  rw [head] at stopped
  simpa using stopped

/-- A run of digits is read as one number, if no digit follows it. -/
theorem readTokens_of_digits {digits : List Char} (nonempty : digits ≠ [])
    (inside : ∀ digit ∈ digits, digit.isDigit) (ends : ∀ char ∈ rest.head?, ¬ char.isDigit) :
    readTokens position (digits ++ rest) =
      (readTokens (position.past digits) rest).cons
        (.number (literalValue digits) (some position)) := by
  obtain ⟨first, others, rfl⟩ := List.exists_cons_of_ne_nil nonempty
  obtain ⟨digit, others_digits⟩ := List.forall_mem_cons.mp inside
  obtain ⟨taken, left⟩ := takeWhile_append_of_ends others ends
  have whole : others.takeWhile Char.isDigit = others :=
    List.takeWhile_eq_self_iff.mpr others_digits
  have none : others.dropWhile Char.isDigit = [] := List.dropWhile_eq_nil_iff.mpr others_digits
  rw [List.cons_append, readTokens_of_digit digit, taken, left, whole, none, List.nil_append]

theorem readTokens_of_symbol (symbol : isOperatorSymbol char)
    (single : ¬ (char = '/' ∧ rest.head? = some '/')) :
    readTokens position (char :: rest) =
      (readTokens (position.advance char) rest).cons
        (.operator char.toString (some position)) := by
  have notDigit := not_isDigit_of_isOperatorSymbol symbol
  have notBlank : ¬ isSourceBlank char := by
    rcases isOperatorSymbol_iff.mp symbol with cls | cls <;> simp [isSourceBlank_iff, cls]
  rw [readTokens, if_neg notBlank, if_neg single, if_neg notDigit, if_pos symbol]

theorem readTokens_of_other (notBlank : ¬ isSourceBlank char) (notDigit : ¬ char.isDigit)
    (notSymbol : ¬ isOperatorSymbol char) :
    readTokens position (char :: rest) = ⟨[], some (.unexpectedCharacter position char)⟩ := by
  have notSlash : ¬ (char = '/' ∧ rest.head? = some '/') := by
    rintro ⟨rfl, -⟩
    exact notSymbol (by decide)
  rw [readTokens, if_neg notBlank, if_neg notSlash, if_neg notDigit, if_neg notSymbol]

end Reading

namespace Lexer

/-- What the automaton is to yield from where it stands. What it has consumed of a
number, an operator or a comment is completed by direct reading. -/
def expected (lexer : Lexer) : TokenStream :=
  match lexer.state with
  | .start => readTokens lexer.position lexer.rest
  | .inNumber =>
      let digits := lexer.rest.takeWhile Char.isDigit
      (readTokens (lexer.position.past digits) (lexer.rest.dropWhile Char.isDigit)).cons
        (.number (saturate lexer.value digits) lexer.mark)
  | .maybeComment =>
      if lexer.rest.head? = some '/' then readPastComment lexer.position lexer.rest
      else (readTokens lexer.position lexer.rest).cons (.operator "/" lexer.mark)
  | .inComment => readPastComment lexer.position lexer.rest
  | .error => ⟨[], some .jammed⟩

/-- A state from which the automaton goes on: it has not failed, and outside a number no
value is pending. -/
structure Ready (lexer : Lexer) : Prop where
  alive : lexer.state ≠ .error
  reset : lexer.state ≠ .inNumber → lexer.value = 0

theorem ready_ofText (text : List Char) : (ofText text).Ready := ⟨by simp [ofText], fun _ => rfl⟩

/-- The turns that the automaton takes, by where it stands and by what comes next. -/
inductive Takes : Lexer → Turn → Prop where
  | finish {position : Position} {mark : Option Position} :
      Takes ⟨.start, [], position, 0, mark⟩ .finished
  | blank {char : Char} {rest : List Char} {position : Position} {mark : Option Position}
      (blank : isSourceBlank char) :
      Takes ⟨.start, char :: rest, position, 0, mark⟩
        (.went none ⟨.start, rest, position.advance char, 0, mark⟩)
  | firstDigit {char : Char} {rest : List Char} {position : Position} {mark : Option Position}
      (digit : char.isDigit) :
      Takes ⟨.start, char :: rest, position, 0, mark⟩
        (.went none ⟨.inNumber, rest, position.advance char, saturate 0 [char], some position⟩)
  | operator {char : Char} {rest : List Char} {position : Position} {mark : Option Position}
      (symbol : isOperatorSymbol char) (notSlash : char ≠ '/') :
      Takes ⟨.start, char :: rest, position, 0, mark⟩
        (.went (some (.operator char.toString (some position)))
          ⟨.start, rest, position.advance char, 0, some position⟩)
  | slash {rest : List Char} {position : Position} {mark : Option Position} :
      Takes ⟨.start, '/' :: rest, position, 0, mark⟩
        (.went none ⟨.maybeComment, rest, position.advance '/', 0, some position⟩)
  | refuse {char : Char} {rest : List Char} {position : Position} {mark : Option Position}
      (notBlank : ¬ isSourceBlank char) (notDigit : ¬ char.isDigit)
      (notSymbol : ¬ isOperatorSymbol char) :
      Takes ⟨.start, char :: rest, position, 0, mark⟩
        (.failed (.unexpectedCharacter position char))
  | digit {char : Char} {rest : List Char} {position : Position} {value : Nat}
      {mark : Option Position} (digit : char.isDigit) :
      Takes ⟨.inNumber, char :: rest, position, value, mark⟩
        (.went none ⟨.inNumber, rest, position.advance char, saturate value [char], mark⟩)
  | numberEnd {rest : List Char} {position : Position} {value : Nat} {mark : Option Position}
      (ends : ∀ char ∈ rest.head?, ¬ char.isDigit) :
      Takes ⟨.inNumber, rest, position, value, mark⟩
        (.went (some (.number value mark)) ⟨.start, rest, position, 0, mark⟩)
  | secondSlash {rest : List Char} {position : Position} {mark : Option Position} :
      Takes ⟨.maybeComment, '/' :: rest, position, 0, mark⟩
        (.went none ⟨.inComment, rest, position.advance '/', 0, mark⟩)
  | division {rest : List Char} {position : Position} {mark : Option Position}
      (single : rest.head? ≠ some '/') :
      Takes ⟨.maybeComment, rest, position, 0, mark⟩
        (.went (some (.operator "/" mark)) ⟨.start, rest, position, 0, mark⟩)
  | comment {char : Char} {rest : List Char} {position : Position} {mark : Option Position}
      (other : char ≠ '\n') :
      Takes ⟨.inComment, char :: rest, position, 0, mark⟩
        (.went none ⟨.inComment, rest, position.advance char, 0, mark⟩)
  | feed {rest : List Char} {position : Position} {mark : Option Position} :
      Takes ⟨.inComment, '\n' :: rest, position, 0, mark⟩
        (.went none ⟨.start, rest, position.advance '\n', 0, mark⟩)
  | commentEnd {position : Position} {mark : Option Position} :
      Takes ⟨.inComment, [], position, 0, mark⟩ (.went none ⟨.start, [], position, 0, mark⟩)

section Turns

variable {rest : List Char} {position : Position} {value : Nat} {mark : Option Position}

theorem perform_accumulate {state : State} {char : Char} (digit : char.isDigit) :
    perform ⟨state, char :: rest, position, value, mark⟩ .accumulate =
      .went none ⟨state, char :: rest, position, saturate value [char], mark⟩ := by
  simp only [perform, List.head?_cons, digit, if_true, saturate, List.foldl_cons, List.foldl_nil]
  split <;> rfl

theorem takes_start :
    Takes ⟨.start, rest, position, 0, mark⟩ (turn ⟨.start, rest, position, 0, mark⟩) := by
  cases rest with
  | nil => exact .finish
  | cons char rest =>
      cases cls : CharClass.of (some char) with
      | digit =>
          have digit := CharClass.of_eq_digit_iff.mp cls
          have turned : turn ⟨.start, char :: rest, position, 0, mark⟩ =
              .went none ⟨.inNumber, rest, position.advance char, saturate 0 [char],
                some position⟩ := by
            simp [turn, cls, transition, follow, perform_accumulate digit, consume]
          rw [turned]
          exact .firstDigit digit
      | space | newline =>
          have turned : turn ⟨.start, char :: rest, position, 0, mark⟩ =
              .went none ⟨.start, rest, position.advance char, 0, mark⟩ := by
            simp [turn, cls, transition, follow, perform, consume]
          rw [turned]
          exact .blank (isSourceBlank_iff.mpr (by simp [cls]))
      | operator =>
          have turned : turn ⟨.start, char :: rest, position, 0, mark⟩ =
              .went (some (.operator char.toString (some position)))
                ⟨.start, rest, position.advance char, 0, some position⟩ := by
            simp [turn, cls, transition, follow, perform, consume]
          rw [turned]
          refine .operator (isOperatorSymbol_iff.mpr (.inl cls)) ?_
          rintro rfl
          exact absurd cls (by decide)
      | slash =>
          obtain rfl := CharClass.of_eq_slash_iff.mp cls
          exact .slash
      | other =>
          have turned : turn ⟨.start, char :: rest, position, 0, mark⟩ =
              .failed (.unexpectedCharacter position char) := by
            simp [turn, cls, transition, follow, perform]
          rw [turned]
          refine .refuse ?_ ?_ ?_
          · simp [isSourceBlank_iff, cls]
          · simp [← CharClass.of_eq_digit_iff, cls]
          · simp [isOperatorSymbol_iff, cls]
      | endOfText => exact absurd cls (CharClass.of_some_ne_endOfText char)

/-- The first character that is no digit ends a number, and so does the end of the text. -/
theorem takes_number_end (ends : ∀ char ∈ rest.head?, ¬ char.isDigit) :
    Takes ⟨.inNumber, rest, position, value, mark⟩
      (turn ⟨.inNumber, rest, position, value, mark⟩) := by
  have entry : transition .inNumber (CharClass.of rest.head?) =
      some ⟨.start, false, .emitNumber, false⟩ := by
    cases cls : CharClass.of rest.head? with
    | digit =>
        obtain ⟨digit, next, inside⟩ := CharClass.exists_digit_of_head? cls
        exact absurd inside (ends digit next)
    | _ => rfl
  have turned : turn ⟨.inNumber, rest, position, value, mark⟩ =
      .went (some (.number value mark)) ⟨.start, rest, position, 0, mark⟩ := by
    simp [turn, entry, follow, perform]
  rw [turned]
  exact .numberEnd ends

theorem takes_inNumber :
    Takes ⟨.inNumber, rest, position, value, mark⟩
      (turn ⟨.inNumber, rest, position, value, mark⟩) := by
  cases rest with
  | nil => exact takes_number_end (by simp)
  | cons char rest =>
      by_cases digit : char.isDigit
      · have turned : turn ⟨.inNumber, char :: rest, position, value, mark⟩ =
            .went none ⟨.inNumber, rest, position.advance char, saturate value [char], mark⟩ := by
          simp [turn, CharClass.of_eq_digit_iff.mpr digit, transition, follow,
            perform_accumulate digit, consume]
        rw [turned]
        exact .digit digit
      · exact takes_number_end (by simpa using digit)

theorem takes_maybeComment :
    Takes ⟨.maybeComment, rest, position, 0, mark⟩
      (turn ⟨.maybeComment, rest, position, 0, mark⟩) := by
  by_cases second : rest.head? = some '/'
  · obtain ⟨tail, rfl⟩ : ∃ tail, rest = '/' :: tail := List.head?_eq_some_iff.mp second
    exact .secondSlash
  · have notSlash : CharClass.of rest.head? ≠ .slash := by
      cases rest with
      | nil => decide
      | cons char rest =>
          intro cls
          exact second (congrArg some (CharClass.of_eq_slash_iff.mp cls))
    have entry : transition .maybeComment (CharClass.of rest.head?) =
        some ⟨.start, false, .emitSlash, false⟩ := by
      cases cls : CharClass.of rest.head? with
      | slash => exact absurd cls notSlash
      | _ => rfl
    have turned : turn ⟨.maybeComment, rest, position, 0, mark⟩ =
        .went (some (.operator "/" mark)) ⟨.start, rest, position, 0, mark⟩ := by
      simp [turn, entry, follow, perform]
    rw [turned]
    exact .division second

theorem takes_inComment :
    Takes ⟨.inComment, rest, position, 0, mark⟩
      (turn ⟨.inComment, rest, position, 0, mark⟩) := by
  cases rest with
  | nil => exact .commentEnd
  | cons char rest =>
      by_cases feed : char = '\n'
      · subst feed
        exact .feed
      · have notFeed : CharClass.of (some char) ≠ .newline := by
          rwa [Ne, CharClass.of_eq_newline_iff]
        have entry : transition .inComment (CharClass.of (some char)) =
            some ⟨.inComment, false, .idle, true⟩ := by
          cases cls : CharClass.of (some char) with
          | newline => exact absurd cls notFeed
          | endOfText => exact absurd cls (CharClass.of_some_ne_endOfText char)
          | _ => rfl
        have turned : turn ⟨.inComment, char :: rest, position, 0, mark⟩ =
            .went none ⟨.inComment, rest, position.advance char, 0, mark⟩ := by
          simp [turn, entry, follow, perform, consume]
        rw [turned]
        exact .comment feed

end Turns

theorem takes_turn {lexer : Lexer} (ready : lexer.Ready) : Takes lexer lexer.turn := by
  obtain ⟨state, rest, position, value, mark⟩ := lexer
  obtain ⟨alive, reset⟩ := ready
  cases state with
  | start =>
      obtain rfl : value = 0 := reset (by simp)
      exact takes_start
  | inNumber => exact takes_inNumber
  | maybeComment =>
      obtain rfl : value = 0 := reset (by simp)
      exact takes_maybeComment
  | inComment =>
      obtain rfl : value = 0 := reset (by simp)
      exact takes_inComment
  | error => exact absurd rfl alive

/-- The most turns that the automaton may still take. -/
def turnsLeft (lexer : Lexer) : Nat :=
  2 * lexer.rest.length + if lexer.state = .start then 1 else 2

theorem turnsLeft_pos (lexer : Lexer) : 0 < lexer.turnsLeft := by
  unfold turnsLeft
  split <;> omega

theorem turnsLeft_of_consumed {lexer after : Lexer} {char : Char}
    (consumed : lexer.rest = char :: after.rest) : after.turnsLeft < lexer.turnsLeft := by
  unfold turnsLeft
  rw [consumed, List.length_cons]
  split <;> split <;> omega

/-- A turn that does its share of what is expected, and leaves the rest of it. -/
inductive Progress (lexer : Lexer) : Turn → Prop where
  | finished (expected : lexer.expected = ⟨[], none⟩) : Progress lexer .finished
  | failed {diagnostic : Diagnostic} (expected : lexer.expected = ⟨[], some diagnostic⟩) :
      Progress lexer (.failed diagnostic)
  | moved {after : Lexer} (expected : lexer.expected = after.expected) (ready : after.Ready)
      (fewer : after.turnsLeft < lexer.turnsLeft) : Progress lexer (.went none after)
  | yielded {token : Token} {after : Lexer} (expected : lexer.expected = after.expected.cons token)
      (ready : after.Ready) (fewer : after.turnsLeft < lexer.turnsLeft) :
      Progress lexer (.went (some token) after)

/-- **A turn keeps what is expected**: what it yields comes first of it, and the automaton
that it leaves is to yield the rest. -/
theorem progress_turn {lexer : Lexer} (ready : lexer.Ready) : Progress lexer lexer.turn := by
  have takes := takes_turn ready
  generalize lexer.turn = outcome at takes
  cases takes with
  | finish => exact .finished (by rw [expected, readTokens])
  | blank blank =>
      exact .moved (readTokens_of_blank blank) ⟨by simp, by simp⟩ (turnsLeft_of_consumed rfl)
  | firstDigit digit =>
      refine .moved ?_ ⟨by simp, by simp⟩ (turnsLeft_of_consumed rfl)
      simp only [expected]
      rw [readTokens_of_digit digit, ← saturate_eq_literalValue]
      rfl
  | operator symbol notSlash =>
      refine .yielded ?_ ⟨by simp, by simp⟩ (turnsLeft_of_consumed rfl)
      exact readTokens_of_symbol symbol fun pair => notSlash pair.1
  | @slash rest position mark =>
      refine .moved ?_ ⟨by simp, by simp⟩ (turnsLeft_of_consumed rfl)
      simp only [expected]
      split
      · next second =>
          obtain ⟨tail, rfl⟩ : ∃ tail, rest = '/' :: tail := List.head?_eq_some_iff.mp second
          rw [readTokens_of_comment, readPastComment_cons _ _ (by decide)]
      · next single => exact readTokens_of_symbol (by decide) fun pair => single pair.2
  | refuse notBlank notDigit notSymbol =>
      exact .failed (readTokens_of_other notBlank notDigit notSymbol)
  | digit digit =>
      refine .moved ?_ ⟨by simp, by simp⟩ (turnsLeft_of_consumed rfl)
      simp only [expected]
      rw [List.takeWhile_cons_of_pos digit, List.dropWhile_cons_of_pos digit]
      rfl
  | @numberEnd rest position value mark ends =>
      refine .yielded ?_ ⟨by simp, by simp⟩ (by simp [turnsLeft])
      obtain ⟨taken, left⟩ := takeWhile_append_of_ends [] ends
      simp only [List.nil_append] at taken left
      simp only [expected, taken, left]
      rfl
  | secondSlash =>
      refine .moved ?_ ⟨by simp, by simp⟩ (turnsLeft_of_consumed rfl)
      simp only [expected]
      rw [List.head?_cons, if_pos rfl, readPastComment_cons _ _ (by decide)]
  | division single =>
      refine .yielded ?_ ⟨by simp, by simp⟩ (by simp [turnsLeft])
      simp only [expected]
      rw [if_neg single]
  | comment other =>
      exact .moved (readPastComment_cons _ _ other) ⟨by simp, by simp⟩
        (turnsLeft_of_consumed rfl)
  | feed =>
      exact .moved (readPastComment_feed _ _) ⟨by simp, by simp⟩ (turnsLeft_of_consumed rfl)
  | commentEnd =>
      exact .moved (readPastComment_nil _) ⟨by simp, by simp⟩ (by simp [turnsLeft])

/-- Given enough turns, the automaton yields what is expected. -/
theorem run_eq_expected {lexer : Lexer} {turns : Nat} (ready : lexer.Ready)
    (enough : lexer.turnsLeft ≤ turns) : lexer.run turns = lexer.expected := by
  induction turns generalizing lexer with
  | zero =>
      have positive := lexer.turnsLeft_pos
      omega
  | succ turns ih =>
      have progress := progress_turn ready
      rw [run]
      generalize lexer.turn = outcome at progress
      cases progress with
      | finished expected => exact expected.symm
      | failed expected => exact expected.symm
      | @moved after expected ready fewer =>
          have later := ih ready (Nat.lt_succ_iff.mp (Nat.lt_of_lt_of_le fewer enough))
          exact later.trans expected.symm
      | @yielded token after expected ready fewer =>
          have later := ih ready (Nat.lt_succ_iff.mp (Nat.lt_of_lt_of_le fewer enough))
          rw [expected, ← later]

end Lexer

theorem tokenize_eq (text : List Char) : tokenize text = readTokens .start text := by
  have enough : (Lexer.ofText text).turnsLeft ≤ (Lexer.ofText text).turnLimit := by
    simp [Lexer.turnsLeft, Lexer.turnLimit, Lexer.ofText]
  exact Lexer.run_eq_expected (Lexer.ready_ofText text) enough

end ReversePolish
