import ReversePolish.Diagnostic
import ReversePolish.Source.Token

/-! # The lexer

A source is read by a finite automaton over classes of characters. `transition`
is its table: each entry names the next state, whether the place is marked as
the start of a token, what is done, and whether the character is consumed. One
turn of the automaton (`Lexer.turn`) follows one entry and yields at most one
token; `tokenize` takes turns to the end of the text, and `pull` only until it
has enough tokens, so that a failure further on does not show.

A number stops growing once it is out of range for a literal; its remaining
digits are consumed all the same.
-/

namespace ReversePolish

/-- The classes of characters that the automaton tells apart, and the end of the
text. -/
inductive CharClass where
  | digit
  | space
  | newline
  | operator
  | slash
  | other
  | endOfText
  deriving Repr, DecidableEq, Inhabited

/-- The class of the next character of a text, if there is one. -/
def CharClass.of : Option Char → CharClass
  | none => endOfText
  | some char =>
      if char.isDigit then digit
      else if char = '\n' then newline
      else if char ∈ [' ', '\t', '\r', '\x0c', '\x0b'] then space
      else if char = '/' then slash
      else if char ∈ ['+', '-', '*'] then operator
      else other

namespace Lexer

/-- Where the automaton stands. -/
inductive State where
  | start
  | inNumber
  /-- After a slash that may be an operator or the first of a comment's two. -/
  | maybeComment
  | inComment
  | error
  deriving Repr, DecidableEq, Inhabited

/-- What a turn does besides moving on. -/
inductive Effect where
  | idle
  /-- Appends a digit to the number. -/
  | accumulate
  | emitNumber
  | emitOperator
  | emitSlash
  | fail
  deriving Repr, DecidableEq, Inhabited

/-- An entry of the automaton's table. -/
structure Transition where
  next : State
  marks : Bool
  effect : Effect
  consumes : Bool
  deriving Repr, DecidableEq

/-- The automaton's table. -/
def transition : State → CharClass → Option Transition
  | .start, .digit => some ⟨.inNumber, true, .accumulate, true⟩
  | .start, .space => some ⟨.start, false, .idle, true⟩
  | .start, .newline => some ⟨.start, false, .idle, true⟩
  | .start, .operator => some ⟨.start, true, .emitOperator, true⟩
  | .start, .slash => some ⟨.maybeComment, true, .idle, true⟩
  | .start, .other => some ⟨.error, false, .fail, false⟩
  | .start, .endOfText => none
  | .inNumber, .digit => some ⟨.inNumber, false, .accumulate, true⟩
  | .inNumber, _ => some ⟨.start, false, .emitNumber, false⟩
  | .maybeComment, .slash => some ⟨.inComment, false, .idle, true⟩
  | .maybeComment, _ => some ⟨.start, false, .emitSlash, false⟩
  | .inComment, .newline => some ⟨.start, false, .idle, true⟩
  | .inComment, .endOfText => some ⟨.start, false, .idle, false⟩
  | .inComment, _ => some ⟨.inComment, false, .idle, true⟩
  | .error, _ => none

end Lexer

/-- The automaton at work: its state, the text to come and its place, the number
read so far, and where the current token started. -/
structure Lexer where
  state : Lexer.State := .start
  rest : List Char
  position : Position := .start
  value : Nat := 0
  mark : Option Position := none
  deriving Repr, DecidableEq

/-- The tokens taken from a text, and the failure that ended them, if one did. -/
structure TokenStream where
  tokens : List Token
  failure : Option Diagnostic
  deriving Repr, DecidableEq

/-- A stream with one more token before it. -/
def TokenStream.cons (token : Token) (stream : TokenStream) : TokenStream :=
  { stream with tokens := token :: stream.tokens }

namespace Lexer

/-- What a turn comes to: the end of the text, a failure, or the automaton after
it and the token it yielded, if any. -/
inductive Turn where
  | finished
  | failed (diagnostic : Diagnostic)
  | went (token : Option Token) (lexer : Lexer)
  deriving Repr, DecidableEq

/-- The automaton at the start of a text. -/
def ofText (text : List Char) : Lexer where
  rest := text

/-- Does what a table entry asks for, with the current character in view. -/
def perform (lexer : Lexer) (effect : Effect) : Turn :=
  match effect, lexer.rest.head? with
  | .idle, _ => .went none lexer
  | .accumulate, some char =>
      if char.isDigit then
        if lexer.value < literalLimit then
          .went none { lexer with value := lexer.value * 10 + (char.toNat - '0'.toNat) }
        else .went none lexer
      else .failed .jammed
  | .emitNumber, _ => .went (some (.number lexer.value lexer.mark)) { lexer with value := 0 }
  | .emitOperator, some char => .went (some (.operator char.toString lexer.mark)) lexer
  | .emitSlash, _ => .went (some (.operator "/" lexer.mark)) lexer
  | .fail, some char => .failed (.unexpectedCharacter lexer.position char)
  | _, none => .failed .jammed

/-- Moves past the current character. -/
def consume (lexer : Lexer) : Option Lexer :=
  match lexer.rest with
  | [] => none
  | char :: rest => some { lexer with rest, position := lexer.position.advance char }

/-- Follows a table entry. -/
def follow (lexer : Lexer) (entry : Transition) : Turn :=
  let mark := if entry.marks then some lexer.position else lexer.mark
  match perform { lexer with state := entry.next, mark } entry.effect with
  | .went token after =>
      if entry.consumes then
        match after.consume with
        | some after => .went token after
        | none => .failed .jammed
      else .went token after
  | outcome => outcome

/-- One turn of the automaton. -/
def turn (lexer : Lexer) : Turn :=
  let charClass := CharClass.of lexer.rest.head?
  if lexer.state = .start ∧ charClass = .endOfText then .finished
  else
    match transition lexer.state charClass with
    | some entry => lexer.follow entry
    | none => .failed .jammed

/-- Takes turns to the end of the text, at most `turns`. -/
def run : (turns : Nat) → Lexer → TokenStream
  | 0, _ => ⟨[], some .jammed⟩
  | turns + 1, lexer =>
      match lexer.turn with
      | .finished => ⟨[], none⟩
      | .failed diagnostic => ⟨[], some diagnostic⟩
      | .went none after => run turns after
      | .went (some token) after => (run turns after).cons token

/-- Takes turns, at most `turns`, until one yields a token. -/
def next : (turns : Nat) → Lexer → Turn
  | 0, _ => .failed .jammed
  | turns + 1, lexer =>
      match lexer.turn with
      | .went none after => next turns after
      | outcome => outcome

/-- Enough turns for the rest of a text: each character is met at most twice,
and the end once. -/
def turnLimit (lexer : Lexer) : Nat := 2 * lexer.rest.length + 1

/-- Takes at most `limit` tokens, and no turn that they do not need. -/
def pull : (limit : Nat) → Lexer → TokenStream
  | 0, _ => ⟨[], none⟩
  | limit + 1, lexer =>
      match lexer.next lexer.turnLimit with
      | .went (some token) after => (pull limit after).cons token
      | .failed diagnostic => ⟨[], some diagnostic⟩
      | _ => ⟨[], none⟩

end Lexer

/-- The tokens of a text, and the failure that ends them, if one does. -/
def tokenize (text : List Char) : TokenStream :=
  let lexer := Lexer.ofText text
  lexer.run lexer.turnLimit

/-- The tokens of a text in which the lexer finds no mistake. -/
def allTokens (text : List Char) : Except Diagnostic (List Token) :=
  let stream := tokenize text
  match stream.failure with
  | some diagnostic => .error diagnostic
  | none => .ok stream.tokens

/-- Whether two texts have the same tokens, places apart; a mistake in the first
text is told before one in the second. -/
def sameTokens (first second : List Char) : Except Diagnostic Bool := do
  let firstTokens ← allTokens first
  let secondTokens ← allTokens second
  return decide (firstTokens.map Token.unplaced = secondTokens.map Token.unplaced)

/-- The first tokens of a text, at most `limit`; a failure shows only if it comes
before one of them. -/
def pullTokens (limit : Nat) (text : List Char) : TokenStream :=
  (Lexer.ofText text).pull limit

end ReversePolish
