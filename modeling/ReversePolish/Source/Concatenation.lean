import ReversePolish.Source.Lexer

/-! # Sources one behind another

Two sources are put one behind the other with a line break between them, which may end in
a comment. The second one then stands behind a text of whole lines: each of its places moves
on by the characters and the line feeds of that text (`Position.behind`), and so do the
places of its tokens and of what is wrong with it.
-/

namespace ReversePolish

/-- What separates two sources: a line feed, or a comment behind a space up to its line
feed. -/
inductive LineBreak : List Char → Prop where
  | feed : LineBreak ['\n']
  | comment {body : List Char} (inLine : '\n' ∉ body) :
      LineBreak (' ' :: '/' :: '/' :: (body ++ ['\n']))

/-- Where a place of a text is found behind a text of whole lines. -/
def Position.behind (before : List Char) (position : Position) : Position where
  offset := position.offset + before.length
  line := position.line + before.count '\n'
  column := position.column

/-- What is wrong with a source, told behind a text of whole lines. -/
def Diagnostic.behind (before : List Char) : Diagnostic → Diagnostic
  | unexpectedCharacter position char => unexpectedCharacter (position.behind before) char
  | literalOutOfRange position => literalOutOfRange (position.map (Position.behind before))
  | unknownOperator symbol position =>
      unknownOperator symbol (position.map (Position.behind before))
  | diagnostic => diagnostic

/-- A token of a source behind a text of whole lines. -/
def Token.behind (before : List Char) : Token → Token
  | number value position => number value (position.map (Position.behind before))
  | operator symbol position => operator symbol (position.map (Position.behind before))

namespace TokenStream

/-- The stream of a source behind a text of whole lines. -/
def behind (before : List Char) (stream : TokenStream) : TokenStream where
  tokens := stream.tokens.map (Token.behind before)
  failure := stream.failure.map (Diagnostic.behind before)

/-- A stream and then another one, which a failure of the first does not let begin. -/
def append (first second : TokenStream) : TokenStream :=
  match first.failure with
  | some _ => first
  | none => { second with tokens := first.tokens ++ second.tokens }

end TokenStream

end ReversePolish
