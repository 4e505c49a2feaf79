import ReversePolish.Diagnostic
import ReversePolish.Instruction.Basic
import ReversePolish.Source.Lexer

/-! # Bytecode from a source

Each token becomes one word, and a halt word closes the program. Tokens are
encoded as the lexer yields them, so the leftmost error of the text is the one
reported (`compileWords`).
-/

namespace ReversePolish

/-- The word of a token. -/
def Token.encode : Token → Except Diagnostic Int
  | number value position =>
      match encodeLiteral? value with
      | some word => .ok word
      | none => .error (.literalOutOfRange position)
  | operator symbol position =>
      match Operator.ofSymbol? symbol with
      | some meaning => .ok (Instruction.primitive (.arithmetic meaning)).toWord
      | none => .error (.unknownOperator symbol position)

/-- What an encoder can be handed: a token, or a bare text in its place. -/
inductive Item where
  | token (token : Token)
  | stray (text : String)
  deriving Repr, DecidableEq

/-- The word of an item; a bare text has none. -/
def Item.encode : Item → Except Diagnostic Int
  | token valid => valid.encode
  | stray text => .error (.unrecognizedToken text)

/-- Words followed by a halt, unless a halt already ends them. -/
def withHalt (words : List Int) : List Int :=
  if words.getLast? = some haltWord then words else words ++ [haltWord]

/-- The words of a list of items, closed by a halt; the first item without a word
is at fault. -/
def encode (items : List Item) : Except Diagnostic (List Int) :=
  withHalt <$> items.mapM Item.encode

/-- The bytes of a program's words. -/
def packWords (words : List Int) : Except Diagnostic Bytes :=
  match Bytecode.pack words with
  | .ok bytes => .ok bytes
  | .error error => .error (.storage error)

/-- The words of a source, closed by a halt. -/
def compileWords (text : List Char) : Except Diagnostic (List Int) := do
  let stream := tokenize text
  let words ← stream.tokens.mapM Token.encode
  match stream.failure with
  | some diagnostic => throw diagnostic
  | none => return withHalt words

/-- The bytecode of a source. -/
def compileSource (text : List Char) : Except Diagnostic Bytes := do
  packWords (← compileWords text)

/-- What a verbose run tells of encoding tokens, up to the first that fails. -/
def tokenLog : List Token → List String
  | [] => []
  | token :: rest =>
      s!"Token {token.describe}" ::
        match token.encode with
        | .ok word => s!"Issuing word 0x{Text.hexWord word} for {token.describe}" :: tokenLog rest
        | .error _ => []

/-- What a verbose run tells of a source on the way to its bytecode. -/
def compileLog (text : List Char) : List String :=
  let stream := tokenize text
  tokenLog stream.tokens ++
    match stream.tokens.mapM Token.encode, stream.failure with
    | .ok words, none =>
        if words.getLast? = some haltWord then [] else ["Appending implicit halt"]
    | _, _ => []

end ReversePolish
