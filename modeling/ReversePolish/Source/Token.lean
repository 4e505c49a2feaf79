import ReversePolish.Position
import ReversePolish.Text.Quoted

/-! # Tokens of a source

A token is a number or an operator symbol, with the place of its first
character if that is known. `Token.unplaced` forgets the place, so that tokens of
different texts can be compared.
-/

namespace ReversePolish

/-- A number or an operator symbol of a source, and where it starts. -/
inductive Token where
  | number (value : Int) (position : Option Position)
  | operator (symbol : String) (position : Option Position)
  deriving Repr, DecidableEq

namespace Token

/-- The place of a token's first character. -/
def position? : Token → Option Position
  | number _ position => position
  | operator _ position => position

/-- A token without its place. -/
def unplaced : Token → Token
  | number value _ => number value none
  | operator symbol _ => operator symbol none

/-- A place as a verbose run tells it. -/
def describePosition : Option Position → String
  | none => "None"
  | some position =>
      s!"Position(offset={position.offset}, line={position.line}, column={position.column})"

/-- A token as a verbose run tells it. -/
def describe : Token → String
  | number value position => s!"Number(value={value}, position={describePosition position})"
  | operator symbol position =>
      s!"Operator(symbol={Text.quoted symbol}, position={describePosition position})"

end Token

end ReversePolish
