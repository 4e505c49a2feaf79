import ReversePolish.Machine.Stack
import ReversePolish.Source.Token

/-! # Calculations

A calculation is a list of numbers and operators in reverse Polish order. It is
carried out from left to right on a stack of values, without a machine; the first
entry that fails is told with its cause. `Calculation.exact` carries it out on
integers of any size.
-/

namespace ReversePolish

/-- A number or an operator. -/
inductive Entry where
  | number (value : Int)
  | operator (operator : Operator)
  deriving Repr, DecidableEq

/-- What a token stands for; a symbol of no operator stands for nothing. -/
def Token.entry? : Token → Option Entry
  | number value _ => some (.number value)
  | operator "+" _ => some (.operator .add)
  | operator "-" _ => some (.operator .sub)
  | operator "*" _ => some (.operator .mul)
  | operator "/" _ => some (.operator .div)
  | operator _ _ => none

namespace Entry

/-- What an entry makes of a stack. -/
def eval (stack : List Int) : Entry → Except FaultCause (List Int)
  | number value => Stack.push value stack
  | operator applied => Stack.operate applied stack

/-- What an entry makes of a stack of integers of any size. -/
def exact (stack : List Int) : Entry → Option (List Int)
  | number value => some (value :: stack)
  | operator applied =>
      match stack with
      | top :: second :: rest => (applied.result? second top).map (· :: rest)
      | _ => none

/-- By how much an entry changes the number of values. -/
def depthChange : Entry → Int
  | number _ => 1
  | operator _ => -1

end Entry

namespace Calculation

/-- Carries entries out from left to right; on failure gives the number of
entries before the one that failed, and the cause. -/
def evalFrom (done : Nat) (stack : List Int) : List Entry → Except (Nat × FaultCause) (List Int)
  | [] => .ok stack
  | entry :: rest =>
      match entry.eval stack with
      | .ok stack => evalFrom (done + 1) stack rest
      | .error cause => .error (done, cause)

/-- The stack that a calculation leaves. -/
def eval (entries : List Entry) : Except (Nat × FaultCause) (List Int) := evalFrom 0 [] entries

/-- The stack that a calculation leaves when no value is ever wrapped. -/
def exact (entries : List Entry) : Option (List Int) := entries.foldlM Entry.exact []

/-- The number of values that a calculation leaves if nothing fails: its numbers
less its operators. -/
def depth : List Entry → Int
  | [] => 0
  | entry :: rest => entry.depthChange + depth rest

end Calculation

end ReversePolish
