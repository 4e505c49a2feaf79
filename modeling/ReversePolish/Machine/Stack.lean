import ReversePolish.Machine.Fault

/-! # Stacks of values

A stack as a list, its top first, and what instructions make of it. It holds at
most as many values as there are words below the origin. Arithmetic is that of
the integers here, brought back into the range of a value by `Stack.reduce`.
-/

namespace ReversePolish

/-- What an operator comes to on integers of any size, if it comes to a number:
`second` stands before `top`. A quotient is truncated toward zero, and there is none
by zero. -/
def Operator.result? (operator : Operator) (second top : Int) : Option Int :=
  match operator with
  | .add => some (second + top)
  | .sub => some (second - top)
  | .mul => some (second * top)
  | .div =>
      if top = 0 then none
      else
        let quotient : Int := (second.natAbs / top.natAbs : Nat)
        some (if second < 0 ↔ top < 0 then quotient else -quotient)

namespace Stack

/-- The value of 32 bits that differs from a number by a multiple of their range. -/
def reduce (number : Int) : Int := (number + 0x80000000) % 0x100000000 - 0x80000000

/-- A value on top of a stack that is not full. -/
def push (value : Int) (stack : List Int) : Except FaultCause (List Int) :=
  if stack.length < origin then .ok (value :: stack) else .error (.stackOverflow stack.length)

/-- What an operator comes to on the second value and the top, in their place. -/
def operate (operator : Operator) : List Int → Except FaultCause (List Int)
  | top :: second :: rest =>
      match operator.result? second top with
      | some result => .ok (reduce result :: rest)
      | none => .error .divisionByZero
  | stack => .error (.stackUnderflow operator.mnemonic stack.length)

end Stack

end ReversePolish
