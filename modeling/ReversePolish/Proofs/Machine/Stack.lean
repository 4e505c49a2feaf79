import ReversePolish.Machine.Abstract
import ReversePolish.Machine.Cpu
import ReversePolish.Proofs.Outcome
import ReversePolish.Proofs.Word.Quotient

/-! # When a stack admits an operation

The arithmetic of stacks is the processor's (`Operator.result?_eq_combine`,
`Stack.reduce_eq_wrap`). A value goes on every stack that is not full, and an operator
applies to every stack of two values or more unless it divides by zero. The statements
say what comes of it in both cases (`Stack.push_eq_ok_iff`, `Stack.operate_eq_ok_iff` and
the ones for errors). Whole instructions that can be carried out are told by
`AbstractMachine.Performs`, with the line that a trace shows of them.
-/

namespace ReversePolish

/-- **The processor's operators are those of the integers.** -/
theorem Operator.result?_eq_combine (operator : Operator) (second top : Int) :
    operator.result? second top = operator.combine second top := by
  cases operator with
  | add | sub | mul => rfl
  | div =>
      by_cases zero : top = 0
      · rw [result?, combine, truncatedQuotient, if_pos zero, if_pos zero]
      · rw [result?, combine, if_neg zero, truncatedQuotient_eq zero, Int.natCast_ediv,
          Int.abs_eq_natAbs, Int.abs_eq_natAbs]

theorem Stack.reduce_eq_wrap (number : Int) : Stack.reduce number = wrap number := by
  simp only [Stack.reduce, wrap, Int.bmod_def, wordRange]
  omega

/-- Only a quotient by zero makes no number. -/
theorem Operator.combine_eq_none_iff {operator : Operator} {second top : Int} :
    operator.combine second top = none ↔ operator = .div ∧ top = 0 := by
  cases operator <;> simp [combine, truncatedQuotient]

namespace Stack

variable {stack after : List Int} {value : Int} {operator : Operator} {cause : FaultCause}

theorem push_eq_ok_iff :
    push value stack = .ok after ↔ stack.length < origin ∧ after = value :: stack := by
  by_cases room : stack.length < origin
  · simp [push, room, eq_comm]
  · simp [push, room]

theorem push_eq_error_iff :
    push value stack = .error cause ↔
      ¬ stack.length < origin ∧ cause = .stackOverflow stack.length := by
  by_cases room : stack.length < origin
  · simp [push, room]
  · simp [push, room, eq_comm]

theorem operate_of_few (few : stack.length < 2) :
    operate operator stack = .error (.stackUnderflow operator.mnemonic stack.length) := by
  match stack, few with
  | [], _ => rfl
  | [_], _ => rfl

theorem operate_eq_ok_iff :
    operate operator stack = .ok after ↔
      ∃ top second rest result, stack = top :: second :: rest ∧
        operator.combine second top = some result ∧ after = wrap result :: rest := by
  constructor
  · intro operated
    rcases stack with _ | ⟨top, _ | ⟨second, rest⟩⟩
    · exact absurd operated (by simp [operate])
    · exact absurd operated (by simp [operate])
    · simp only [operate] at operated
      split at operated
      · next result combined =>
          rw [Operator.result?_eq_combine] at combined
          rw [reduce_eq_wrap, Except.ok.injEq] at operated
          exact ⟨top, second, rest, result, rfl, combined, operated.symm⟩
      · exact absurd operated (by simp)
  · intro operands
    obtain ⟨top, second, rest, result, rfl, combined, rfl⟩ := operands
    simp only [operate, Operator.result?_eq_combine, combined, reduce_eq_wrap]

theorem operate_eq_error_iff :
    operate operator stack = .error cause ↔
      stack.length < 2 ∧ cause = .stackUnderflow operator.mnemonic stack.length ∨
      (∃ second rest, stack = 0 :: second :: rest) ∧ operator = .div ∧
        cause = .divisionByZero := by
  constructor
  · intro failed
    by_cases few : stack.length < 2
    · rw [operate_of_few few, Except.error.injEq] at failed
      exact .inl ⟨few, failed.symm⟩
    · rcases stack with _ | ⟨top, _ | ⟨second, rest⟩⟩
      · exact absurd (by simp) few
      · exact absurd (by simp) few
      · simp only [operate] at failed
        split at failed
        · exact absurd failed (by simp)
        · next uncombined =>
            rw [Operator.result?_eq_combine] at uncombined
            obtain ⟨division, rfl⟩ := Operator.combine_eq_none_iff.mp uncombined
            exact .inr ⟨⟨second, rest, rfl⟩, division, (Except.error.inj failed).symm⟩
  · intro reasons
    rcases reasons with ⟨few, rfl⟩ | ⟨⟨second, rest, rfl⟩, rfl, rfl⟩
    · exact operate_of_few few
    · rfl

end Stack

namespace AbstractMachine

/-- An instruction carried out on a stack: the stack it leaves, whether the machine
goes on, and the line that tells it. -/
inductive Performs : List Int → Instruction → List Int → Status → TraceLine → Prop where
  | push {stack : List Int} {value : Int} (room : stack.length < origin) :
      Performs stack (.push value) (value :: stack) .running (.push value)
  | halt {stack : List Int} : Performs stack (.primitive .halt) stack .halted .halt
  | operate {operator : Operator} {top second result : Int} {rest : List Int}
      (combined : operator.combine second top = some result) :
      Performs (top :: second :: rest) (.primitive (.arithmetic operator)) (wrap result :: rest)
        .running (.operation operator second top)

variable {stack after : List Int} {instruction : Instruction} {status : Status}

/-- The machine without memory performs exactly the instructions that can be carried
out. -/
theorem perform_eq_ok_iff :
    perform stack instruction = .ok (after, status) ↔
      ∃ line, Performs stack instruction after status line := by
  constructor
  · intro performed
    rcases instruction with value | (_ | operator) | payload
    · obtain ⟨pushed, found, same⟩ := map_eq_ok_iff.mp performed
      obtain ⟨room, rfl⟩ := Stack.push_eq_ok_iff.mp found
      obtain ⟨rfl, rfl⟩ := Prod.mk.inj same
      exact ⟨_, .push room⟩
    · obtain ⟨rfl, rfl⟩ := Prod.mk.inj (Except.ok.inj performed)
      exact ⟨_, .halt⟩
    · obtain ⟨operated, found, same⟩ := map_eq_ok_iff.mp performed
      obtain ⟨top, second, rest, result, rfl, combined, rfl⟩ := Stack.operate_eq_ok_iff.mp found
      obtain ⟨rfl, rfl⟩ := Prod.mk.inj same
      exact ⟨_, .operate combined⟩
    · exact absurd performed (by simp [perform])
  · intro performed
    obtain ⟨line, performs⟩ := performed
    cases performs with
    | push room => exact map_eq_ok_iff.mpr ⟨_, Stack.push_eq_ok_iff.mpr ⟨room, rfl⟩, rfl⟩
    | halt => rfl
    | operate combined =>
        exact map_eq_ok_iff.mpr
          ⟨_, Stack.operate_eq_ok_iff.mpr ⟨_, _, _, _, rfl, combined, rfl⟩, rfl⟩

/-- An instruction can be carried out on a stack in one way. -/
theorem Performs.unique {stack remaining others : List Int}
    {instruction : Instruction} {status next : Status} {line other : TraceLine}
    (performs : Performs stack instruction remaining status line)
    (again : Performs stack instruction others next other) :
    remaining = others ∧ status = next ∧ line = other := by
  cases performs with
  | push =>
      cases again
      exact ⟨rfl, rfl, rfl⟩
  | halt =>
      cases again
      exact ⟨rfl, rfl, rfl⟩
  | operate combined =>
      cases again with
      | operate found =>
          obtain rfl := Option.some.inj (combined.symm.trans found)
          exact ⟨rfl, rfl, rfl⟩

end AbstractMachine

end ReversePolish
