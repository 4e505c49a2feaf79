import ReversePolish.Proofs.Machine.Operations

/-! # Operations called directly

The operations of a processor can be called without a step. Each call is an instruction carried
out (`Cpu.Call.action_eq`), and one that fails by a fault changes nothing. The only other way to
fail is to push a value that four bytes cannot hold: the stack address has then moved to where
the value was to be written, and nothing else has changed (`Cpu.call_all_or_nothing`).
-/

namespace ReversePolish

namespace Cpu

variable {cpu after : Cpu} {stack : List Int} {value : Int} {failure : Failure}

/-- An operation that is called on a processor. -/
inductive Call where
  | push (value : Int)
  | operate (operator : Operator)
  | dispatch (instruction : Instruction)
  deriving Repr, DecidableEq

namespace Call

/-- What a call does. -/
def action : Call → Action Unit
  | push value => Cpu.push value
  | operate operator => Cpu.operate operator
  | dispatch instruction => Cpu.dispatch instruction

/-- The instruction that a call carries out. -/
def instruction : Call → Instruction
  | push value => .push value
  | operate operator => .primitive (.arithmetic operator)
  | dispatch instruction => instruction

theorem action_eq (call : Call) : call.action = Cpu.dispatch call.instruction := by
  cases call <;> rfl

/-- A call that pushes a value which four bytes cannot hold, on a stack with room for it. -/
structure Overruns (call : Call) (cpu : Cpu) (value : Int) : Prop where
  pushes : call.instruction = .push value
  unfit : ¬ FitsValue value
  room : 0 < cpu.sp

end Call

/-- A value that does not fit is refused when the stack address has moved already. -/
theorem pushValue_of_unfit (holds : cpu.memory.Holds cpu.sp stack) (room : stack.length < origin)
    (unfit : ¬ FitsValue value) :
    pushValue value cpu =
      .error (.storage (.valueTooWide value)) { cpu with sp := cpu.sp - 1 } := by
  have eq := holds.sp_eq
  have below : 0 ≤ cpu.sp - 1 ∧ cpu.sp - 1 < origin := by omega
  obtain ⟨place, at_place⟩ : ∃ place : Address, cpu.sp - 1 = (place.val : Int) :=
    exists_address below.1 (by simp only [origin, memorySize] at *; omega)
  have refused : cpu.memory.writeValue (cpu.sp - 1) value = .error (.valueTooWide value) := by
    rw [at_place, Memory.writeValue, Address.ofInt_natCast, Quad.ofValue?, if_neg unfit]
    rfl
  rw [pushValue, bind_of_ok (get_apply cpu), if_pos below, bind_of_ok (set_apply _ _), refused]
  rfl

theorem push_of_unfit (holds : cpu.memory.Holds cpu.sp stack) (room : stack.length < origin)
    (unfit : ¬ FitsValue value) :
    push value cpu = .error (.storage (.valueTooWide value)) { cpu with sp := cpu.sp - 1 } := by
  rw [push, bind_of_error (pushValue_of_unfit holds room unfit)]

/-- **What an instruction comes to** on a stack: it is carried out, or it faults and changes
nothing, or it pushes a value that does not fit. -/
theorem dispatch_cases (instruction : Instruction) (holds : cpu.memory.Holds cpu.sp stack) :
    (∃ after, dispatch instruction cpu = .ok () after) ∨
    (∃ cause, dispatch instruction cpu = .error (.fault { cause }) cpu) ∨
    ∃ value, instruction = .push value ∧ ¬ FitsValue value ∧ stack.length < origin ∧
      dispatch instruction cpu =
        .error (.storage (.valueTooWide value)) { cpu with sp := cpu.sp - 1 } := by
  cases performed : AbstractMachine.perform stack instruction with
  | error cause => exact .inr (.inl ⟨cause, dispatch_of_failed holds performed⟩)
  | ok outcome =>
      obtain ⟨remaining, status⟩ := outcome
      obtain ⟨line, performs⟩ := AbstractMachine.perform_eq_ok_iff.mp performed
      cases performs with
      | @push _ value room =>
          by_cases fits : FitsValue value
          · exact .inl ⟨_, push_apply holds room fits⟩
          · exact .inr (.inr ⟨value, rfl, fits, room, push_of_unfit holds room fits⟩)
      | halt => exact .inl ⟨_, halt_apply holds⟩
      | operate combined => exact .inl ⟨_, operate_apply holds combined⟩

/-- **A call that fails changes nothing**, but for one that pushes a value which four bytes
cannot hold: on a stack with room for it, that call always fails, and leaves the stack address
one lower and all else as it was. -/
theorem call_all_or_nothing (call : Call) (nonneg : 0 ≤ cpu.sp) (le : cpu.sp ≤ origin) :
    (∀ failure after, call.action cpu = .error failure after →
      (after = cpu ∧ ∃ cause, failure = .fault { cause }) ∨
      ∃ value, call.Overruns cpu value ∧ failure = .storage (.valueTooWide value) ∧
        after = { cpu with sp := cpu.sp - 1 }) ∧
    ∀ value, call.Overruns cpu value →
      call.action cpu = .error (.storage (.valueTooWide value)) { cpu with sp := cpu.sp - 1 } := by
  obtain ⟨stack, holds⟩ := cpu.memory.exists_holds nonneg le
  have eq := holds.sp_eq
  rw [call.action_eq]
  constructor
  · intro failure after failed
    rcases dispatch_cases call.instruction holds with
      ⟨other, carried⟩ | ⟨cause, faulted⟩ | ⟨value, pushes, unfit, room, overrun⟩
    · exact absurd (carried.symm.trans failed) (by simp)
    · obtain ⟨rfl, rfl⟩ := EStateM.Result.error.inj (faulted.symm.trans failed)
      exact .inl ⟨rfl, cause, rfl⟩
    · obtain ⟨rfl, rfl⟩ := EStateM.Result.error.inj (overrun.symm.trans failed)
      exact .inr ⟨value, ⟨pushes, unfit, by omega⟩, rfl, rfl⟩
  · intro value overruns
    obtain ⟨pushes, unfit, room⟩ := overruns
    rw [pushes]
    exact push_of_unfit holds (by omega) unfit

/-- A processor whose stack is full of zeros. -/
def filled : Cpu := { sp := 0, traced := true }

theorem call_all_or_nothing_of_filled :
    ∃ failure after, (Call.push 5).action filled = .error failure after ∧ after = filled ∧
      ∃ cause, failure = .fault { cause } := by
  obtain ⟨stack, holds⟩ : ∃ stack, filled.memory.Holds filled.sp stack :=
    filled.memory.exists_holds (by decide) (by decide)
  have full : (stack.length : Int) = origin := by
    have eq := holds.sp_eq
    rw [show filled.sp = 0 from rfl] at eq
    omega
  have failed : push 5 filled = .error _ filled := push_of_full holds (by omega)
  obtain ⟨unchanged, -⟩ := @call_all_or_nothing filled (.push 5) (by decide) (by decide)
  rcases unchanged _ _ failed with same | ⟨value, overruns, -⟩
  · exact ⟨_, _, failed, same⟩
  · exact absurd overruns.room (by decide)

/-- Not every call that fails leaves the processor as it was. -/
theorem push_moves_before_failing :
    ∃ failure after, (Call.push 0x80000000).action ({ } : Cpu) = .error failure after ∧
      after.sp ≠ ({ } : Cpu).sp :=
  ⟨_, _, push_of_unfit (Memory.holds_nil_iff.mpr rfl) (by decide) (by decide), by decide⟩

end Cpu

end ReversePolish
