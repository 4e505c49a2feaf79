import ReversePolish.Proofs.Machine.Operations
import ReversePolish.Proofs.Word.Quotient

/-! # Division on a processor

A division by another value than zero leaves the truncated quotient in place of its two
operands, and the least value divided by minus one leaves the least value
(`Cpu.divide_of_ne_zero`). A division that is not carried out is a fault, told before anything
changes: too few values first, then a divisor of zero (`Cpu.divide_truncates`).
-/

namespace ReversePolish

namespace Cpu

variable {cpu : Cpu} {dividend divisor : Int} {rest : List Int}

/-- An operation that needs two values looks for them first, wherever the stack address is. -/
theorem operands_of_shallow (needed : String) (shallow : cpu.depth < 2)
    (writable : Text.Writable cpu.depth) :
    operands needed cpu = .error (.fault { cause := .stackUnderflow needed cpu.depth }) cpu := by
  rw [operands, bind_of_ok (get_apply cpu), if_pos shallow]
  exact raise_of_writable (.stackUnderflow needed _) writable cpu

theorem divide_of_shallow (shallow : cpu.depth < 2) (writable : Text.Writable cpu.depth) :
    divide cpu = .error (.fault { cause := .stackUnderflow "div" cpu.depth }) cpu := by
  rw [divide, bind_of_error (operands_of_shallow _ shallow writable)]
  rfl

/-- A stack address so far past the origin that the depth cannot be told. -/
theorem divide_of_not_writable (shallow : cpu.depth < 2) (long : ¬ Text.Writable cpu.depth) :
    divide cpu = .error .tooManyDigits cpu := by
  have failed : operands Operator.div.mnemonic cpu = .error .tooManyDigits cpu := by
    rw [operands, bind_of_ok (get_apply cpu), if_pos shallow]
    exact raise_of_not_writable (.stackUnderflow _ _) long cpu
  rw [divide, bind_of_error failed]

theorem divide_of_zero (holds : cpu.memory.Holds cpu.sp (0 :: dividend :: rest)) :
    divide cpu = .error (.fault { cause := .divisionByZero }) cpu :=
  operate_of_failed holds (Stack.operate_eq_error_iff.mpr
    (.inr ⟨⟨dividend, rest, rfl⟩, rfl, rfl⟩))

/-- **A division that is carried out** leaves the truncated quotient of its operands, wrapped if
it is no value. -/
theorem divide_of_ne_zero (holds : cpu.memory.Holds cpu.sp (divisor :: dividend :: rest))
    (nonzero : divisor ≠ 0) :
    ∃ quotient after, truncatedQuotient dividend divisor = some quotient ∧
      divide cpu = .ok () after ∧
      Performed cpu after
        ((if dividend = -0x80000000 ∧ divisor = -1 then -0x80000000 else quotient) :: rest)
        cpu.status (.operation .div dividend divisor) := by
  have divided : Operator.div.combine dividend divisor = some (dividend.tdiv divisor) :=
    truncatedQuotient_of_ne_zero nonzero
  have truncates : Truncates dividend divisor _ _ := truncates_tdiv nonzero
  have fits : FitsValue dividend := holds.fitsValue (by simp)
  obtain ⟨below, room⟩ := holds.below_operands
  refine ⟨_, _, divided, operate_apply holds divided, ?_⟩
  rw [← wrap_of_truncates truncates fits]
  exact performed_tell (below.withValue room (fitsValue_wrap _))
    fun _ outside => withTop_frame below outside

/-- A stack address from zero on leaves room for two values or names a stack that has them. -/
theorem shallow_or_holds (nonneg : 0 ≤ cpu.sp) :
    cpu.depth < 2 ∨
      ∃ divisor dividend rest, cpu.memory.Holds cpu.sp (divisor :: dividend :: rest) := by
  rcases Int.lt_or_le cpu.depth 2 with shallow | deep
  · exact .inl shallow
  · rw [depth] at deep
    obtain ⟨stack, holds⟩ := cpu.memory.exists_holds nonneg (by omega)
    have eq := holds.sp_eq
    rcases stack with _ | ⟨divisor, _ | ⟨dividend, rest⟩⟩
    · simp only [List.length_nil] at eq
      omega
    · simp only [List.length_singleton] at eq
      omega
    · exact .inr ⟨divisor, dividend, rest, holds⟩

/-- **Division is exact truncation and wraps in one case.** The quotient is the one whose
remainder is smaller than the divisor and zero or of the sign of the dividend. On a processor it
takes the place of its operands, and nothing else on the stack changes; the least value by minus
one gives the least value. Too few values and a divisor of zero are faults that leave the
processor as it is, so that no quotient by zero is ever asked for; only a depth with too many
digits, which is that of no stack in memory, is not told as a fault. -/
theorem divide_truncates :
    (∀ dividend divisor quotient : Int,
      truncatedQuotient dividend divisor = some quotient ↔
        ∃ remainder, Truncates dividend divisor quotient remainder) ∧
    (∀ dividend divisor : Int, divisor ≠ 0 →
      truncatedQuotient dividend divisor =
        some (if dividend < 0 ↔ divisor < 0 then |dividend| / |divisor|
          else -(|dividend| / |divisor|))) ∧
    (∀ (cpu : Cpu) (dividend divisor : Int) (rest : List Int),
      cpu.memory.Holds cpu.sp (divisor :: dividend :: rest) → divisor ≠ 0 →
        ∃ quotient after, truncatedQuotient dividend divisor = some quotient ∧
          divide cpu = .ok () after ∧
          Performed cpu after
            ((if dividend = -0x80000000 ∧ divisor = -1 then -0x80000000 else quotient) :: rest)
            cpu.status (.operation .div dividend divisor)) ∧
    (∀ (cpu : Cpu) (dividend : Int) (rest : List Int),
      cpu.memory.Holds cpu.sp (0 :: dividend :: rest) →
        divide cpu = .error (.fault { cause := .divisionByZero }) cpu) ∧
    (∀ cpu : Cpu, cpu.depth < 2 → Text.Writable cpu.depth →
      divide cpu = .error (.fault { cause := .stackUnderflow "div" cpu.depth }) cpu) ∧
    (∀ cpu : Cpu, cpu.depth < 2 → ¬ Text.Writable cpu.depth →
      divide cpu = .error .tooManyDigits cpu) ∧
    ∀ cpu after : Cpu, 0 ≤ cpu.sp → divide cpu ≠ .error .zeroDivisor after := by
  refine ⟨fun _ _ _ => truncatedQuotient_eq_some_iff, fun _ _ => truncatedQuotient_eq,
    fun _ _ _ _ => divide_of_ne_zero, fun _ _ _ => divide_of_zero, fun _ => divide_of_shallow,
    fun _ => divide_of_not_writable, ?_⟩
  intro cpu after nonneg failed
  rcases shallow_or_holds nonneg with shallow | ⟨divisor, dividend, rest, holds⟩
  · by_cases writable : Text.Writable cpu.depth
    · exact absurd ((divide_of_shallow shallow writable).symm.trans failed) (by simp)
    · exact absurd ((divide_of_not_writable shallow writable).symm.trans failed) (by simp)
  · by_cases zero : divisor = 0
    · subst zero
      exact absurd ((divide_of_zero holds).symm.trans failed) (by simp)
    · obtain ⟨quotient, others, -, divided, -⟩ := divide_of_ne_zero holds zero
      exact absurd (divided.symm.trans failed) (by simp)

/-- A processor whose stack holds minus one on the least value. -/
def leastByMinusOne : Cpu := (({ } : Cpu).withTop 99 (-0x80000000)).withTop 98 (-1)

theorem divide_truncates_of_least :
    ∃ after, divide leastByMinusOne = .ok () after ∧
      after.memory.Holds after.sp [-0x80000000] := by
  have one : (({ } : Cpu).withTop 99 (-0x80000000)).memory.Holds 99 [-0x80000000] :=
    holds_withTop (Memory.holds_nil_iff.mpr rfl) (by decide) (by decide)
  have both : leastByMinusOne.memory.Holds leastByMinusOne.sp [-1, -0x80000000] :=
    holds_withTop one (by decide) (by decide)
  obtain ⟨-, -, carried, -⟩ := divide_truncates
  obtain ⟨quotient, after, -, divided, performed⟩ := carried _ _ _ _ both (by decide)
  exact ⟨after, divided, performed.holds⟩

end Cpu

end ReversePolish
