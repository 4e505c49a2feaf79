import Mathlib.Data.Nat.Notation
import ReversePolish.Proofs.Listing.Numeral
import ReversePolish.Text.Numeral

/-! # Written numbers are numerals

The digits that a number is written with spell it (`Numeral.valueOf_digits`), whatever zeros
stand before them. So a number written in decimal is a numeral that denotes it
(`Numeral.denotes_toDigits`), and so is one written in hexadecimal behind its mark
(`Numeral.denotes_hexWord`).
-/

namespace ReversePolish

namespace Numeral

variable {base number : Nat} {char : Char} {digits : List Char}

theorem valueOf_append_singleton (base : Nat) (digits : List Char) (digit : Char) :
    valueOf base (digits ++ [digit]) = valueOf base digits * base + digitValue digit := by
  rw [valueOf, List.foldl_append]
  rfl

/-- Zeros before a number do not change it. -/
theorem valueOf_zeros (base count : Nat) (digits : List Char) :
    valueOf base (List.replicate count '0' ++ digits) = valueOf base digits := by
  have zeros : valueOf base (List.replicate count '0') = 0 := by
    induction count with
    | zero => rfl
    | succ count ih =>
        rw [List.replicate_succ', valueOf_append_singleton, ih, Nat.zero_mul]
        decide
  rw [valueOf, List.foldl_append]
  exact congrArg (fun value => valueFrom base value digits) zeros

theorem digitValue_digitChar {digit : Nat} (small : digit < 16) :
    digitValue digit.digitChar.toUpper = digit := by
  revert digit
  decide

theorem isHexadecimal_digitChar {digit : Nat} (small : digit < 16) :
    isHexadecimal digit.digitChar.toUpper := by
  revert digit
  decide

theorem digits_ne_nil (base number : Nat) : Text.digits base number ≠ [] := by
  simp [Text.digits, Nat.toDigits_ne_nil]

/-- What holds of single digits and goes on to hold with one digit more holds of the digits
of every number. -/
theorem digits_induction {property : Nat → List Char → Prop} (base_gt : 1 < base)
    (single : ∀ digit < base, property digit [digit.digitChar.toUpper])
    (more : ∀ number digits, ∀ digit < base, property number digits →
      property (base * number + digit) (digits ++ [digit.digitChar.toUpper]))
    (number : Nat) : property number (Text.digits base number) := by
  induction number using Nat.strong_induction_on with
  | _ number ih =>
      rw [Text.digits, Nat.toDigits_eq_if base_gt]
      split
      · next small => exact single number small
      · next large =>
          have positive : 0 < base := Nat.zero_lt_of_lt base_gt
          have shorter : number / base < number :=
            Nat.div_lt_self (Nat.lt_of_lt_of_le positive (Nat.le_of_not_lt large)) base_gt
          have longer := more _ _ _ (Nat.mod_lt number positive) (ih _ shorter)
          rwa [Nat.div_add_mod, Text.digits, ← List.map_singleton, ← List.map_append] at longer

/-- **The digits of a number spell it.** -/
theorem valueOf_digits (base_gt : 1 < base) (base_le : base ≤ 16) (number : Nat) :
    valueOf base (Text.digits base number) = number := by
  refine @digits_induction base (fun number digits => valueOf base digits = number) base_gt
    (fun digit small => ?_) (fun number digits digit small spelled => ?_) number
  · rw [← List.nil_append [_], valueOf_append_singleton,
      digitValue_digitChar (Nat.lt_of_lt_of_le small base_le)]
    simp [valueOf]
  · rw [valueOf_append_singleton, spelled,
      digitValue_digitChar (Nat.lt_of_lt_of_le small base_le), Nat.mul_comm]

theorem isHexadecimal_of_mem_digits (base_gt : 1 < base) (base_le : base ≤ 16) (number : Nat) :
    ∀ char ∈ Text.digits base number, isHexadecimal char := by
  refine @digits_induction base (fun _ digits => ∀ char ∈ digits, isHexadecimal char) base_gt
    (fun digit small => ?_) (fun number digits digit small hexadecimal => ?_) number
  · rw [List.forall_mem_singleton]
    exact isHexadecimal_digitChar (Nat.lt_of_lt_of_le small base_le)
  · rw [List.forall_mem_append, List.forall_mem_singleton]
    exact ⟨hexadecimal, isHexadecimal_digitChar (Nat.lt_of_lt_of_le small base_le)⟩

/-- Decimal digits have no upper case. -/
theorem digits_ten (number : Nat) : Text.digits 10 number = Nat.toDigits 10 number := by
  refine (List.map_congr_left fun char member => ?_).trans (List.map_id _)
  have digit := Nat.isDigit_of_mem_toDigits (by decide) (by decide) member
  rw [Char.isDigit, Bool.and_eq_true, decide_eq_true_eq, decide_eq_true_eq] at digit
  refine dif_neg fun lower => ?_
  exact absurd (UInt32.le_trans lower.1 digit.2) (by decide)

theorem denotes_toDigits (number : Nat) : Denotes (Nat.toDigits 10 number) number := by
  have denotes := Denotes.decimal (@Nat.toDigits_ne_nil number 10)
    fun digit member => Nat.isDigit_of_mem_toDigits (by decide) (by decide) member
  rwa [← digits_ten, valueOf_digits (by decide) (by decide), digits_ten] at denotes

theorem isHexadecimal_of_mem_leftpad {width : Nat} (base_gt : 1 < base) (base_le : base ≤ 16)
    (member : char ∈ (Text.digits base number).leftpad width '0') : isHexadecimal char := by
  rcases List.mem_append.mp member with zero | digit
  · rw [List.eq_of_mem_replicate zero]
    decide
  · exact isHexadecimal_of_mem_digits base_gt base_le _ char digit

/-- A number filled up with zeros is made of digits and a sign. -/
theorem mem_zeroPadded {width : Nat} {written : Int} (base_gt : 1 < base) (base_le : base ≤ 16)
    (member : char ∈ Text.zeroPadded base width written) : char = '-' ∨ isHexadecimal char := by
  rw [Text.zeroPadded] at member
  split at member
  · exact (List.mem_cons.mp member).imp_right (isHexadecimal_of_mem_leftpad base_gt base_le)
  · exact .inr (isHexadecimal_of_mem_leftpad base_gt base_le member)

/-- A number in hexadecimal denotes itself behind its mark. -/
theorem denotes_hexWord (number : Nat) :
    Denotes ('0' :: 'x' :: (Text.hexWord number).toList) number := by
  have written : (Text.hexWord number).toList = (Text.digits 16 number).leftpad 8 '0' := by
    rw [Text.hexWord, String.toList_ofList, Text.zeroPadded, if_neg (by simp), Int.natAbs_natCast]
  have value : valueOf 16 ((Text.digits 16 number).leftpad 8 '0') = number := by
    rw [List.leftpad, valueOf_zeros, valueOf_digits (by decide) (by decide)]
  have nonempty : (Text.digits 16 number).leftpad 8 '0' ≠ [] :=
    List.append_ne_nil_of_right_ne_nil _ (digits_ne_nil 16 number)
  have denotes := Denotes.hexadecimal (.inl rfl) nonempty fun _ member =>
    isHexadecimal_of_mem_leftpad (by decide) (by decide) member
  rwa [value, ← written] at denotes

end Numeral

end ReversePolish
