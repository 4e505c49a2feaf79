import Mathlib.Data.Int.Bitwise
import ReversePolish.Word.Basic

/-! # The bits of a word

A word is put together and taken apart by numbers. On integers of any size, in two's
complement, this is what shifts and masks do: the payload is masked out
(`Word.payload_eq_land`), the tag is what a shift leaves (`Word.shiftRight_eq_div`), and
the two never overlap (`Word.make_eq_lor`). The two bits above the payload tell the tags apart
(`Word.testBit_upper_iff`, `Word.testBit_lower_iff`).
-/

namespace ReversePolish

namespace Word

/-- A bit is the lowest one of what a shift leaves. -/
theorem testBit_eq (word : Int) (place : Nat) :
    word.testBit place = decide (word / (2 ^ place : Nat) % 2 = 1) := by
  cases word with
  | ofNat number =>
      rw [Int.testBit, Nat.testBit_eq_decide_div_mod_eq, decide_eq_decide, Int.ofNat_eq_natCast]
      omega
  | negSucc number =>
      have quotient : Int.negSucc number / (2 ^ place : Nat) = -((number / 2 ^ place : Nat) + 1) :=
        Int.negSucc_ediv number (Int.natCast_pos.mpr (Nat.two_pow_pos place))
      rw [quotient, Int.testBit, Nat.testBit_eq_decide_div_mod_eq, ← decide_not, decide_eq_decide]
      omega

theorem ldiff_two_pow_sub_one (number place : Nat) :
    (2 ^ place - 1).ldiff number = 2 ^ place - (number % 2 ^ place + 1) := by
  apply Nat.eq_of_testBit_eq
  intro index
  rw [Nat.testBit_ldiff, Nat.testBit_two_pow_sub_one,
    Nat.testBit_two_pow_sub_succ (Nat.mod_lt _ (Nat.two_pow_pos place)), Nat.testBit_mod_two_pow]
  cases decide (index < place) <;> simp

/-- The lowest bits of a number are its remainder, also below zero. -/
theorem land_two_pow_sub_one (word : Int) (place : Nat) :
    word.land (2 ^ place - 1 : Nat) = word % (2 ^ place : Nat) := by
  cases word with
  | ofNat number => exact congrArg Int.ofNat (Nat.and_two_pow_sub_one_eq_mod number place)
  | negSucc number =>
      have positive := Nat.two_pow_pos place
      have below := Nat.mod_lt number positive
      show ((2 ^ place - 1).ldiff number : Int) = _
      rw [ldiff_two_pow_sub_one, Int.negSucc_emod _ (Int.natCast_pos.mpr positive)]
      omega

theorem shiftRight_eq_div (word : Int) : word >>> tagShift = word / literalLimit :=
  Int.shiftRight_eq_div_pow word tagShift

theorem payload_eq_land (word : Int) : payload word = word.land payloadMask :=
  (land_two_pow_sub_one word tagShift).symm

/-- A tag is shifted up above the payload, which leaves room for it. -/
theorem make_eq_lor (tag : Nat) (number : Int) :
    make tag number = ((tag : Int) <<< tagShift).lor (number.land payloadMask) := by
  obtain ⟨low, lowEq⟩ := Int.eq_ofNat_of_zero_le (payload_nonneg number)
  have below : low < 2 ^ tagShift := Int.ofNat_lt.mp (lowEq ▸ payload_lt number)
  have joined : tag * 2 ^ tagShift + low = tag <<< tagShift ||| low := by
    rw [Nat.mul_comm, Nat.two_pow_add_eq_or_of_lt below, Nat.mul_comm, Nat.shiftLeft_eq]
  calc make tag number
      = ((tag * 2 ^ tagShift + low : Nat) : Int) := by
        rw [make, ← payload, lowEq]
        rfl
    _ = ((tag <<< tagShift : Nat) : Int).lor low := congrArg Int.ofNat joined
    _ = ((tag : Int) <<< tagShift).lor (number.land payloadMask) := by
        rw [← payload_eq_land, lowEq]
        rfl

theorem testBit_upper_iff (word : Int) :
    word.testBit 31 ↔ Word.tag word = .negative ∨ Word.tag word = .invalid := by
  have half : word / (2 ^ 31 : Nat) = word / literalLimit / 2 := by
    simp only [literalLimit]
    omega
  rw [testBit_eq, decide_eq_true_eq, half, Word.tag, Tag.ofBits]
  generalize word / literalLimit = bits
  split_ifs <;> simp <;> omega

theorem testBit_lower_iff (word : Int) :
    word.testBit 30 ↔ Word.tag word = .primitive ∨ Word.tag word = .invalid := by
  have whole : word / (2 ^ 30 : Nat) = word / literalLimit := rfl
  rw [testBit_eq, decide_eq_true_eq, whole, Word.tag, Tag.ofBits]
  generalize word / literalLimit = bits
  split_ifs <;> simp <;> omega

end Word

end ReversePolish
