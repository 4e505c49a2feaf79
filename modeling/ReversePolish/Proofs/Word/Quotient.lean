import Mathlib.Algebra.Order.Group.Unbundled.Int
import Mathlib.Data.Int.Order.Basic
import ReversePolish.Word.Basic

/-! # Quotients truncated toward zero

A truncated quotient is told by what it leaves over: less than the divisor, and nothing or of
the sign of the dividend (`Truncates`). There is exactly one by every divisor but zero
(`truncatedQuotient_eq_some_iff`), and it is the quotient of the magnitudes with the sign that
the two signs give (`truncatedQuotient_eq`). The quotient of two values is a value but for one
pair of them (`wrap_of_truncates`).
-/

namespace ReversePolish

variable {dividend divisor quotient remainder : Int}

/-- A quotient whose remainder is smaller than the divisor, and zero or of the sign of the
dividend. -/
structure Truncates (dividend divisor quotient remainder : Int) : Prop where
  recombines : dividend = quotient * divisor + remainder
  small : |remainder| < |divisor|
  sign : remainder = 0 ∨ remainder.sign = dividend.sign

theorem Truncates.divisor_ne_zero (truncates : Truncates dividend divisor quotient remainder) :
    divisor ≠ 0 := by
  rintro rfl
  exact absurd truncates.small (by simp)

/-- The remainder of truncated division is left over by its quotient. -/
theorem truncates_tdiv (nonzero : divisor ≠ 0) :
    Truncates dividend divisor (dividend.tdiv divisor) (dividend.tmod divisor) where
  recombines := (Int.tdiv_mul_add_tmod dividend divisor).symm
  small := by
    rw [Int.abs_eq_natAbs, Int.abs_eq_natAbs, Int.ofNat_lt, Int.natAbs_tmod]
    exact Nat.mod_lt _ (Int.natAbs_pos.mpr nonzero)
  sign := by
    rw [Int.sign_tmod]
    by_cases divides : divisor ∣ dividend
    · exact .inl (Int.tmod_eq_zero_of_dvd divides)
    · exact .inr (if_neg divides)

/-- Nothing else is a truncated quotient. -/
theorem Truncates.tdiv_eq (truncates : Truncates dividend divisor quotient remainder) :
    dividend.tdiv divisor = quotient := by
  have nonzero := truncates.divisor_ne_zero
  obtain ⟨recombines, small, sign⟩ := truncates
  rw [Int.abs_eq_natAbs, Int.abs_eq_natAbs] at small
  have product : dividend = remainder + divisor * quotient := by
    rw [recombines, Int.mul_comm, Int.add_comm]
  rcases Int.le_total 0 dividend with nonneg | nonpos
  · have remainder_nonneg : 0 ≤ remainder := by
      rcases sign with rfl | same
      · exact Int.le_refl 0
      · exact Int.sign_nonneg_iff.mp (same ▸ Int.sign_nonneg_iff.mpr nonneg)
    exact ((Int.tdiv_tmod_unique nonneg nonzero).mpr
      ⟨product.symm, remainder_nonneg, by omega⟩).1
  · have remainder_nonpos : remainder ≤ 0 := by
      rcases sign with rfl | same
      · exact Int.le_refl 0
      · exact Int.sign_nonpos_iff.mp (same ▸ Int.sign_nonpos_iff.mpr nonpos)
    exact ((Int.tdiv_tmod_unique' nonpos nonzero).mpr
      ⟨product.symm, by omega, remainder_nonpos⟩).1

theorem truncatedQuotient_of_ne_zero (nonzero : divisor ≠ 0) :
    truncatedQuotient dividend divisor = some (dividend.tdiv divisor) := if_neg nonzero

/-- **The quotient is exactly the truncated one.** -/
theorem truncatedQuotient_eq_some_iff :
    truncatedQuotient dividend divisor = some quotient ↔
      ∃ remainder, Truncates dividend divisor quotient remainder := by
  constructor
  · intro divided
    by_cases zero : divisor = 0
    · rw [truncatedQuotient, if_pos zero] at divided
      exact absurd divided (by simp)
    · rw [truncatedQuotient_of_ne_zero zero, Option.some.injEq] at divided
      exact ⟨_, divided ▸ truncates_tdiv zero⟩
  · intro truncated
    obtain ⟨remainder, truncates⟩ := truncated
    rw [truncatedQuotient_of_ne_zero truncates.divisor_ne_zero, truncates.tdiv_eq]

/-- The quotient of the magnitudes, negative if one of the two numbers is and the other is
not. -/
theorem truncatedQuotient_eq (nonzero : divisor ≠ 0) :
    truncatedQuotient dividend divisor =
      some (if dividend < 0 ↔ divisor < 0 then |dividend| / |divisor|
        else -(|dividend| / |divisor|)) := by
  have magnitudes (nonneg : 0 ≤ dividend) : dividend.tdiv divisor = dividend / divisor :=
    Int.tdiv_eq_ediv_of_nonneg nonneg
  rw [truncatedQuotient_of_ne_zero nonzero, Option.some.injEq]
  rcases Int.lt_or_le dividend 0 with negative | nonneg
  · have dividend_abs : |dividend| = -dividend := abs_of_neg negative
    have flipped : dividend.tdiv divisor = -(-dividend / divisor) := by
      rw [← Int.tdiv_eq_ediv_of_nonneg (by omega), Int.neg_tdiv, Int.neg_neg]
    rw [flipped, dividend_abs]
    rcases Int.lt_or_le divisor 0 with divisor_negative | divisor_nonneg
    · rw [if_pos (by omega), abs_of_neg divisor_negative, Int.ediv_neg]
    · rw [if_neg (by omega), abs_of_nonneg divisor_nonneg]
  · rw [magnitudes nonneg, abs_of_nonneg nonneg]
    rcases Int.lt_or_le divisor 0 with divisor_negative | divisor_nonneg
    · rw [if_neg (by omega), abs_of_neg divisor_negative, Int.ediv_neg,
        Int.neg_neg]
    · rw [if_pos (by omega), abs_of_nonneg divisor_nonneg]

/-- The quotient of two values is wrapped in one case only: the least value by minus one. -/
theorem wrap_of_truncates (truncates : Truncates dividend divisor quotient remainder)
    (fits : FitsValue dividend) :
    wrap quotient =
      if dividend = -0x80000000 ∧ divisor = -1 then -0x80000000 else quotient := by
  have quotient_eq := truncates.tdiv_eq
  have nonzero := truncates.divisor_ne_zero
  split
  · next least =>
      obtain ⟨rfl, rfl⟩ := least
      subst quotient_eq
      rfl
  · next other =>
      apply wrap_of_fitsValue
      have magnitude : quotient.natAbs = dividend.natAbs / divisor.natAbs :=
        quotient_eq ▸ Int.natAbs_tdiv dividend divisor
      obtain ⟨least, greatest⟩ := fits
      by_cases unit : divisor.natAbs = 1
      · rcases Int.natAbs_eq divisor with one | minusOne
        · obtain rfl : divisor = 1 := by omega
          rw [Int.tdiv_one] at quotient_eq
          exact quotient_eq ▸ ⟨least, greatest⟩
        · obtain rfl : divisor = -1 := by omega
          rw [Int.tdiv_neg, Int.tdiv_one] at quotient_eq
          exact ⟨by omega, by omega⟩
      · -- By two or more in magnitude, the quotient is at most half the dividend.
        have halved : dividend.natAbs / divisor.natAbs ≤ dividend.natAbs / 2 :=
          Nat.div_le_div_left (by omega) (by decide)
        exact ⟨by omega, by omega⟩

end ReversePolish
