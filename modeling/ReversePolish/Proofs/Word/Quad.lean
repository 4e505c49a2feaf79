import ReversePolish.Word.Quad

/-! # The two readings of four bytes

A word or a value that fits is read back from the bytes it is written to, and four bytes
are known by the word and by the value they spell (`Quad.toWord_injective`,
`Quad.toValue_injective`).
-/

namespace ReversePolish

namespace Quad

/-- The bytes of a signed value. -/
def ofValue (value : Int) : Quad := ofNat (value % wordRange).toNat

theorem ofValue?_eq_some {value : Int} (fits : FitsValue value) :
    ofValue? value = some (ofValue value) :=
  if_pos fits

theorem ofWord?_eq_some {word : Int} (fits : Word.Fits word) :
    ofWord? word = some (ofValue word) := by
  obtain ⟨nonneg, le⟩ := fits
  have same : word % wordRange = word :=
    Int.emod_eq_of_lt nonneg (Int.lt_of_le_of_lt le (by decide))
  rw [ofWord?, if_pos ⟨nonneg, le⟩, ofValue, same]

theorem toWord_of_ofWord? {word : Int} {quad : Quad} (stored : ofWord? word = some quad) :
    quad.toWord = word := by
  by_cases fits : Word.Fits word
  · rw [ofWord?, if_pos fits, Option.some.injEq] at stored
    subst stored
    simp only [Word.Fits, wordMask, wordRange] at fits
    simp only [toWord, toNat_ofNat, wordRange]
    omega
  · rw [ofWord?, if_neg fits] at stored
    exact absurd stored (by simp)

theorem toValue_ofValue {value : Int} (fits : FitsValue value) :
    (ofValue value).toValue = value := by
  simp only [FitsValue] at fits
  simp only [toValue, ofValue, toNat_ofNat, wrap, Int.bmod_def, wordRange]
  omega

theorem toWord_injective {left right : Quad} (same : left.toWord = right.toWord) :
    left = right := by
  have stored := ofWord?_toWord left
  rw [same, ofWord?_toWord] at stored
  exact (Option.some.inj stored).symm

theorem toValue_injective {left right : Quad} (same : left.toValue = right.toValue) :
    left = right := by
  have stored := ofValue?_toValue left
  rw [same, ofValue?_toValue] at stored
  exact (Option.some.inj stored).symm

end Quad

end ReversePolish
