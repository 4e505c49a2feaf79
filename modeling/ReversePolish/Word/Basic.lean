import ReversePolish.Word.Layout

/-! # Words and values

The tools compute words as integers of any size; `Word.Fits` says which of them
four bytes can hold. A stack value is the signed reading of a word, and
arithmetic is brought back to it by `wrap`. Division truncates toward zero.
-/

namespace ReversePolish

namespace Word

/-- A number that four bytes hold as an unsigned word. -/
def Fits (word : Int) : Prop := 0 ≤ word ∧ word ≤ wordMask

instance (word : Int) : Decidable (Fits word) :=
  inferInstanceAs (Decidable (_ ∧ _))

/-- The word with the given tag bits over the lowest thirty bits of the payload. -/
def make (tag payload : Int) : Int :=
  tag * literalLimit + payload % literalLimit

/-- The tag of a word. -/
def tag (word : Int) : Tag := Tag.ofBits (word / literalLimit)

/-- The payload of a word. -/
def payload (word : Int) : Int := word % literalLimit

theorem payload_nonneg (word : Int) : 0 ≤ payload word :=
  Int.emod_nonneg _ (by decide)

theorem payload_lt (word : Int) : payload word < literalLimit :=
  Int.emod_lt_of_pos _ (by decide)

theorem make_div_payload (word : Int) : make (word / literalLimit) (payload word) = word := by
  simp only [make, payload, literalLimit]
  omega

theorem fits_make (tag : Tag) (payload : Int) : Fits (make tag.bits payload) := by
  cases tag <;> simp only [Fits, make, Tag.bits, literalLimit, wordMask, wordRange] <;> omega

theorem tag_make (tag : Tag) (payload : Int) : Word.tag (make tag.bits payload) = tag := by
  cases tag <;> simp only [Word.tag, make, Tag.bits, literalLimit, Tag.ofBits] <;> grind

theorem payload_make (tag payload : Int) :
    Word.payload (make tag payload) = payload % literalLimit := by
  simp only [Word.payload, make, literalLimit]
  omega

end Word

/-- A number that four bytes hold as a signed value. -/
def FitsValue (value : Int) : Prop := -0x80000000 ≤ value ∧ value < 0x80000000

instance (value : Int) : Decidable (FitsValue value) :=
  inferInstanceAs (Decidable (_ ∧ _))

/-- The signed value congruent to a number modulo `wordRange`. -/
def wrap (value : Int) : Int := Int.bmod value wordRange

theorem fitsValue_wrap (value : Int) : FitsValue (wrap value) := by
  simp only [FitsValue, wrap, Int.bmod_def, wordRange]
  omega

theorem wrap_of_fitsValue {value : Int} (fits : FitsValue value) : wrap value = value := by
  simp only [FitsValue] at fits
  simp only [wrap, Int.bmod_def, wordRange]
  omega

/-- The quotient truncated toward zero; there is none by zero. -/
def truncatedQuotient (dividend divisor : Int) : Option Int :=
  if divisor = 0 then none else some (dividend.tdiv divisor)

end ReversePolish
