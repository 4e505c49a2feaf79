import ReversePolish.Proofs.Instruction.Codec
import ReversePolish.Proofs.Word.Bits

/-! # The instructions among all integers

Reading a word and writing an instruction undo each other (`decode_eq_ok_iff`). The words
that say nothing are known by their bits (`exists_decode_eq_error_iff`), so that every integer
is either one of these or the word of exactly one instruction (`decode_partial_bijection`).
An integer that says nothing is told to be illegal unless it has too many digits to be told of
(`decode_leastUnwritable`).
-/

namespace ReversePolish

variable {word code : Int} {instruction : Instruction}

/-- A word that says nothing: one that four bytes cannot hold, one with both tag bits set, or
one with only the lower of them set whose payload is the number of no opcode. -/
def Word.SaysNothing (word : Int) : Prop :=
  word < 0 ∨ wordRange ≤ word ∨ (word.testBit 31 ∧ word.testBit 30) ∨
    (¬ word.testBit 31 ∧ word.testBit 30 ∧
      ∀ opcode : Opcode, Word.payload word ≠ opcode.code)

theorem Word.fits_iff : Word.Fits word ↔ ¬ word < 0 ∧ ¬ wordRange ≤ word := by
  simp only [Word.Fits, wordMask, wordRange]
  omega

theorem Opcode.ofCode?_eq_none_iff :
    ofCode? code = none ↔ ∀ opcode : Opcode, code ≠ opcode.code := by
  simp only [Option.eq_none_iff_forall_ne_some, Ne, ofCode?_eq_some_iff]

/-- A word says what it is the word of. -/
theorem decode_eq_ok_iff :
    decode word = .ok instruction ↔ instruction.toWord = word ∧ instruction.Encodable := by
  refine ⟨toWord_of_decode, ?_⟩
  rintro ⟨rfl, encodable⟩
  exact decode_toWord encodable

theorem encodeLiteral?_eq_some_iff_decode {value : Int} :
    encodeLiteral? value = some word ↔ decode word = .ok (.push value) := by
  rw [encodeLiteral?_eq_some_iff, decode_eq_ok_iff, and_comm]

theorem encodeCode?_eq_some_iff_decode :
    encodeCode? code = some word ↔
      ∃ opcode : Opcode, opcode.code = code ∧ decode word = .ok (.primitive opcode) := by
  rw [encodeCode?, Option.map_eq_some_iff]
  refine exists_congr fun opcode => ?_
  rw [Opcode.ofCode?_eq_some_iff, decode_eq_ok_iff, eq_comm,
    and_iff_left (Instruction.encodable_primitive opcode)]

/-- The words that are not read are those that say nothing. -/
theorem exists_decode_eq_error_iff :
    (∃ error, decode word = .error error) ↔ Word.SaysNothing word := by
  rw [Word.SaysNothing, Word.testBit_upper_iff, Word.testBit_lower_iff,
    ← Opcode.ofCode?_eq_none_iff]
  by_cases fits : Word.Fits word
  · obtain ⟨nonneg, lt⟩ := Word.fits_iff.mp fits
    rw [decode, if_pos fits]
    simp only [nonneg, lt, false_or]
    cases Word.tag word with
    | literal | negative | invalid => simp
    | primitive => cases Opcode.ofCode? (Word.payload word) <;> simp
  · rw [decode, if_neg fits, ← apply_ite Except.error]
    refine iff_of_true ⟨_, rfl⟩ ?_
    rw [Word.fits_iff, not_and_or, not_not, not_not] at fits
    exact fits.imp_right .inl

theorem exists_decode_eq_illegal_iff :
    (∃ reason, decode word = .error (.illegal reason)) ↔
      Word.SaysNothing word ∧ Text.Writable word := by
  rw [← exists_decode_eq_error_iff]
  constructor
  · rintro ⟨reason, refused⟩
    refine ⟨⟨_, refused⟩, ?_⟩
    by_contra long
    cases refused.symm.trans (decode_eq_tooManyDigits_iff.mpr long)
  · rintro ⟨⟨error, refused⟩, short⟩
    cases error with
    | illegal reason => exact ⟨reason, refused⟩
    | tooManyDigits => exact absurd short (decode_eq_tooManyDigits_iff.mp refused)

/-- **Words and instructions are in bijection**, but for the words that say nothing. These are
told to be illegal, if their digits are not too many to be told. Any other integer is the word
of the instruction that it is read as, literals and opcodes are read back from the words they
are given, and a word has the tag and the lowest thirty bits that it is made of, however large
its payload. -/
theorem decode_partial_bijection (word : Int) :
    ((∃ reason, decode word = .error (.illegal reason)) ↔
      Word.SaysNothing word ∧ Text.Writable word) ∧
    (decode word = .error .tooManyDigits ↔ ¬ Text.Writable word) ∧
    (¬ Word.SaysNothing word → ∃ instruction, decode word = .ok instruction ∧
      Word.make instruction.tag.bits instruction.payload = word) ∧
    (∀ value, encodeLiteral? value = some word ↔ decode word = .ok (.push value)) ∧
    (∀ code, encodeCode? code = some word ↔
      ∃ opcode : Opcode, opcode.code = code ∧ decode word = .ok (.primitive opcode)) ∧
    ∀ (tag : Tag) (payload : Int),
      Word.make tag.bits payload =
        ((tag.bits : Int) <<< tagShift).lor (payload.land payloadMask) ∧
      Word.Fits (Word.make tag.bits payload) ∧
      Word.make tag.bits payload >>> tagShift = tag.bits ∧
      (Word.make tag.bits payload).land payloadMask = payload % literalLimit := by
  refine ⟨exists_decode_eq_illegal_iff, decode_eq_tooManyDigits_iff, ?_,
    fun _ => encodeLiteral?_eq_some_iff_decode, fun _ => encodeCode?_eq_some_iff_decode,
    fun tag payload => ⟨?_, ?_, ?_, ?_⟩⟩
  · intro speaks
    cases decoded : decode word with
    | ok instruction => exact ⟨instruction, rfl, (decode_eq_ok_iff.mp decoded).1⟩
    | error error => exact absurd (exists_decode_eq_error_iff.mp ⟨error, decoded⟩) speaks
  · exact Word.make_eq_lor tag.bits payload
  · exact Word.fits_make tag payload
  · have same := Word.bits_tag (Word.fits_make tag payload)
    rw [Word.shiftRight_eq_div, ← same, Word.tag_make]
  · rw [← Word.payload_eq_land, Word.payload_make]

/-- Not every word that says nothing is told to be illegal: the least one with too many digits
is not. -/
theorem decode_leastUnwritable :
    Word.SaysNothing Text.leastUnwritable ∧
      ¬ ∃ reason, decode Text.leastUnwritable = .error (.illegal reason) := by
  have refused : decode Text.leastUnwritable = .error .tooManyDigits :=
    decode_eq_tooManyDigits_iff.mpr Text.not_writable_leastUnwritable
  refine ⟨exists_decode_eq_error_iff.mp ⟨_, refused⟩, ?_⟩
  rintro ⟨reason, illegal⟩
  cases refused.symm.trans illegal

/-- A payload that is negative is cut to its lowest bits. -/
example : Word.make 2 (-1) = 0xbfffffff := by decide

end ReversePolish
