import ReversePolish.Instruction.Basic

/-! # Words and instructions

An instruction whose payload fits below the tag is read back from its word
(`decode_toWord`), and a word that says something is the word of what it says
(`toWord_of_decode`). So different instructions have different words. A word of 32 bits
is never too long to be told of (`Word.Fits.writable`).
-/

namespace ReversePolish

/-- The tag bits of a word are what is left above its payload. -/
theorem Word.bits_tag {word : Int} (fits : Word.Fits word) :
    ((Word.tag word).bits : Int) = word / literalLimit := by
  simp only [Word.Fits, wordMask, wordRange] at fits
  have cases : word / literalLimit = 0 ∨ word / literalLimit = 1 ∨ word / literalLimit = 2 ∨
      word / literalLimit = 3 := by
    simp only [literalLimit]
    omega
  rcases cases with bits | bits | bits | bits <;> rw [Word.tag, bits] <;> rfl

namespace Instruction

/-- The payload of an instruction fits below the tag of its word. -/
def Encodable (instruction : Instruction) : Prop :=
  0 ≤ instruction.payload ∧ instruction.payload < literalLimit

theorem encodable_primitive (opcode : Opcode) : (primitive opcode).Encodable := by
  rcases opcode with _ | (_ | _ | _ | _) <;> simp [Encodable, payload, Opcode.code, literalLimit]

end Instruction

open Instruction

variable {word : Int} {instruction other : Instruction}

/-- A literal has a word if it fits below the tag. -/
theorem encodeLiteral?_eq_some_iff {value word : Int} :
    encodeLiteral? value = some word ↔ (push value).Encodable ∧ (push value).toWord = word := by
  by_cases inRange : 0 ≤ value ∧ value < literalLimit
  · simp [encodeLiteral?, Instruction.Encodable, Instruction.payload, inRange]
  · simp [encodeLiteral?, Instruction.Encodable, Instruction.payload, inRange]

/-- The word of a literal is the literal. -/
theorem toWord_push {value : Int} (encodable : (push value).Encodable) :
    (push value).toWord = value := by
  rw [toWord, Word.make, Int.emod_eq_of_lt encodable.1 encodable.2, Instruction.tag, Tag.bits,
    Int.natCast_zero, Int.zero_mul, Int.zero_add, Instruction.payload]

theorem toWord_primitive (opcode : Opcode) :
    (primitive opcode).toWord = (literalLimit + opcode.code : Nat) := by
  rcases opcode with _ | (_ | _ | _ | _) <;> rfl

theorem decode_toWord (encodable : instruction.Encodable) :
    decode instruction.toWord = .ok instruction := by
  have fits : Word.Fits instruction.toWord := Word.fits_make _ _
  have tag : Word.tag instruction.toWord = instruction.tag := Word.tag_make _ _
  have payload : Word.payload instruction.toWord = instruction.payload := by
    rw [toWord, Word.payload_make, Int.emod_eq_of_lt encodable.1 encodable.2]
  rw [decode, if_pos fits]
  simp only [tag, payload]
  cases instruction with
  | push value => rfl
  | primitive opcode =>
      simp only [Instruction.tag, Instruction.payload, Opcode.ofCode?_code]
  | reserved value => rfl

/-- A word that says something is the word of what it says. -/
theorem toWord_of_decode (decoded : decode word = .ok instruction) :
    instruction.toWord = word ∧ instruction.Encodable := by
  by_cases fits : Word.Fits word
  · have bits := Word.bits_tag fits
    have nonneg := Word.payload_nonneg word
    have lt := Word.payload_lt word
    have whole := Word.make_div_payload word
    rw [decode, if_pos fits] at decoded
    simp only at decoded
    cases tag : Word.tag word with
    | literal =>
        rw [tag] at decoded bits
        obtain rfl := Except.ok.inj decoded
        exact ⟨by rw [toWord, Instruction.tag, bits, Instruction.payload, whole], nonneg, lt⟩
    | primitive =>
        rw [tag] at decoded bits
        simp only at decoded
        cases found : Opcode.ofCode? (Word.payload word) with
        | none => exact absurd (found ▸ decoded) (by simp)
        | some opcode =>
            rw [found] at decoded
            obtain rfl := Except.ok.inj decoded
            have code := Opcode.eq_code_of_ofCode? found
            refine ⟨?_, encodable_primitive opcode⟩
            rw [toWord, Instruction.tag, bits, Instruction.payload, ← code, whole]
    | negative =>
        rw [tag] at decoded bits
        obtain rfl := Except.ok.inj decoded
        exact ⟨by rw [toWord, Instruction.tag, bits, Instruction.payload, whole], nonneg, lt⟩
    | invalid =>
        rw [tag] at decoded
        exact absurd decoded (by simp)
  · rw [decode, if_neg fits] at decoded
    split at decoded <;> cases decoded

/-- Instructions whose words agree are the same. -/
theorem eq_of_toWord_eq (encodable : instruction.Encodable) (otherEncodable : other.Encodable)
    (same : instruction.toWord = other.toWord) : instruction = other := by
  have decoded := decode_toWord encodable
  rw [same, decode_toWord otherEncodable] at decoded
  exact (Except.ok.inj decoded).symm

/-- A word of 32 bits has few digits. -/
theorem Word.Fits.writable (fits : Word.Fits word) : Text.Writable word := by
  simp only [Word.Fits, wordMask, wordRange] at fits
  exact Text.writable_of_lt (by omega)

/-- What a word is refused for is the number of its digits exactly if they are too many. -/
theorem decode_eq_tooManyDigits_iff :
    decode word = .error .tooManyDigits ↔ ¬ Text.Writable word := by
  by_cases fits : Word.Fits word
  · refine iff_of_false (fun refused => ?_) (not_not_intro fits.writable)
    rw [decode, if_pos fits] at refused
    cases tag : Word.tag word <;> simp only [tag] at refused
    · cases refused
    · split at refused <;> cases refused
    · cases refused
    · cases refused
  · rw [decode, if_neg fits]
    split
    · next short => simp [short]
    · next long => simp [long]

/-- A word of 32 bits that is not read has a cause. -/
theorem exists_illegal_of_fits {error : DecodeError} (fits : Word.Fits word)
    (refused : decode word = .error error) : ∃ reason, error = .illegal reason := by
  cases error with
  | illegal reason => exact ⟨reason, rfl⟩
  | tooManyDigits => exact absurd fits.writable (decode_eq_tooManyDigits_iff.mp refused)

theorem disassembleWord?_of_decode (decoded : decode word = .ok instruction) :
    disassembleWord? word = some instruction.render := by
  rw [disassembleWord?, decoded]

theorem disassembleWord?_of_illegal {reason : IllegalWord}
    (illegal : decode word = .error (.illegal reason)) :
    disassembleWord? word = some (renderWord word) := by
  rw [disassembleWord?, illegal]

/-- A word that is not too long to be told of is shown. -/
theorem exists_disassembleWord? (writable : Text.Writable word) :
    ∃ shown, disassembleWord? word = some shown := by
  cases decoded : decode word with
  | ok instruction => exact ⟨_, disassembleWord?_of_decode decoded⟩
  | error error =>
      cases error with
      | illegal reason => exact ⟨_, disassembleWord?_of_illegal decoded⟩
      | tooManyDigits => exact absurd writable (decode_eq_tooManyDigits_iff.mp decoded)

/-- A word that no program has set is a literal. -/
theorem decode_zero : decode 0 = .ok (.push 0) := rfl

/-- What a word pushes is a signed value of four bytes. -/
theorem fitsValue_of_decode_push {value : Int} (decoded : decode word = .ok (.push value)) :
    FitsValue value := by
  obtain ⟨-, nonneg, lt⟩ := toWord_of_decode decoded
  simp only [Instruction.payload, literalLimit] at nonneg lt
  simp only [FitsValue]
  omega

end ReversePolish
