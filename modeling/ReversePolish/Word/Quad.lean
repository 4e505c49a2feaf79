import ReversePolish.Word.Basic

/-! # Four bytes

The bytes of a word, most significant first, and the two numbers they can be
read as: an unsigned word (`Quad.toWord`) and a signed value (`Quad.toValue`).
-/

namespace ReversePolish

/-- A sequence of bytes, such as the content of a file. -/
abbrev Bytes := List UInt8

/-- The four bytes of a word, most significant first. -/
structure Quad where
  first : UInt8
  second : UInt8
  third : UInt8
  fourth : UInt8
  deriving Repr, DecidableEq, Inhabited

namespace Quad

/-- Four zero bytes. -/
def zero : Quad := ⟨0, 0, 0, 0⟩

/-- The bytes in order. -/
def toBytes (quad : Quad) : Bytes := [quad.first, quad.second, quad.third, quad.fourth]

/-- The number the bytes spell, most significant byte first. -/
def toNat (quad : Quad) : Nat :=
  ((quad.first.toNat * 256 + quad.second.toNat) * 256 + quad.third.toNat) * 256
    + quad.fourth.toNat

/-- The bytes that spell the lowest 32 bits of a number. -/
def ofNat (number : Nat) : Quad where
  first := (number / 0x1000000).toUInt8
  second := (number / 0x10000).toUInt8
  third := (number / 0x100).toUInt8
  fourth := number.toUInt8

theorem toNat_lt (quad : Quad) : quad.toNat < wordRange := by
  have := quad.first.toNat_lt
  have := quad.second.toNat_lt
  have := quad.third.toNat_lt
  have := quad.fourth.toNat_lt
  simp only [toNat, wordRange]
  omega

@[simp] theorem toNat_ofNat (number : Nat) : (ofNat number).toNat = number % wordRange := by
  simp only [toNat, ofNat, Nat.toUInt8, UInt8.toNat_ofNat', wordRange]
  omega

@[simp] theorem ofNat_toNat (quad : Quad) : ofNat quad.toNat = quad := by
  obtain ⟨first, second, third, fourth⟩ := quad
  have := first.toNat_lt
  have := second.toNat_lt
  have := third.toNat_lt
  have := fourth.toNat_lt
  simp only [ofNat, toNat, Nat.toUInt8, mk.injEq]
  refine ⟨?_, ?_, ?_, ?_⟩ <;>
    (apply UInt8.toNat_inj.mp; simp only [UInt8.toNat_ofNat']; omega)

/-- The unsigned reading of the bytes. -/
def toWord (quad : Quad) : Int := quad.toNat

/-- The signed reading of the bytes, in two's complement. -/
def toValue (quad : Quad) : Int := wrap quad.toNat

/-- The bytes of an unsigned word, if it fits. -/
def ofWord? (word : Int) : Option Quad :=
  if Word.Fits word then some (ofNat word.toNat) else none

/-- The bytes of a signed value, if it fits. -/
def ofValue? (value : Int) : Option Quad :=
  if FitsValue value then some (ofNat (value % wordRange).toNat) else none

theorem fits_toWord (quad : Quad) : Word.Fits quad.toWord := by
  have bounded := quad.toNat_lt
  simp only [Word.Fits, toWord, wordMask, wordRange] at *
  omega

theorem fitsValue_toValue (quad : Quad) : FitsValue quad.toValue := fitsValue_wrap _

@[simp] theorem ofWord?_toWord (quad : Quad) : ofWord? quad.toWord = some quad := by
  rw [ofWord?, if_pos quad.fits_toWord, toWord, Int.toNat_natCast, ofNat_toNat]

@[simp] theorem ofValue?_toValue (quad : Quad) : ofValue? quad.toValue = some quad := by
  rw [ofValue?, if_pos quad.fitsValue_toValue]
  have bounded := quad.toNat_lt
  have same : (quad.toValue % wordRange).toNat = quad.toNat := by
    simp only [toValue, wrap, Int.bmod_def, wordRange] at *
    omega
  rw [same, ofNat_toNat]

end Quad

end ReversePolish
