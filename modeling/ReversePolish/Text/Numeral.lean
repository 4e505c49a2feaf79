/-! # Written numbers

Numbers are written in upper case, with zeros before the digits to fill a least
width; a minus sign takes one of its places. A number in decimal has a largest
number of digits (`Text.digitLimit`), and a text with a longer one in it is not
written at all; there is no limit on a number in hexadecimal.
-/

namespace ReversePolish

namespace Text

/-- The digits of a number to a base, in upper case. -/
def digits (base number : Nat) : List Char :=
  (Nat.toDigits base number).map Char.toUpper

/-- A number to a base, filled with zeros to at least `width` places, of which a
minus sign takes one. -/
def zeroPadded (base width : Nat) (number : Int) : List Char :=
  let body := digits base number.natAbs
  if number < 0 then '-' :: body.leftpad (width - 1) '0' else body.leftpad width '0'

/-- The most digits that a number in decimal is written with. -/
def digitLimit : Nat := 4300

/-- A number that is written in decimal; its sign is not counted. -/
def Writable (number : Int) : Prop := (digits 10 number.natAbs).length ≤ digitLimit

instance (number : Int) : Decidable (Writable number) :=
  inferInstanceAs (Decidable (_ ≤ _))

/-- The least number with too many digits. -/
def leastUnwritable : Nat := Nat.pow 10 digitLimit

theorem writable_iff {number : Int} : Writable number ↔ number.natAbs < leastUnwritable := by
  rw [Writable, digits, List.length_map]
  unfold leastUnwritable
  have positive : 0 < digitLimit := by decide
  -- The limit is left open, so that nothing tries to compute the power.
  generalize digitLimit = limit at *
  exact Nat.length_toDigits_le_iff (by decide) positive

/-- All numbers of ten digits are written. -/
theorem writable_of_lt {number : Int} (small : number.natAbs < 10000000000) :
    Writable number := by
  rw [Writable, digits, List.length_map]
  have short : (Nat.toDigits 10 number.natAbs).length ≤ 10 :=
    (Nat.length_toDigits_le_iff (by decide) (by decide)).mpr small
  exact Nat.le_trans short (by decide)

theorem not_writable_leastUnwritable : ¬ Writable leastUnwritable := by
  rw [writable_iff, Int.natAbs_natCast]
  exact Nat.lt_irrefl _

/-- The text that tells of a number with too many digits. -/
def tooManyDigits : String :=
  s!"Exceeds the limit ({digitLimit} digits) for integer string conversion; " ++
    "use sys.set_int_max_str_digits() to increase the limit"

/-- A number in decimal of at least `width` places, unless it has too many digits. -/
def decimal? (width : Nat) (number : Int) : Option String :=
  if Writable number then some (String.ofList (zeroPadded 10 width number)) else none

/-- A number in hexadecimal, of at least eight places. -/
def hexWord (number : Int) : String := String.ofList (zeroPadded 16 8 number)

/-- A byte in hexadecimal, of two places. -/
def hexByte (byte : UInt8) : String := String.ofList (zeroPadded 16 2 byte.toNat)

/-- A text followed by spaces to at least `width` places. -/
def spacePadded (width : Nat) (text : String) : String :=
  text ++ String.ofList (List.replicate (width - text.length) ' ')

end Text

end ReversePolish
