import Mathlib.Data.List.TakeWhile
import ReversePolish.Listing.Grammar

/-! # Numerals are read as they denote

The longest numeral at the front of a text denotes a number (`Numeral.denotes_atFront`),
and a numeral that no character of a word follows is the longest
(`Numeral.atFront_of_denotes`). Its number is read digit by digit, up to the first number
that no word can hold (`Numeral.read_of_denotes`).
-/

namespace ReversePolish

namespace Numeral

/-- The digits of either case. -/
def hexDigits : List Char := "0123456789abcdefABCDEF".toList

variable {char : Char} {numeral digits after : List Char} {base value : Nat}

theorem mem_hexDigits (hexadecimal : isHexadecimal char) : char ∈ hexDigits := by
  have ascii : char.toNat < 128 := by
    simp only [isHexadecimal, Char.isDigit, Bool.or_eq_true, Bool.and_eq_true, decide_eq_true_eq,
      ge_iff_le, Char.le_def, UInt32.le_iff_toNat_le] at hexadecimal
    rcases hexadecimal with (⟨-, le⟩ | ⟨-, le⟩) | ⟨-, le⟩ <;>
      exact Nat.lt_of_le_of_lt le (by decide)
  have table : ∀ code < 128, isHexadecimal (Char.ofNat code) → Char.ofNat code ∈ hexDigits := by
    decide
  simpa using table char.toNat ascii (by simpa using hexadecimal)

theorem isHexadecimal_of_isDecimal (decimal : isDecimal char) : isHexadecimal char := by
  rw [isDecimal] at decimal
  simp [isHexadecimal, decimal]

theorem hexDigit?_of_isHexadecimal (hexadecimal : isHexadecimal char) :
    Text.hexDigit? char = some (digitValue char) := by
  have table : hexDigits.all fun char => Text.hexDigit? char = some (digitValue char) := by decide
  simpa using List.all_eq_true.mp table char (mem_hexDigits hexadecimal)

theorem isWordChar_of_isHexadecimal (hexadecimal : isHexadecimal char) : isWordChar char := by
  have table : hexDigits.all ReversePolish.isWordChar := by decide
  exact List.all_eq_true.mp table char (mem_hexDigits hexadecimal)

theorem not_isDecimal_of_marked (marked : char = 'x' ∨ char = 'X') : ¬ isDecimal char := by
  rcases marked with rfl | rfl <;> decide

theorem isWordChar_of_marked (marked : char = 'x' ∨ char = 'X') : isWordChar char := by
  rcases marked with rfl | rfl <;> decide

theorem Denotes.ne_nil (denotes : Denotes numeral value) : numeral ≠ [] := by
  cases denotes with
  | decimal nonempty _ => exact nonempty
  | hexadecimal _ _ _ => exact List.cons_ne_nil _ _

theorem Denotes.isWordChar (denotes : Denotes numeral value) :
    ∀ char ∈ numeral, isWordChar char := by
  intro char member
  cases denotes with
  | decimal _ decimal =>
      exact isWordChar_of_isHexadecimal (isHexadecimal_of_isDecimal (decimal char member))
  | @hexadecimal mark digits marked _ hexadecimal =>
      rcases List.mem_cons.mp member with rfl | member
      · decide
      · rcases List.mem_cons.mp member with rfl | member
        · exact isWordChar_of_marked marked
        · exact isWordChar_of_isHexadecimal (hexadecimal char member)

theorem takeWhile_of_ends {p : Char → Bool} (inside : ∀ char ∈ digits, p char)
    (ends : ∀ char ∈ after.head?, ¬ p char) : (digits ++ after).takeWhile p = digits := by
  have stop : after.takeWhile p = [] := by
    cases after with
    | nil => rfl
    | cons char rest => exact List.takeWhile_cons_of_neg (ends char rfl)
  rw [List.takeWhile_append_of_pos inside, stop, List.append_nil]

/-- A text that no mark of base sixteen is in has a decimal numeral at its front. -/
theorem atFront_of_unmarked {text : List Char}
    (unmarked : ¬ ∃ mark rest, text = '0' :: mark :: rest ∧ (mark = 'x' ∨ mark = 'X')) :
    atFront text = text.takeWhile isDecimal := by
  unfold atFront
  split
  · next mark rest => rw [if_neg fun marked => unmarked ⟨mark, rest, rfl, marked.1⟩]
  · rfl

/-- What stands at the front of a text denotes a number, if it is there. -/
theorem denotes_atFront {text : List Char} (found : atFront text ≠ []) :
    ∃ value, Denotes (atFront text) value := by
  have decimal (some : text.takeWhile isDecimal ≠ []) :
      ∃ value, Denotes (text.takeWhile isDecimal) value :=
    ⟨_, .decimal some (List.all_eq_true.mp List.all_takeWhile)⟩
  by_cases marked : ∃ mark rest, text = '0' :: mark :: rest ∧ (mark = 'x' ∨ mark = 'X')
  · obtain ⟨mark, rest, rfl, marked⟩ := marked
    rw [atFront] at found ⊢
    split at found
    · next digits =>
        rw [if_pos digits]
        exact ⟨_, .hexadecimal marked digits.2 (List.all_eq_true.mp List.all_takeWhile)⟩
    · next bare =>
        rw [if_neg bare]
        exact decimal found
  · rw [atFront_of_unmarked marked] at found ⊢
    exact decimal found

/-- A numeral that no character of a word follows is the longest at the front of its
text. -/
theorem atFront_of_denotes (denotes : Denotes numeral value) (apart : Apart after.head?) :
    atFront (numeral ++ after) = numeral := by
  have ends (char : Char) (head : char ∈ after.head?) : ¬ isHexadecimal char :=
    fun hexadecimal => apart char head (isWordChar_of_isHexadecimal hexadecimal)
  cases denotes with
  | decimal nonempty decimal =>
      rw [atFront_of_unmarked]
      · refine takeWhile_of_ends decimal fun char head digit => ?_
        exact ends char head (isHexadecimal_of_isDecimal digit)
      · rintro ⟨mark, rest, same, marked⟩
        -- The mark is the second digit, or the character after a single one.
        rcases numeral with _ | ⟨zero, _ | ⟨second, rest⟩⟩
        · exact nonempty rfl
        · obtain ⟨-, rfl⟩ := List.cons.inj same
          exact apart mark rfl (isWordChar_of_marked marked)
        · obtain ⟨rfl, -⟩ := List.cons.inj (List.cons.inj same).2
          exact not_isDecimal_of_marked marked (decimal second (by simp))
  | @hexadecimal mark digits marked nonempty hexadecimal =>
      have whole := takeWhile_of_ends hexadecimal ends
      rw [List.cons_append, List.cons_append, atFront, if_pos ⟨marked, by rwa [whole]⟩, whole]

theorem Denotes.exists_cons {numeral : List Char} (denotes : Denotes numeral value) :
    ∃ digit others, numeral = digit :: others ∧ isDecimal digit := by
  cases denotes with
  | decimal nonempty decimal =>
      obtain ⟨digit, others, rfl⟩ := List.exists_cons_of_ne_nil nonempty
      exact ⟨digit, others, rfl, decimal digit List.mem_cons_self⟩
  | @hexadecimal mark digits => exact ⟨'0', mark :: digits, rfl, by decide⟩

/-- Some numeral stands at the front of a text if a digit does. -/
theorem atFront_ne_nil_of_isDecimal (decimal : isDecimal char) (rest : List Char) :
    atFront (char :: rest) ≠ [] := by
  have taken : (char :: rest).takeWhile isDecimal ≠ [] := by
    rw [List.takeWhile_cons_of_pos decimal]
    exact List.cons_ne_nil _ _
  unfold atFront
  split
  · split
    · exact List.cons_ne_nil _ _
    · next same _ => exact same ▸ taken
  · exact taken

/-- The value of digits read on from another value. -/
def valueFrom (base value : Nat) (digits : List Char) : Nat :=
  digits.foldl (fun value digit => value * base + digitValue digit) value

theorem le_valueFrom (base_pos : 0 < base) (value : Nat) (digits : List Char) :
    value ≤ valueFrom base value digits := by
  induction digits generalizing value with
  | nil => exact Nat.le_refl _
  | cons digit rest ih =>
      have grown : value ≤ value * base := Nat.le_mul_of_pos_right value base_pos
      exact Nat.le_trans (Nat.le_add_right_of_le grown) (ih _)

/-- Digits are read to the number they spell, or to the first that no word can hold. -/
theorem accumulate_eq (base_pos : 0 < base) (small : value ≤ wordMask)
    (hexadecimal : ∀ digit ∈ digits, isHexadecimal digit) :
    accumulate base value digits = .ok (min (valueFrom base value digits) (wordMask + 1)) := by
  induction digits generalizing value with
  | nil => rw [accumulate, valueFrom, List.foldl_nil, min_eq_left (by omega)]
  | cons digit rest ih =>
      obtain ⟨first, others⟩ := List.forall_mem_cons.mp hexadecimal
      rw [accumulate, hexDigit?_of_isHexadecimal first]
      simp only
      split
      · next large =>
          have passed : wordMask + 1 ≤ valueFrom base value (digit :: rest) :=
            Nat.le_trans large (le_valueFrom base_pos _ rest)
          rw [min_eq_right passed]
      · next still =>
          rw [ih (Nat.le_of_not_lt still) others]
          rfl

/-- **A numeral is read as it denotes**, up to the first number that no word can hold. -/
theorem read_of_denotes (denotes : Denotes numeral value) :
    read numeral = .ok (min value (wordMask + 1)) := by
  cases denotes with
  | decimal nonempty decimal =>
      have unmarked : read numeral = accumulate 10 0 numeral := by
        unfold read
        split
        · next mark rest =>
            rw [if_neg fun marked => not_isDecimal_of_marked marked (decimal mark (by simp))]
        · rfl
      rw [unmarked]
      exact accumulate_eq (by decide) (Nat.zero_le _)
        fun digit member => isHexadecimal_of_isDecimal (decimal digit member)
  | @hexadecimal mark digits marked nonempty hexadecimal =>
      rw [read, if_pos marked]
      exact accumulate_eq (by decide) (Nat.zero_le _) hexadecimal

end Numeral

end ReversePolish
