import ReversePolish.Proofs.Source.Boundary
import ReversePolish.Proofs.Source.Leftmost

/-! # Runs of digits

Outside comments, every longest run of digits is a number, whatever stands around it
(`tokenize_of_digitRun`), and there are no other numbers (`exists_digitRun`). A number has
the value that its digits spell if that is in range for a literal, and is out of range
otherwise, so that it has a word exactly if its digits spell a literal (`tokenize_numbers`).
-/

namespace ReversePolish

variable {before digits later text : List Char}

/-- A longest run of digits outside comments. -/
structure DigitRun (before digits later : List Char) : Prop where
  outside : EndsOutsideComment before
  starts : ∀ char ∈ before.getLast?, ¬ char.isDigit
  nonempty : digits ≠ []
  inside : ∀ char ∈ digits, char.isDigit
  ends : ∀ char ∈ later.head?, ¬ char.isDigit

/-- The number that a run of digits is behind a text. -/
def numberBehind (before digits : List Char) : Token :=
  .number (literalValue digits) (some (.after before))

/-! ## Numbers and runs -/

/-- No piece of a text is cut where a run of digits starts. -/
theorem DigitRun.boundary (run : DigitRun before digits later) :
    Boundary before (digits ++ later) where
  outside := run.outside
  digits last ends digit := absurd digit (run.starts last ends)
  slashes := by
    obtain ⟨first, others, rfl⟩ := List.exists_cons_of_ne_nil run.nonempty
    rintro ⟨-, slash⟩
    obtain rfl : first = '/' := Option.some.inj slash
    exact absurd (run.inside '/' List.mem_cons_self) (by decide)

/-- A run of digits is one number, after the tokens before it and before those behind it. -/
theorem tokenize_of_digitRun (run : DigitRun before digits later) :
    tokenize (before ++ digits ++ later) =
      (tokenize before).append
        ((readTokens (.after (before ++ digits)) later).cons (numberBehind before digits)) := by
  rw [tokenize_eq, tokenize_eq, List.append_assoc, run.boundary.readTokens_append,
    readTokens_of_digits run.nonempty run.inside run.ends, Position.after_append]
  rfl

theorem exists_digitRun {value : Int} {position : Option Position}
    (member : .number value position ∈ (tokenize text).tokens) :
    ∃ before digits later, text = before ++ digits ++ later ∧ DigitRun before digits later ∧
      .number value position = numberBehind before digits := by
  cases (tokenize_atBoundaries text).tokens _ member with
  | @number before digits later split boundary nonempty inside ends =>
      have starts : ∀ char ∈ before.getLast?, ¬ char.isDigit := by
        obtain ⟨first, others, rfl⟩ := List.exists_cons_of_ne_nil nonempty
        intro char last digit
        exact boundary.digits char last digit first rfl (inside first List.mem_cons_self)
      rw [← List.append_assoc] at split
      exact ⟨before, digits, later, split, ⟨boundary.outside, starts, nonempty, inside, ends⟩, rfl⟩

/-! ## The word of a number -/

theorem exists_encode_numberBehind_iff :
    (∃ word, (numberBehind before digits).encode = .ok word) ↔
      decimalValue digits < literalLimit := by
  constructor
  · rintro ⟨word, encoded⟩
    obtain ⟨entry, stands, encodable, -⟩ := Token.encode_eq_ok_iff.mp encoded
    obtain rfl := Option.some.inj stands
    exact Piece.encodable_number_iff.mp encodable
  · intro small
    exact ⟨_, Token.encode_eq_ok_iff.mpr ⟨_, rfl, Piece.encodable_number_iff.mpr small, rfl⟩⟩

theorem decode_of_encode_numberBehind {word : Int}
    (encoded : (numberBehind before digits).encode = .ok word) :
    decode word = .ok (.push (decimalValue digits)) := by
  obtain ⟨entry, stands, encodable, rfl⟩ := Token.encode_eq_ok_iff.mp encoded
  obtain rfl := Option.some.inj stands
  have small := Piece.encodable_number_iff.mp encodable
  rw [decode_toWord encodable, Entry.instruction, literalValue_of_lt small]

/-- **Numbers are the runs of digits**, and their words push what the digits spell. Outside
comments every longest run of digits is one number, between the tokens of what stands before
and behind it. Its value is that of its own digits if a literal can have it, and if not, it is
out of range by less than a digit's place, so that no number is refused or accepted
wrongly. -/
theorem tokenize_numbers (text : List Char) :
    (∀ before digits later, text = before ++ digits ++ later → DigitRun before digits later →
      tokenize text = (tokenize before).append
        ((readTokens (.after (before ++ digits)) later).cons (numberBehind before digits)) ∧
      (decimalValue digits < literalLimit → literalValue digits = decimalValue digits) ∧
      (literalLimit ≤ decimalValue digits →
        literalLimit ≤ literalValue digits ∧ literalValue digits < 10 * literalLimit) ∧
      ((∃ word, (numberBehind before digits).encode = .ok word) ↔
        decimalValue digits < literalLimit) ∧
      ∀ word, (numberBehind before digits).encode = .ok word →
        decode word = .ok (.push (decimalValue digits))) ∧
    ∀ value position, .number value position ∈ (tokenize text).tokens →
      ∃ before digits later, text = before ++ digits ++ later ∧ DigitRun before digits later ∧
        .number value position = numberBehind before digits := by
  constructor
  · rintro before digits later rfl run
    refine ⟨tokenize_of_digitRun run, literalValue_of_lt, fun large => ⟨?_, ?_⟩,
      exists_encode_numberBehind_iff, fun word => decode_of_encode_numberBehind⟩
    · exact Nat.not_lt.mp (mt literalValue_lt_iff.mp (Nat.not_lt.mpr large))
    · exact literalValue_lt run.inside
  · exact fun value position => exists_digitRun

/-- The last digit is no part of the value any more. -/
example : (tokenize "10737418249".toList).tokens = [.number 1073741824 (some ⟨0, 1, 1⟩)] := rfl

end ReversePolish
