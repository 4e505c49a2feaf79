import ReversePolish.Proofs.Listing.Spacing
import ReversePolish.Proofs.Listing.Values

/-! # How a listing is refused

A statement of a listing means a word or is refused for its value
(`Statement.Operand.means_or_refused`), and the first that is refused is what a listing is
refused for (`Composes.assemble_eq_error_iff`). A text that is no listing is refused for its
syntax, whatever values it holds, and there is no other way to fail (`assembled_or_refused`).
Behind this, an assembler holds words only, whatever it is called with, and a call that fails
leaves them as they were (`Assembler.HoldsWords.calls`, `Assembler.eq_of_issue_eq_error`).
-/

namespace ReversePolish

variable {text after operand last : List Char} {statement : Statement} {phrases : List Phrase}
  {diagnostic refusal : Diagnostic} {word : Nat} {bytes : Bytes}

/-! ## Calls of an assembler -/

namespace Assembler

variable {assembler later : Assembler} {command : Command}

/-- An assembler after a call, which may have failed. -/
def call (assembler : Assembler) (command : Command) : Assembler :=
  match issue command assembler with
  | .ok _ later | .error _ later => later

/-- An assembler that has issued nothing but words. -/
def HoldsWords (assembler : Assembler) : Prop := ∀ word ∈ assembler.words, Word.Fits word

theorem holdsWords_start : HoldsWords {} := fun _ member => absurd member (by simp)

/-- A call that fails leaves the assembler as it was. -/
theorem eq_of_issue_eq_error (failed : issue command assembler = .error diagnostic later) :
    later = assembler := by
  rw [issue_eq] at failed
  split at failed
  · exact absurd failed (by simp)
  · injection failed with _ same
    exact same.symm

/-- A call adds a word or nothing. -/
theorem HoldsWords.call (holds : assembler.HoldsWords) (command : Command) :
    (assembler.call command).HoldsWords := by
  rw [Assembler.call, issue_eq]
  cases encoded : command.encode with
  | error diagnostic => exact holds
  | ok word =>
      intro other member
      rcases Array.mem_push.mp member with earlier | rfl
      · exact holds other earlier
      · exact Command.fits_of_encode encoded

/-- Calls, of which some may fail, add words only. -/
theorem HoldsWords.calls (holds : assembler.HoldsWords) (commands : List Command) :
    (commands.foldl Assembler.call assembler).HoldsWords := by
  induction commands generalizing assembler with
  | nil => exact holds
  | cons command rest ih => exact ih (holds.call command)

end Assembler

/-! ## Values out of range -/

namespace Statement

/-- A statement whose number is out of range, and what it is refused for. -/
inductive Refused : Statement → Diagnostic → Prop where
  | number {make : List Char → Statement} {limit value : Nat} {refusal : Diagnostic}
      {numeral : List Char} (numbered : Numbered make limit refusal)
      (denotes : Numeral.Denotes numeral value) (large : limit ≤ value) :
      Refused (make numeral) refusal

theorem Refused.issued_eq (refused : statement.Refused refusal) :
    statement.issued = .error refusal := by
  obtain ⟨numbered, denotes, large⟩ := refused
  rw [issued_of_numbered numbered denotes, if_neg (Nat.not_lt.mpr large)]

theorem Means.issued_eq (means : statement.Means word) : statement.issued = .ok (word : Int) := by
  cases means with
  | push denotes small => rw [issued_of_numbered .push denotes, if_pos small]
  | op opcode => exact issued_op opcode
  | word denotes small => rw [issued_of_numbered .word denotes, if_pos small]

/-- A statement of a listing means a word or is refused for its value. -/
theorem Operand.means_or_refused (isOperand : statement.Operand after operand) :
    (∃ word, statement.Means word) ∨ ∃ refusal, statement.Refused refusal := by
  cases isOperand with
  | op opcode => exact .inl ⟨_, .op opcode⟩
  | push _ denotes =>
      rcases Nat.lt_or_ge _ literalLimit with small | large
      · exact .inl ⟨_, .push denotes small⟩
      · exact .inr ⟨_, .number .push denotes large⟩
  | word _ denotes =>
      rcases Nat.lt_or_ge _ wordRange with small | large
      · exact .inl ⟨_, .word denotes small⟩
      · exact .inr ⟨_, .number .word denotes large⟩

/-- The first of some statements that is refused, and what for: all before it mean words. -/
def FirstRefused (statements : List Statement) (refusal : Diagnostic) : Prop :=
  ∃ earlier statement later, statements = earlier ++ statement :: later ∧
    (∀ other ∈ earlier, ∃ word, other.Means word) ∧ statement.Refused refusal

end Statement

open Statement

/-- Statements are refused for the first of them that is. -/
theorem mapM_issued_eq_error_iff {statements : List Statement}
    (spelled : ∀ statement ∈ statements, ∃ after operand, statement.Operand after operand) :
    statements.mapM Statement.issued = .error refusal ↔ FirstRefused statements refusal := by
  constructor
  · intro failed
    obtain ⟨earlier, statement, later, words, rfl, succeeded, found⟩ :=
      exists_first_of_mapM_eq_error failed
    refine ⟨earlier, statement, later, rfl, fun other member => ?_, ?_⟩
    · obtain ⟨after, operand, isOperand⟩ := spelled other (List.mem_append_left _ member)
      rcases isOperand.means_or_refused with means | ⟨reason, refused⟩
      · exact means
      · obtain ⟨word, issued⟩ := exists_of_mapM_eq_ok succeeded other member
        exact absurd (issued.symm.trans refused.issued_eq) (by simp)
    · obtain ⟨after, operand, isOperand⟩ := spelled statement (by simp)
      rcases isOperand.means_or_refused with ⟨word, means⟩ | ⟨reason, refused⟩
      · exact absurd (found.symm.trans means.issued_eq) (by simp)
      · obtain rfl := Except.error.inj (found.symm.trans refused.issued_eq)
        exact refused
  · intro first
    obtain ⟨earlier, statement, later, rfl, mean, refused⟩ := first
    obtain ⟨words, succeeded⟩ := exists_mapM_eq_ok fun other member => by
      obtain ⟨word, means⟩ := mean other member
      exact ⟨_, means.issued_eq⟩
    exact mapM_append_cons_eq_error succeeded refused.issued_eq

/-! ## Texts -/

/-- A text that is put together as a listing. -/
def IsListing (text : List Char) : Prop := ∃ phrases last, Composes text phrases last

theorem Composes.parseListing_eq (composes : Composes text phrases last) :
    parseListing text = .ok (phrases.map Phrase.statement) :=
  parseListing_eq_ok_iff_composes.mpr ⟨phrases, last, composes, rfl⟩

theorem Composes.assemble_eq (composes : Composes text phrases last) :
    assemble text = Bytecode.spell <$> (phrases.map Phrase.statement).mapM Statement.issued := by
  rw [ReversePolish.assemble_eq, composes.parseListing_eq]
  rfl

theorem Composes.assemble_eq_error_iff (composes : Composes text phrases last) :
    assemble text = .error refusal ↔ FirstRefused (phrases.map Phrase.statement) refusal := by
  rw [composes.assemble_eq, map_eq_error_iff,
    mapM_issued_eq_error_iff composes.stand.exists_operand]

theorem Composes.length_of_assemble (composes : Composes text phrases last)
    (assembled : assemble text = .ok bytes) : bytes.length = wordSize * phrases.length := by
  rw [composes.assemble_eq, map_eq_ok_iff] at assembled
  obtain ⟨words, issued, rfl⟩ := assembled
  rw [Bytecode.length_spell, length_of_mapM_eq_ok issued, List.length_map]

/-- A text that is no listing is refused at a place. -/
theorem exists_position_of_not_isListing (notListing : ¬ IsListing text) :
    ∃ position, assemble text = .error (.notAStatement position) := by
  cases parsed : parseListing text with
  | ok statements =>
      obtain ⟨phrases, last, composes, -⟩ := parseListing_eq_ok_iff_composes.mp parsed
      exact absurd ⟨phrases, last, composes⟩ notListing
  | error diagnostic =>
      obtain ⟨position, rfl⟩ := exists_position_of_parseListing parsed
      exact ⟨position, assemble_of_parseListing_eq_error parsed⟩

/-- A diagnostic of a place where a text is put together wrongly. -/
def Diagnostic.OfSyntax (diagnostic : Diagnostic) : Prop :=
  diagnostic.kind = .compilation ∧ diagnostic.position?.isSome

/-- A diagnostic of a value that no word stands for, wherever it is. -/
def Diagnostic.OfValue (diagnostic : Diagnostic) : Prop :=
  diagnostic.kind = .encoding ∧ diagnostic.position? = none

theorem Diagnostic.OfValue.not_ofSyntax (ofValue : diagnostic.OfValue) : ¬ diagnostic.OfSyntax :=
  fun ofSyntax => absurd (ofSyntax.1.symm.trans ofValue.1) (by decide)

theorem Statement.Refused.ofValue (refused : statement.Refused refusal) : refusal.OfValue := by
  obtain ⟨numbered, -, -⟩ := refused
  cases numbered with
  | push => exact ⟨rfl, rfl⟩
  | word => exact ⟨rfl, rfl⟩

theorem Composes.ofValue_of_assemble (composes : Composes text phrases last)
    (failed : assemble text = .error diagnostic) : diagnostic.OfValue := by
  obtain ⟨-, statement, -, -, -, refused⟩ := composes.assemble_eq_error_iff.mp failed
  exact refused.ofValue

/-- A listing fails exactly if one of its statements is refused. -/
theorem Composes.exists_assemble_eq_error_iff (composes : Composes text phrases last) :
    (∃ diagnostic, assemble text = .error diagnostic) ↔
      ∃ phrase ∈ phrases, ∃ refusal, phrase.statement.Refused refusal := by
  constructor
  · intro fails
    obtain ⟨diagnostic, failed⟩ := fails
    obtain ⟨earlier, statement, later, same, -, refused⟩ :=
      composes.assemble_eq_error_iff.mp failed
    have member : statement ∈ phrases.map Phrase.statement := by simp [same]
    obtain ⟨phrase, inPhrases, rfl⟩ := List.mem_map.mp member
    exact ⟨phrase, inPhrases, diagnostic, refused⟩
  · intro outOfRange
    obtain ⟨phrase, inPhrases, refusal, refused⟩ := outOfRange
    cases assembled : assemble text with
    | error diagnostic => exact ⟨diagnostic, rfl⟩
    | ok bytes =>
        rw [composes.assemble_eq, map_eq_ok_iff] at assembled
        obtain ⟨words, issued, -⟩ := assembled
        obtain ⟨word, found⟩ := exists_of_mapM_eq_ok issued _ (List.mem_map_of_mem inPhrases)
        exact absurd (found.symm.trans refused.issued_eq) (by simp)

/-- What the assembler makes of a text: bytes, or one of two refusals. -/
structure AssembledOrRefused (text : List Char) : Prop where
  /-- The bytes are those of one word for each statement. -/
  assembled : ∀ bytes, assemble text = .ok bytes →
    ∃ phrases last, Composes text phrases last ∧ bytes.length = wordSize * phrases.length
  refused : ∀ diagnostic, assemble text = .error diagnostic →
    diagnostic.OfSyntax ∨ diagnostic.OfValue
  /-- The syntax is at fault whenever the text is no listing, whatever its values. -/
  ofSyntax_iff : (∃ diagnostic, assemble text = .error diagnostic ∧ diagnostic.OfSyntax) ↔
    ¬ IsListing text
  /-- A value is at fault whenever the text is a listing with a value out of range. -/
  ofValue_iff : (∃ diagnostic, assemble text = .error diagnostic ∧ diagnostic.OfValue) ↔
    ∃ phrases last, Composes text phrases last ∧
      ∃ phrase ∈ phrases, ∃ refusal, phrase.statement.Refused refusal
  /-- It is the first such value that is told of. -/
  first : ∀ phrases last refusal, Composes text phrases last →
    (assemble text = .error refusal ↔ FirstRefused (phrases.map Phrase.statement) refusal)

theorem AssembledOrRefused.of_composes (composes : Composes text phrases last) :
    AssembledOrRefused text where
  assembled _ issued := ⟨phrases, last, composes, composes.length_of_assemble issued⟩
  refused _ failed := .inr (composes.ofValue_of_assemble failed)
  ofSyntax_iff := by
    refine iff_of_false ?_ (not_not_intro ⟨phrases, last, composes⟩)
    intro fails
    obtain ⟨diagnostic, failed, ofSyntax⟩ := fails
    exact (composes.ofValue_of_assemble failed).not_ofSyntax ofSyntax
  ofValue_iff := by
    constructor
    · intro fails
      obtain ⟨diagnostic, failed, -⟩ := fails
      exact ⟨phrases, last, composes, composes.exists_assemble_eq_error_iff.mp ⟨_, failed⟩⟩
    · intro outOfRange
      obtain ⟨others, otherLast, otherComposes, refused⟩ := outOfRange
      obtain ⟨diagnostic, failed⟩ := otherComposes.exists_assemble_eq_error_iff.mpr refused
      exact ⟨diagnostic, failed, composes.ofValue_of_assemble failed⟩
  first _ _ _ otherComposes := otherComposes.assemble_eq_error_iff

theorem AssembledOrRefused.of_not_isListing (notListing : ¬ IsListing text) :
    AssembledOrRefused text := by
  obtain ⟨position, failed⟩ := exists_position_of_not_isListing notListing
  have ofSyntax : (Diagnostic.notAStatement position).OfSyntax := ⟨rfl, rfl⟩
  refine ⟨fun bytes issued => ?_, fun diagnostic found => ?_, ?_, ?_,
    fun phrases last _ composes => absurd ⟨phrases, last, composes⟩ notListing⟩
  · exact absurd (failed.symm.trans issued) (by simp)
  · obtain rfl := Except.error.inj (failed.symm.trans found)
    exact .inl ofSyntax
  · exact iff_of_true ⟨_, failed, ofSyntax⟩ notListing
  · refine iff_of_false ?_ fun ⟨phrases, last, composes, _⟩ => notListing ⟨phrases, last, composes⟩
    intro fails
    obtain ⟨diagnostic, found, ofValue⟩ := fails
    obtain rfl := Except.error.inj (failed.symm.trans found)
    exact ofValue.not_ofSyntax ofSyntax

/-- **Every text is assembled or refused in one of two ways**: for its syntax if it is no
listing, or for the first of its values that is out of range if it is one. An assembler that is
called in any order, with any numbers, holds words only, and a call that fails changes
nothing. -/
theorem assembled_or_refused :
    (∀ text, AssembledOrRefused text) ∧
    (∀ commands : List Command, (commands.foldl Assembler.call {}).HoldsWords) ∧
    ∀ assembler command diagnostic later,
      Assembler.issue command assembler = .error diagnostic later → later = assembler := by
  refine ⟨fun text => ?_, Assembler.holdsWords_start.calls,
    fun _ _ _ _ => Assembler.eq_of_issue_eq_error⟩
  by_cases isListing : IsListing text
  · obtain ⟨phrases, last, composes⟩ := isListing
    exact .of_composes composes
  · exact .of_not_isListing isListing

end ReversePolish
