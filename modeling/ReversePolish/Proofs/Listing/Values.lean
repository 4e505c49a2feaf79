import ReversePolish.Proofs.Listing.RoundTrip

/-! # The values of a listing

Each statement has its own word issued or is refused for its value
(`Statement.issued_of_numbered`), and a listing is assembled statement by statement
(`assemble_eq`). Although a numeral is read no further than the first number that no word can
hold, this number is refused by every statement, so that what counts is the number that the
numeral denotes (`Numeral.read_exactly`).
-/

namespace ReversePolish

variable {text numeral : List Char} {statements : List Statement} {value other limit : Nat}
  {refusal : Diagnostic} {make : List Char → Statement} {word : Int}

namespace Numeral

/-- A numeral denotes one number. -/
theorem Denotes.unique (denotes : Denotes numeral value) (otherDenotes : Denotes numeral other) :
    value = other := by
  cases denotes with
  | decimal _ decimal =>
      cases otherDenotes with
      | decimal _ _ => rfl
      | @hexadecimal mark digits marked _ _ =>
          exact absurd (decimal mark (by simp)) (not_isDecimal_of_marked marked)
  | @hexadecimal mark digits marked _ _ =>
      cases otherDenotes with
      | decimal _ decimal =>
          exact absurd (decimal mark (by simp)) (not_isDecimal_of_marked marked)
      | hexadecimal _ _ _ => rfl

end Numeral

namespace Command

/-- The words that are issued are words. -/
theorem fits_of_encode {command : Command} (encoded : command.encode = .ok word) :
    Word.Fits word := by
  cases command with
  | push value =>
      rw [encode] at encoded
      cases found : encodeLiteral? value with
      | none => exact absurd (found ▸ encoded) (by simp)
      | some issued =>
          rw [found] at encoded
          obtain rfl := Except.ok.inj encoded
          obtain ⟨-, rfl⟩ := encodeLiteral?_eq_some_iff.mp found
          exact Word.fits_make _ _
  | op code =>
      rw [encode] at encoded
      cases found : encodeCode? code with
      | none =>
          rw [found] at encoded
          by_cases short : Text.Writable code <;> simp [short] at encoded
      | some issued =>
          rw [found] at encoded
          obtain rfl := Except.ok.inj encoded
          obtain ⟨opcode, -, rfl⟩ := Option.map_eq_some_iff.mp found
          exact Word.fits_make _ _
  | word value =>
      rw [encode] at encoded
      split at encoded
      · next fits => exact Except.ok.inj encoded ▸ fits
      · exact absurd encoded (by simp)

end Command

namespace Statement

/-- The word that a statement has the assembler issue. -/
def issued (statement : Statement) : Except Diagnostic Int := do (← statement.command).encode

theorem issued_of_command {statement : Statement} {command : Command}
    (found : statement.command = .ok command) : statement.issued = command.encode := by
  rw [issued, found]
  rfl

/-- The statements with a number, the least number that they refuse and what they refuse it
for. -/
inductive Numbered : (List Char → Statement) → Nat → Diagnostic → Prop where
  | push : Numbered push literalLimit (.literalOutOfRange none)
  | word : Numbered Statement.word wordRange .wordOutOfRange

/-- **A number is issued as it is denoted, or refused.** -/
theorem issued_of_numbered (numbered : Numbered make limit refusal)
    (denotes : Numeral.Denotes numeral value) :
    (make numeral).issued = if value < limit then .ok (value : Int) else .error refusal := by
  have literal_le : literalLimit ≤ wordMask + 1 := by decide
  have word_le : wordRange ≤ wordMask + 1 := by decide
  cases numbered with
  | push =>
      rw [issued_of_command (command_push denotes)]
      split
      · next small =>
          rw [min_eq_left (Nat.le_trans small.le literal_le),
            Command.encode_push_eq_ok_iff.mpr ⟨small, rfl⟩]
      · next large =>
          -- Where it is cut off, a number is still out of range.
          exact Command.encode_push_of_large (Nat.le_min.mpr ⟨Nat.le_of_not_lt large, literal_le⟩)
  | word =>
      rw [issued_of_command (command_word denotes)]
      split
      · next small =>
          rw [min_eq_left (Nat.le_trans small.le word_le),
            Command.encode_word_eq_ok_iff.mpr ⟨small, rfl⟩]
      · next large =>
          exact Command.encode_word_of_large (Nat.le_min.mpr ⟨Nat.le_of_not_lt large, word_le⟩)

theorem issued_op (opcode : Opcode) :
    (op opcode).issued = .ok (literalLimit + opcode.code : Nat) := by
  rw [issued_of_command rfl, Command.encode_op_eq_ok_iff]

theorem fits_of_issued {statement : Statement} (issued_eq : statement.issued = .ok word) :
    Word.Fits word := by
  obtain ⟨command, -, encoded⟩ := bind_eq_ok_iff.mp issued_eq
  exact Command.fits_of_encode encoded

end Statement

/-- **A listing is assembled statement by statement.** -/
theorem assemble_eq (text : List Char) :
    assemble text = do
      let words ← (← parseListing text).mapM Statement.issued
      return Bytecode.spell words := by
  cases parsed : parseListing text with
  | error diagnostic =>
      rw [assemble, assembleWords_eq, listingCommands, parsed]
      rfl
  | ok statements =>
      obtain ⟨phrases, last, composes, rfl⟩ := parseListing_eq_ok_iff.mp parsed
      obtain ⟨commands, listed, same, -⟩ := composes.assembleWords_eq
      rw [listingCommands, parsed] at listed
      have issued : assembleWords text = (phrases.map Phrase.statement).mapM Statement.issued :=
        same.trans (mapM_bind_of_mapM_eq_ok listed Command.encode).symm
      show _ = (phrases.map Phrase.statement).mapM Statement.issued >>= _
      cases encoded : (phrases.map Phrase.statement).mapM Statement.issued with
      | error diagnostic =>
          rw [assemble, issued, encoded]
          rfl
      | ok words =>
          have fit := forall_of_mapM_eq_ok encoded fun _ _ => Statement.fits_of_issued
          exact assemble_eq_ok_iff.mpr ⟨words, issued.trans encoded, Bytecode.pack_of_fits fit⟩

theorem assemble_of_parseListing_eq_error (failed : parseListing text = .error diagnostic) :
    assemble text = .error diagnostic := by
  rw [assemble_eq, failed]
  rfl

/-- A listing of a single statement is assembled to the word of its number. -/
theorem assemble_of_numbered (numbered : Statement.Numbered make limit refusal)
    (denotes : Numeral.Denotes numeral value) (parsed : parseListing text = .ok [make numeral]) :
    assemble text = if value < limit then .ok (Quad.ofNat value).toBytes else .error refusal := by
  rw [assemble_eq, parsed]
  show [make numeral].mapM Statement.issued >>= _ = _
  rw [List.mapM_cons, List.mapM_nil, Statement.issued_of_numbered numbered denotes]
  split <;> rfl

theorem Statement.Numbered.spelled (numbered : Numbered make limit refusal)
    (denotes : Numeral.Denotes numeral value) : (make numeral).Spelled (' ' :: numeral) := by
  cases numbered with
  | push => exact .push denotes
  | word => exact .bare denotes

/-- A statement is read from its keyword, a space and a numeral. -/
theorem parseListing_of_numbered (numbered : Statement.Numbered make limit refusal)
    (denotes : Numeral.Denotes numeral value) :
    parseListing ((make numeral).keyword ++ ' ' :: numeral) = .ok [make numeral] :=
  parseListing_eq_ok_iff.mpr (ReadsAs.last (numbered.spelled denotes)).exists_composes_expandTabs

/-- **A numeral is read exactly**, however long it is: it is taken whole, and read as its number
or, if no word can hold this, as the least number that none can. Any listing that pushes the
numeral is assembled to its number if that is a literal, and any listing that has it as a bare
word if that is a word; both are refused otherwise. -/
theorem Numeral.read_exactly (denotes : Numeral.Denotes numeral value) :
    (∀ other, Numeral.Denotes numeral other → other = value) ∧
    Numeral.atFront numeral = numeral ∧
    Numeral.read numeral = .ok (min value wordRange) ∧
    parseListing ("push".toList ++ ' ' :: numeral) = .ok [.push numeral] ∧
    parseListing (".word".toList ++ ' ' :: numeral) = .ok [.word numeral] ∧
    (∀ text, parseListing text = .ok [.push numeral] →
      assemble text = if value < literalLimit then .ok (Quad.ofNat value).toBytes
        else .error (.literalOutOfRange none)) ∧
    (∀ text, parseListing text = .ok [.word numeral] →
      assemble text = if value < wordRange then .ok (Quad.ofNat value).toBytes
        else .error .wordOutOfRange) := by
  have pushed := parseListing_of_numbered .push denotes
  have bare := parseListing_of_numbered .word denotes
  refine ⟨fun other otherDenotes => otherDenotes.unique denotes, ?_,
    Numeral.read_of_denotes denotes, pushed, bare, fun text => assemble_of_numbered .push denotes,
    fun text => assemble_of_numbered .word denotes⟩
  have whole := @Numeral.atFront_of_denotes numeral [] value denotes (by simp [Apart])
  rwa [List.append_nil] at whole

/-- The largest word behind zeros, in digits of either case, and a number of a hundred
digits. -/
theorem Numeral.read_exactly_of_long :
    Numeral.Denotes "0X000000000000fFfFfFfF".toList 0xffffffff ∧
      assemble (".word".toList ++ ' ' :: "0X000000000000fFfFfFfF".toList) =
        .ok [0xff, 0xff, 0xff, 0xff] ∧
      assemble ("push".toList ++ ' ' :: List.replicate 100 '9') =
        .error (.literalOutOfRange none) := by
  have largest : Numeral.Denotes "0X000000000000fFfFfFfF".toList 0xffffffff :=
    .hexadecimal (.inr rfl) (by decide) (List.all_eq_true.mp (by decide))
  have long : Numeral.Denotes (List.replicate 100 '9') (valueOf 10 (List.replicate 100 '9')) :=
    .decimal (by decide) fun _ member => List.eq_of_mem_replicate member ▸ rfl
  have large : ¬ valueOf 10 (List.replicate 100 '9') < literalLimit := by decide +kernel
  obtain ⟨-, -, -, -, parsed, -, issued⟩ := read_exactly largest
  obtain ⟨-, -, -, pushed, -, refused, -⟩ := read_exactly long
  exact ⟨largest, issued _ parsed, (refused _ pushed).trans (if_neg large)⟩

end ReversePolish
