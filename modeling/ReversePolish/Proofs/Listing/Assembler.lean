import Mathlib.Data.List.Forall2
import ReversePolish.Listing.Assembler
import ReversePolish.Proofs.Instruction.Bytecode
import ReversePolish.Proofs.Instruction.Codec
import ReversePolish.Proofs.Listing.Grammar

/-! # A listing is assembled to what it means

Each statement of a composed text has a command, whose word is the one the statement means
(`Statement.Operand.exists_command`), and the assembler issues these words in order
(`assembleWords_eq`). So the bytecode of a listing is the bytes of what its statements mean
(`Composes.assemble_eq_ok_iff`), and nothing but a listing gets past the syntax
(`assemble_iff_composes`).
-/

namespace ReversePolish

variable {text after operand last numeral : List Char} {phrases : List Phrase} {bytes : Bytes}
  {statement : Statement} {statements : List Statement} {commands : List Command}
  {issued : Int} {words : List Nat} {limit value word number : Nat} {diagnostic : Diagnostic}

/-! ## What one statement is assembled to -/

/-- A numeral denotes no small number but the one that is read. -/
theorem Numeral.Denotes.iff_of_lt (denotes : Numeral.Denotes numeral value)
    (limit_le : limit ≤ wordMask + 1) :
    Numeral.Denotes numeral word ∧ word < limit ↔
      word = min value (wordMask + 1) ∧ word < limit := by
  constructor
  · intro small
    obtain ⟨other, small⟩ := small
    have same := Except.ok.inj
      ((Numeral.read_of_denotes other).symm.trans (Numeral.read_of_denotes denotes))
    omega
  · intro read
    obtain ⟨word_eq, small⟩ := read
    obtain rfl : word = value := by omega
    exact ⟨denotes, small⟩

namespace Command

theorem encode_push_eq_ok_iff :
    (push value).encode = .ok issued ↔ value < literalLimit ∧ issued = value := by
  have literal : (push value).encode = .ok issued ↔ encodeLiteral? value = some issued := by
    rw [encode]
    cases encodeLiteral? value <;> simp
  rw [literal, encodeLiteral?_eq_some_iff]
  constructor
  · intro encoded
    obtain ⟨encodable, rfl⟩ := encoded
    exact ⟨Int.ofNat_lt.mp encodable.2, toWord_push encodable⟩
  · intro small
    obtain ⟨small, rfl⟩ := small
    have encodable : (Instruction.push value).Encodable :=
      ⟨Int.natCast_nonneg value, Int.ofNat_lt.mpr small⟩
    exact ⟨encodable, toWord_push encodable⟩

theorem encode_push_of_large (large : literalLimit ≤ value) :
    (push value).encode = .error (.literalOutOfRange none) := by
  have refused : encodeLiteral? value = none :=
    if_neg fun inRange => Nat.not_lt.mpr large (Int.ofNat_lt.mp inRange.2)
  rw [encode, refused]

theorem encode_op_eq_ok_iff {opcode : Opcode} :
    (op opcode.code).encode = .ok issued ↔ issued = (literalLimit + opcode.code : Nat) := by
  rw [encode, encodeCode?, Opcode.ofCode?_code, Option.map_some, toWord_primitive, Except.ok.injEq,
    eq_comm]

theorem fits_natCast_iff : Word.Fits value ↔ value < wordRange := by
  simp only [Word.Fits, wordMask, wordRange]
  omega

theorem encode_word_eq_ok_iff :
    (Command.word value).encode = .ok issued ↔ value < wordRange ∧ issued = value := by
  rw [encode]
  split
  · next small => simp [fits_natCast_iff.mp small, eq_comm]
  · next large => simp [fits_natCast_iff.not.mp large]

theorem encode_word_of_large (large : wordRange ≤ value) :
    (Command.word value).encode = .error .wordOutOfRange := by
  rw [encode, if_neg (fits_natCast_iff.not.mpr (Nat.not_lt.mpr large))]

end Command

namespace Statement

theorem means_push_iff (denotes : Numeral.Denotes numeral value) :
    (push numeral).Means word ↔ word = min value (wordMask + 1) ∧ word < literalLimit := by
  rw [← denotes.iff_of_lt (by decide)]
  constructor
  · rintro ⟨other, small⟩
    exact ⟨other, small⟩
  · exact fun small => .push small.1 small.2

theorem means_word_iff (denotes : Numeral.Denotes numeral value) :
    (Statement.word numeral).Means number ↔
      number = min value (wordMask + 1) ∧ number < wordRange := by
  rw [← denotes.iff_of_lt (by decide)]
  constructor
  · intro means
    cases means with
    | word other small => exact ⟨other, small⟩
  · exact fun small => .word small.1 small.2

theorem Means.lt_wordRange (means : statement.Means number) : number < wordRange := by
  cases means with
  | push _ small => exact Nat.lt_trans small (by decide)
  | op opcode => rcases opcode with _ | (_ | _ | _ | _) <;> decide
  | word _ small => exact small

theorem command_push (denotes : Numeral.Denotes numeral value) :
    (push numeral).command = .ok (.push (min value (wordMask + 1) : Nat)) := by
  rw [command, Numeral.read_of_denotes denotes]
  rfl

theorem command_word (denotes : Numeral.Denotes numeral value) :
    (Statement.word numeral).command = .ok (.word (min value (wordMask + 1) : Nat)) := by
  rw [command, Numeral.read_of_denotes denotes]
  rfl

/-- A statement has a command, whose word is the one that the statement means. -/
theorem Operand.exists_command (isOperand : statement.Operand after operand) :
    ∃ command, statement.command = .ok command ∧
      ∀ issued, command.encode = .ok issued ↔ ∃ word, statement.Means word ∧ issued = word := by
  induction isOperand with
  | @push inner numeral value gap denotes =>
      refine ⟨_, command_push denotes, fun issued => ?_⟩
      simp only [Command.encode_push_eq_ok_iff, means_push_iff denotes]
      grind
  | op opcode =>
      refine ⟨.op opcode.code, rfl, fun issued => ?_⟩
      rw [Command.encode_op_eq_ok_iff]
      constructor
      · rintro rfl
        exact ⟨_, .op opcode, rfl⟩
      · rintro ⟨word, ⟨⟩, rfl⟩
        rfl
  | @word inner numeral value gap denotes =>
      refine ⟨_, command_word denotes, fun issued => ?_⟩
      simp only [Command.encode_word_eq_ok_iff, means_word_iff denotes]
      grind

end Statement

/-! ## What statements are assembled to -/

theorem lt_wordRange_of_mean (mean : List.Forall₂ Statement.Means statements words) :
    ∀ word ∈ words, word < wordRange := by
  induction mean with
  | nil => simp
  | cons means _ ih => exact List.forall_mem_cons.mpr ⟨means.lt_wordRange, ih⟩

theorem exists_commands
    (spelled : ∀ statement ∈ statements, ∃ after operand, statement.Operand after operand) :
    ∃ commands, statements.mapM Statement.command = .ok commands ∧
      ∀ issued, commands.mapM Command.encode = .ok issued ↔
        ∃ words, List.Forall₂ Statement.Means statements words ∧ issued = words.map Int.ofNat := by
  induction statements with
  | nil =>
      refine ⟨[], rfl, fun issued => ?_⟩
      simp [pure, Except.pure, eq_comm]
  | cons statement rest ih =>
      obtain ⟨⟨after, operand, isOperand⟩, spelled⟩ := List.forall_mem_cons.mp spelled
      obtain ⟨command, found, encodes⟩ := isOperand.exists_command
      obtain ⟨commands, found_rest, encode⟩ := ih spelled
      refine ⟨command :: commands, mapM_cons_eq_ok_iff.mpr ⟨_, _, found, found_rest, rfl⟩, ?_⟩
      intro issued
      rw [mapM_cons_eq_ok_iff]
      constructor
      · intro encoded
        obtain ⟨first, others, encoded, encoded_rest, rfl⟩ := encoded
        obtain ⟨word, means, rfl⟩ := (encodes first).mp encoded
        obtain ⟨words, mean, rfl⟩ := (encode others).mp encoded_rest
        exact ⟨word :: words, .cons means mean, rfl⟩
      · intro meant
        obtain ⟨words, mean, rfl⟩ := meant
        cases mean with
        | cons means mean =>
            exact ⟨_, _, (encodes _).mpr ⟨_, means, rfl⟩, (encode _).mpr ⟨_, mean, rfl⟩, rfl⟩

namespace Assembler

/-- What comes of issuing commands: the words, or what was wrong. -/
def outcome : EStateM.Result Diagnostic Assembler Unit → Except Diagnostic (List Int)
  | .ok () assembler => .ok assembler.words.toList
  | .error diagnostic _ => .error diagnostic

theorem issue_eq (command : Command) (assembler : Assembler) :
    issue command assembler =
      match command.encode with
      | .ok word => .ok () { assembler with words := assembler.words.push word }
      | .error diagnostic => .error diagnostic assembler := by
  rw [issue]
  cases command.encode <;> rfl

theorem issueAll_cons (command : Command) (rest : List Command) (assembler : Assembler) :
    issueAll (command :: rest) assembler =
      match command.encode with
      | .ok word => issueAll rest { assembler with words := assembler.words.push word }
      | .error diagnostic => .error diagnostic assembler := by
  have first : issueAll (command :: rest) assembler =
      EStateM.bind (issue command) (fun _ => issueAll rest) assembler := rfl
  rw [first, EStateM.bind, issue_eq]
  cases command.encode <;> rfl

/-- The words of commands are issued behind the words already there. -/
theorem outcome_issueAll (commands : List Command) (assembler : Assembler) :
    outcome (issueAll commands assembler) =
      (assembler.words.toList ++ ·) <$> commands.mapM Command.encode := by
  induction commands generalizing assembler with
  | nil =>
      show Except.ok assembler.words.toList = Except.ok (assembler.words.toList ++ [])
      rw [List.append_nil]
  | cons command rest ih =>
      rw [List.mapM_cons, issueAll_cons]
      cases command.encode with
      | error diagnostic => rfl
      | ok word =>
          simp only [ih, Array.toList_push]
          cases rest.mapM Command.encode with
          | error diagnostic => rfl
          | ok others =>
              show Except.ok (assembler.words.toList ++ [word] ++ others) =
                Except.ok (assembler.words.toList ++ word :: others)
              rw [List.append_assoc, List.singleton_append]

end Assembler

theorem assembleWords_eq (text : List Char) :
    assembleWords text = listingCommands text >>= fun commands => commands.mapM Command.encode := by
  rw [assembleWords]
  apply congrArg (listingCommands text >>= ·)
  funext commands
  have issued := Assembler.outcome_issueAll commands {}
  have same : (([] : List Int) ++ ·) <$> commands.mapM Command.encode =
      commands.mapM Command.encode := by
    cases commands.mapM Command.encode <;> rfl
  rw [show ({} : Assembler).words.toList = [] from rfl, same] at issued
  rw [← issued]
  cases Assembler.issueAll commands {} <;> rfl

theorem assemble_eq_ok_iff :
    assemble text = .ok bytes ↔
      ∃ issued, assembleWords text = .ok issued ∧ Bytecode.pack issued = .ok bytes := by
  rw [assemble, bind_eq_ok_iff]
  apply exists_congr
  intro issued
  apply and_congr_right
  intro _
  cases Bytecode.pack issued <;> simp [pure, Except.pure, throw, throwThe, MonadExceptOf.throw]

theorem pack_eq_ok_iff_of_lt (fit : ∀ word ∈ words, word < wordRange) :
    Bytecode.pack (words.map Int.ofNat) = .ok bytes ↔
      bytes = words.flatMap fun word => (Quad.ofNat word).toBytes := by
  have spelled : (words.map Quad.ofNat).map Quad.toWord = words.map Int.ofNat := by
    rw [List.map_map]
    apply List.map_congr_left
    intro word member
    rw [Function.comp_apply, Quad.toWord, Quad.toNat_ofNat, Nat.mod_eq_of_lt (fit word member)]
    rfl
  rw [Bytecode.pack_eq_ok_iff]
  constructor
  · intro packed
    obtain ⟨list, same, rfl⟩ := packed
    rw [List.map_injective_iff.mpr (fun _ _ => Quad.toWord_injective) (same.trans spelled.symm),
      List.flatMap_map]
  · rintro rfl
    exact ⟨_, spelled, List.flatMap_map ..⟩

/-! ## What a listing is assembled to -/

theorem Phrase.AllStand.exists_operand {before : List Char}
    (stand : Phrase.AllStand before phrases last) :
    ∀ statement ∈ phrases.map Phrase.statement,
      ∃ after operand, statement.Operand after operand := by
  induction phrases generalizing before with
  | nil => simp
  | cons phrase rest ih =>
      rw [List.map_cons, List.forall_mem_cons]
      exact ⟨⟨_, _, stand.1.operand⟩, ih stand.2⟩

theorem Composes.assembleWords_eq (composes : Composes (Text.expandTabs text) phrases last) :
    ∃ commands, listingCommands text = .ok commands ∧
      assembleWords text = commands.mapM Command.encode ∧
      ∀ issued, commands.mapM Command.encode = .ok issued ↔
        ∃ words, List.Forall₂ Statement.Means (phrases.map Phrase.statement) words ∧
          issued = words.map Int.ofNat := by
  obtain ⟨commands, found, encode⟩ := exists_commands composes.stand.exists_operand
  have parsed := parseListing_eq_ok_iff.mpr ⟨phrases, last, composes, rfl⟩
  have listed : listingCommands text = .ok commands :=
    bind_eq_ok_iff.mpr ⟨_, parsed, found⟩
  refine ⟨commands, listed, ?_, encode⟩
  rw [ReversePolish.assembleWords_eq, listed]
  rfl

/-- **A text that phrases compose is assembled to the bytes of what they mean.** -/
theorem Composes.assemble_eq_ok_iff (composes : Composes (Text.expandTabs text) phrases last) :
    assemble text = .ok bytes ↔
      ∃ words, List.Forall₂ Statement.Means (phrases.map Phrase.statement) words ∧
        bytes = words.flatMap fun word => (Quad.ofNat word).toBytes := by
  obtain ⟨commands, -, same, encode⟩ := composes.assembleWords_eq
  rw [ReversePolish.assemble_eq_ok_iff, same]
  constructor
  · intro assembled
    obtain ⟨issued, encoded, packed⟩ := assembled
    obtain ⟨words, mean, rfl⟩ := (encode issued).mp encoded
    exact ⟨words, mean, (pack_eq_ok_iff_of_lt (lt_wordRange_of_mean mean)).mp packed⟩
  · intro meant
    obtain ⟨words, mean, packed⟩ := meant
    have fit := lt_wordRange_of_mean mean
    exact ⟨_, (encode _).mpr ⟨words, mean, rfl⟩, (pack_eq_ok_iff_of_lt fit).mpr packed⟩

/-- A text that is assembled, or whose values are refused, is a listing. -/
theorem exists_composes (listing : ∀ position, assemble text ≠ .error (.notAStatement position)) :
    ∃ phrases last, Composes (Text.expandTabs text) phrases last := by
  cases parsed : parseListing text with
  | ok statements =>
      obtain ⟨phrases, last, composes, -⟩ := parseListing_eq_ok_iff.mp parsed
      exact ⟨phrases, last, composes⟩
  | error diagnostic =>
      obtain ⟨position, rfl⟩ := exists_position_of_parseListing parsed
      have failed : assemble text = .error (.notAStatement position) := by
        rw [assemble, assembleWords_eq, listingCommands, parsed]
        rfl
      exact absurd failed (listing position)

end ReversePolish
