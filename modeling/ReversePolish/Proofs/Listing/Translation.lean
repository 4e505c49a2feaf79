import ReversePolish.Proofs.Listing.Lines
import ReversePolish.Proofs.Listing.RoundTrip
import ReversePolish.Proofs.Source.Leftmost

/-! # Sources and their listings

The listing of a calculation reads as the statements of its entries (`readsAs_listing`), so
that assembling it issues the words of the calculation and a halt, or fails at the first
literal out of range. A source that stands for the calculation compiles to the same bytes or
fails as well, and its program is printed with the lines of the listing
(`compileSource_agrees`).
-/

namespace ReversePolish

variable {text ending : List Char} {tokens : List Token} {entry : Entry} {entries : List Entry}

namespace Entry

/-- The number of an entry, if it is one, is not negative. -/
def Natural : Entry → Prop
  | number value => 0 ≤ value
  | operator _ => True

/-- An entry as a statement of a listing. -/
def statement : Entry → Statement
  | number value => .push (Nat.toDigits 10 value.toNat)
  | operator applied => .op (.arithmetic applied)

/-- What is written behind the keyword of an entry's statement. -/
def operand : Entry → List Char
  | number value => ' ' :: Nat.toDigits 10 value.toNat
  | operator _ => []

/-- The command of an entry's statement: a value is read to one past the largest word. -/
def command : Entry → Command
  | number value => .push (min value.toNat (wordMask + 1) : Nat)
  | operator applied => .op (Opcode.arithmetic applied).code

theorem spelled (entry : Entry) : entry.statement.Spelled entry.operand := by
  cases entry with
  | number value => exact .push (Numeral.denotes_toDigits _)
  | operator applied => exact .op _

theorem toList_line (natural : entry.Natural) :
    entry.line.toList = entry.statement.keyword ++ entry.operand := by
  cases entry with
  | number value =>
      obtain ⟨number, rfl⟩ := Int.eq_ofNat_of_zero_le natural
      exact toList_render_push number
  | operator applied => exact (List.append_nil _).symm

theorem fillsColumn (natural : entry.Natural) : FillsColumn entry.line.toList := by
  have last := (entry.spelled.isOperand []).last_isWordChar
  rw [← toList_line natural] at last
  refine .of_chars (fun char member => ?_) last
  rw [toList_line natural, List.mem_append] at member
  cases entry with
  | number value =>
      rcases member with keyword | operand
      · have table : ("push".toList).all isWordChar := by decide
        exact .inl (List.all_eq_true.mp table char keyword)
      · rcases List.mem_cons.mp operand with blank | digit
        · exact .inr blank
        · exact .inl ((Numeral.denotes_toDigits _).isWordChar char digit)
  | operator applied =>
      have table : (applied.mnemonic.toList).all isWordChar := by cases applied <;> decide
      exact .inl (List.all_eq_true.mp table char (member.resolve_right List.not_mem_nil))

theorem command_statement (entry : Entry) : entry.statement.command = .ok entry.command := by
  cases entry with
  | number value =>
      exact Statement.command_push (Numeral.denotes_toDigits _)
  | operator applied => rfl

theorem encode_command (encodable : entry.instruction.Encodable) :
    entry.command.encode = .ok entry.instruction.toWord := by
  cases entry with
  | number value =>
      obtain ⟨number, rfl⟩ := Int.eq_ofNat_of_zero_le encodable.1
      have small : number < literalLimit := Int.ofNat_lt.mp encodable.2
      have read : min number (wordMask + 1) = number := by
        simp only [wordMask, wordRange, literalLimit] at *
        omega
      rw [command, Int.toNat_natCast, read, Command.encode_push_eq_ok_iff]
      exact ⟨small, toWord_push encodable⟩
  | operator applied => exact Command.encode_op_eq_ok_iff.mpr (toWord_primitive _)

theorem encode_command_of_not_encodable (natural : entry.Natural)
    (large : ¬ entry.instruction.Encodable) :
    entry.command.encode = .error (.literalOutOfRange none) := by
  cases entry with
  | number value =>
      obtain ⟨number, rfl⟩ := Int.eq_ofNat_of_zero_le natural
      have literal_le : literalLimit ≤ number :=
        Nat.le_of_not_lt fun small => large ⟨natural, Int.ofNat_lt.mpr small⟩
      rw [command, Int.toNat_natCast]
      -- Where it is cut off, a number is still out of range.
      exact Command.encode_push_of_large (Nat.le_min.mpr ⟨literal_le, by decide⟩)
  | operator applied => exact absurd (Instruction.encodable_primitive _) large

end Entry

/-! ## The listing of a calculation -/

/-- A line feed alone ends a line. -/
theorem lineEnd_feed : LineEnd ['\n'] where
  isGap _ := .blank rfl .empty
  last := rfl
  noTab := by decide

theorem listing_nil (ending : List Char) :
    Calculation.listing [] ending = "halt".toList ++ ending := by
  rw [Calculation.listing, Calculation.lines, List.map_nil, List.nil_append,
    List.intercalate_singleton]

theorem listing_cons (entry : Entry) (rest : List Entry) (ending : List Char) :
    Calculation.listing (entry :: rest) ending =
      entry.line.toList ++ (['\n'] ++ Calculation.listing rest ending) := by
  have more : Calculation.lines rest ≠ [] := by simp [Calculation.lines]
  rw [Calculation.listing, Calculation.lines, List.map_cons, List.cons_append, ← Calculation.lines,
    List.intercalate_cons_of_ne_nil more, Calculation.listing]
  simp only [List.append_assoc]

/-- **The listing of a calculation reads as its statements**, and a halt. -/
theorem readsAs_listing (natural : ∀ entry ∈ entries, entry.Natural)
    (isEnding : ending ∈ [[], ['\n']]) :
    ReadsAs (Calculation.listing entries ending) (entries.map Entry.statement ++ [.op .halt]) := by
  induction entries with
  | nil =>
      rw [listing_nil]
      simp only [List.mem_cons, List.not_mem_nil, or_false] at isEnding
      rcases isEnding with rfl | rfl
      · exact .last (.op .halt)
      · exact .line (.op .halt) lineEnd_feed .nil
  | cons entry rest ih =>
      obtain ⟨natural_first, natural_rest⟩ := List.forall_mem_cons.mp natural
      rw [listing_cons, Entry.toList_line natural_first]
      exact .line entry.spelled lineEnd_feed (ih natural_rest)

theorem listingCommands_listing (natural : ∀ entry ∈ entries, entry.Natural)
    (isEnding : ending ∈ [[], ['\n']]) :
    listingCommands (Calculation.listing entries ending) =
      .ok (entries.map Entry.command ++ [Command.op Opcode.halt.code]) := by
  obtain ⟨phrases, last, composes, same⟩ :=
    (readsAs_listing natural isEnding).exists_composes_expandTabs
  refine bind_eq_ok_iff.mpr
    ⟨_, parseListing_eq_ok_iff.mpr ⟨phrases, last, composes, same⟩, ?_⟩
  rw [List.mapM_append, mapM_map_eq_ok fun entry _ => Entry.command_statement entry]
  rfl

theorem assembleWords_listing (natural : ∀ entry ∈ entries, entry.Natural)
    (isEnding : ending ∈ [[], ['\n']]) :
    assembleWords (Calculation.listing entries ending) =
      (entries.map Entry.command ++ [Command.op Opcode.halt.code]).mapM Command.encode := by
  rw [assembleWords_eq, listingCommands_listing natural isEnding]
  rfl

/-- If every literal is in range, the listing is assembled to the program. -/
theorem assemble_listing (natural : ∀ entry ∈ entries, entry.Natural)
    (encodable : ∀ entry ∈ entries, entry.instruction.Encodable)
    (isEnding : ending ∈ [[], ['\n']]) :
    assemble (Calculation.listing entries ending) =
      .ok (programBytes (Calculation.words entries)) := by
  have issued : assembleWords (Calculation.listing entries ending) =
      .ok (Calculation.words entries ++ [haltWord]) := by
    rw [assembleWords_listing natural isEnding, List.mapM_append,
      mapM_map_eq_ok fun entry member => Entry.encode_command (encodable entry member)]
    rfl
  exact assemble_eq_ok_iff.mpr ⟨_, issued, Bytecode.pack_of_fits (fits_words entries)⟩

/-- If a literal is out of range, the listing is refused for that. -/
theorem assemble_listing_of_not_encodable (natural : ∀ entry ∈ entries, entry.Natural)
    (large : ¬ ∀ entry ∈ entries, entry.instruction.Encodable)
    (isEnding : ending ∈ [[], ['\n']]) :
    assemble (Calculation.listing entries ending) = .error (.literalOutOfRange none) := by
  have refused : (entries.map Entry.command).mapM Command.encode =
      .error (.literalOutOfRange none) := by
    cases encoded : (entries.map Entry.command).mapM Command.encode with
    | ok words =>
        refine absurd (fun entry member => ?_) large
        obtain ⟨word, issued⟩ := exists_of_mapM_eq_ok encoded _ (List.mem_map_of_mem member)
        by_contra notEncodable
        rw [Entry.encode_command_of_not_encodable (natural entry member) notEncodable] at issued
        cases issued
    | error diagnostic =>
        obtain ⟨command, member, failed⟩ := exists_of_mapM_eq_error encoded
        obtain ⟨entry, inEntries, rfl⟩ := List.mem_map.mp member
        by_cases encodable : entry.instruction.Encodable
        · rw [Entry.encode_command encodable] at failed
          cases failed
        · rw [Entry.encode_command_of_not_encodable (natural entry inEntries) encodable] at failed
          cases failed
          rfl
  rw [assemble, assembleWords_listing natural isEnding, List.mapM_append, refused]
  rfl

/-! ## The program of a calculation -/

theorem disassembleWord?_entry (encodable : entry.instruction.Encodable) :
    disassembleWord? entry.instruction.toWord = some entry.line := by
  rw [disassembleWord?_of_decode (decode_toWord encodable)]
  cases entry <;> rfl

/-- The program of a calculation is printed with the lines of the calculation, as long as the
addresses can be written. -/
theorem exists_disassemble_programBytes
    (encodable : ∀ entry ∈ entries, entry.instruction.Encodable) {first : Int}
    (writable : ∀ index : Nat, index ≤ entries.length → Text.Writable (first + index)) :
    ∃ shown, disassemble (programBytes (Calculation.words entries)) first = .ok shown ∧
      instructionColumn shown.toList = Calculation.lines entries := by
  have natural (entry : Entry) (member : entry ∈ entries) : entry.Natural := by
    cases entry with
    | number value => exact (encodable _ member).1
    | operator applied => trivial
  have fit := fits_words entries
  have unpacked := Bytecode.unpack_eq_ok_iff.mpr (Bytecode.pack_of_fits fit)
  have count : (Calculation.words entries ++ [haltWord]).length = entries.length + 1 := by
    rw [List.length_append, Calculation.words, List.length_map, List.length_singleton]
  obtain ⟨shown, listed⟩ := (exists_listing?_iff fit).mpr fun index below =>
    writable index (Nat.le_of_lt_succ (Nat.lt_of_lt_of_eq below count))
  have shows : (Calculation.words entries ++ [haltWord]).map disassembleWord? =
      (entries.map Entry.line ++ ["halt"]).map some := by
    rw [List.map_append, Calculation.words, List.map_map, List.map_append, List.map_map]
    congr 1
    exact List.map_congr_left fun entry member =>
      disassembleWord?_entry (encodable entry member)
  have fill : ∀ text ∈ entries.map Entry.line ++ ["halt"], FillsColumn text.toList := by
    rw [List.forall_mem_append, List.forall_mem_map, List.forall_mem_singleton]
    exact ⟨fun entry member => Entry.fillsColumn (natural entry member),
      ⟨by decide, by decide, by decide⟩⟩
  refine ⟨shown, disassemble_of_listing unpacked listed, ?_⟩
  rw [instructionColumn_listing shows fill listed, List.map_append, List.map_map,
    Calculation.lines]
  rfl

/-- The numbers of a source are not negative. -/
theorem natural_of_pieces {pieces : List Piece} :
    ∀ entry ∈ pieces.filterMap Piece.meaning?, entry.Natural := by
  intro entry member
  obtain ⟨piece, -, stands⟩ := List.mem_filterMap.mp member
  cases piece with
  | blank char | comment text => cases stands
  | number digits =>
      obtain rfl := Option.some.inj stands
      exact Int.natCast_nonneg _
  | symbol char =>
      obtain ⟨applied, -, rfl⟩ := Option.map_eq_some_iff.mp stands
      trivial

/-! ## The source of a calculation -/

/-- If a literal is out of range, a source is refused for one that is. -/
theorem compileSource_of_not_encodable {pieces : List Piece} {left : List Char}
    (divides : Divides .start text (tokenize text) pieces left)
    (stand : (tokenize text).tokens.mapM Token.entry? = some entries)
    (large : ¬ ∀ entry ∈ entries, entry.instruction.Encodable) :
    ∃ position, compileSource text = .error (.literalOutOfRange (some position)) := by
  cases encoded : (tokenize text).tokens.mapM Token.encode with
  | ok words =>
      obtain ⟨others, stand', encodable, -⟩ := mapM_encode_eq_ok_iff.mp encoded
      obtain rfl := Option.some.inj (stand.symm.trans stand')
      exact absurd encodable large
  | error diagnostic =>
      have failed := encoded
      rw [divides.tokens] at failed
      obtain ⟨place, rfl⟩ := Piece.exists_position_of_mapM_encode_eq_error divides.valid failed
      refine ⟨place, ?_⟩
      rw [compileSource_eq, TokenStream.encode_eq_error_iff.mpr (.inl encoded)]
      rfl

/-- **A source and its listing are translated alike.** Take the listing that pushes the numbers
of a source, names its operators in order and then halts. Either both are translated to the
same bytes, which are printed with just the lines of the listing before their comments from
any address on that does not run into addresses of too many digits, or both are refused for
a literal out of range. -/
theorem compileSource_agrees (lexed : allTokens text = .ok tokens) :
    ∃ entries, tokens.mapM Token.entry? = some entries ∧
      ((∃ image, compileSource text = .ok image ∧
        (∀ ending ∈ [[], ['\n']], assemble (Calculation.listing entries ending) = .ok image) ∧
        ∀ first : Int,
          (∀ index : Nat, index ≤ entries.length → Text.Writable (first + index)) →
            ∃ shown, disassemble image first = .ok shown ∧
              instructionColumn shown.toList = Calculation.lines entries) ∨
      (∃ position, compileSource text = .error (.literalOutOfRange (some position))) ∧
        ∀ ending ∈ [[], ['\n']], assemble (Calculation.listing entries ending) =
          .error (.literalOutOfRange none)) := by
  obtain ⟨accepted, rfl⟩ := allTokens_eq_ok_iff.mp lexed
  obtain ⟨pieces, left, divides⟩ := (tokenize_eq_readTokens text).2
  have stand := Piece.mapM_entry_tokens .start divides.valid
  rw [← divides.tokens] at stand
  have natural := @natural_of_pieces pieces
  refine ⟨_, stand, ?_⟩
  by_cases encodable : ∀ entry ∈ pieces.filterMap Piece.meaning?, entry.instruction.Encodable
  · exact .inl ⟨_, compileSource_of_encodable accepted stand encodable,
      fun ending isEnding => assemble_listing natural encodable isEnding,
      fun _ => exists_disassemble_programBytes encodable⟩
  · exact .inr ⟨compileSource_of_not_encodable divides stand encodable,
      fun ending isEnding => assemble_listing_of_not_encodable natural encodable isEnding⟩

/-- The sum of two and three, as a source and as a listing. -/
theorem compileSource_agrees_of_sum :
    allTokens ['2', ' ', '3', '+'] = .ok [.number 2 (some ⟨0, 1, 1⟩), .number 3 (some ⟨2, 1, 3⟩),
        .operator "+" (some ⟨3, 1, 4⟩)] ∧
      ∃ image, compileSource ['2', ' ', '3', '+'] = .ok image ∧
        assemble "push 2\npush 3\nadd\nhalt\n".toList = .ok image := by
  have lexed : allTokens ['2', ' ', '3', '+'] = .ok [.number 2 (some ⟨0, 1, 1⟩),
      .number 3 (some ⟨2, 1, 3⟩), .operator "+" (some ⟨3, 1, 4⟩)] := rfl
  obtain ⟨entries, stand, agree⟩ := compileSource_agrees lexed
  obtain rfl := Option.some.inj stand
  have written : Calculation.listing [.number 2, .number 3, .operator .add] ['\n'] =
      "push 2\npush 3\nadd\nhalt\n".toList := by decide
  rcases agree with ⟨image, compiled, assembled, -⟩ | ⟨⟨position, refused⟩, -⟩
  · rw [← written]
    exact ⟨lexed, image, compiled, assembled ['\n'] (by simp)⟩
  · have compiled : compileSource ['2', ' ', '3', '+'] =
        .ok [0, 0, 0, 2, 0, 0, 0, 3, 0x40, 0, 0, 1, 0x40, 0, 0, 0] := rfl
    rw [compiled] at refused
    cases refused

end ReversePolish
