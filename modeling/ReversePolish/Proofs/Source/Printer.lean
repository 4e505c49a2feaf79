import ReversePolish.Proofs.Source.Leftmost
import ReversePolish.Source.Printer

/-! # What programs there are

The words of a program are those of the entries of a calculation, and a halt
(`exists_entries_iff`). Any such words are read back from the source that they are written
as: a space ends every number, and keeps one slash from another
(`exists_tokens_of_entries`). So these words, and no others, are what sources are compiled
to (`exists_compileSource_iff`).
-/

namespace ReversePolish

variable {word : Int} {words : List Int} {entry : Entry} {entries : List Entry}

theorem isTokenWord_toWord (encodable : entry.instruction.Encodable) :
    IsTokenWord entry.instruction.toWord := by
  cases entry with
  | number value =>
      rw [show (Entry.number value).instruction.toWord = value from toWord_push encodable]
      exact .inl encodable
  | operator applied => cases applied <;> decide

theorem exists_entry_of_isTokenWord (isTokenWord : IsTokenWord word) :
    ∃ entry : Entry, entry.instruction.Encodable ∧ entry.instruction.toWord = word := by
  rcases isTokenWord with literal | primitive
  · exact ⟨.number word, literal, toWord_push literal⟩
  · have operator (applied : Operator) :
        (Entry.operator applied).instruction.Encodable := Instruction.encodable_primitive _
    simp only [List.mem_cons, List.not_mem_nil, or_false] at primitive
    rcases primitive with rfl | rfl | rfl | rfl
    · exact ⟨.operator .add, operator _, rfl⟩
    · exact ⟨.operator .sub, operator _, rfl⟩
    · exact ⟨.operator .mul, operator _, rfl⟩
    · exact ⟨.operator .div, operator _, rfl⟩

/-- Words that stand for tokens are the words of a calculation. -/
theorem exists_entries_iff :
    (∀ word ∈ words, IsTokenWord word) ↔
      ∃ entries, (∀ entry ∈ entries, entry.instruction.Encodable) ∧
        Calculation.words entries = words := by
  constructor
  · intro standing
    induction words with
    | nil => exact ⟨[], by simp, rfl⟩
    | cons word rest ih =>
        obtain ⟨stands, rest_standing⟩ := List.forall_mem_cons.mp standing
        obtain ⟨entry, encodable, rfl⟩ := exists_entry_of_isTokenWord stands
        obtain ⟨entries, all_encodable, rfl⟩ := ih rest_standing
        exact ⟨entry :: entries, List.forall_mem_cons.mpr ⟨encodable, all_encodable⟩, rfl⟩
  · rintro ⟨entries, encodable, rfl⟩
    rw [Calculation.words, List.forall_mem_map]
    exact fun entry member => isTokenWord_toWord (encodable entry member)

/-! ## Reading a written program -/

theorem sourceWord_number {value : Nat} (encodable : (Entry.number value).instruction.Encodable) :
    sourceWord (Entry.number value).instruction.toWord = Nat.toDigits 10 value := by
  rw [sourceWord, decode_toWord encodable]
  rfl

theorem sourceWord_operator (applied : Operator) :
    sourceWord (Entry.operator applied).instruction.toWord = [applied.symbol] := by
  have encodable : (Entry.operator applied).instruction.Encodable :=
    Instruction.encodable_primitive _
  rw [sourceWord, decode_toWord encodable]
  rfl

/-- The digits of a literal stand for it. -/
theorem literalValue_toDigits {value : Nat} (small : value < literalLimit) :
    literalValue (Nat.toDigits 10 value) = value := by
  have spelled : decimalValue (Nat.toDigits 10 value) = value :=
    Nat.ofDigitChars_toDigits (by decide) (by decide)
  rw [literalValue_of_lt (spelled.symm ▸ small), spelled]

/-- A written word is read as a token of its entry, if a blank or nothing follows it. -/
theorem exists_token_of_entry (encodable : entry.instruction.Encodable) (position : Position)
    (rest : List Char) (ends : ∀ char ∈ rest.head?, isSourceBlank char) :
    ∃ token place, token.entry? = some entry ∧
      readTokens position (sourceWord entry.instruction.toWord ++ rest) =
        (readTokens place rest).cons token := by
  cases entry with
  | number value =>
      obtain ⟨value, rfl⟩ := Int.eq_ofNat_of_zero_le encodable.1
      have notDigit (char : Char) (head : char ∈ rest.head?) : ¬ char.isDigit :=
        not_isDigit_of_isSourceBlank (ends char head)
      have digits : ∀ digit ∈ Nat.toDigits 10 value, digit.isDigit :=
        fun digit member => Nat.isDigit_of_mem_toDigits (by decide) (by decide) member
      refine ⟨.number (literalValue (Nat.toDigits 10 value)) (some position),
        position.past (Nat.toDigits 10 value), ?_, ?_⟩
      · rw [literalValue_toDigits (Int.ofNat_lt.mp encodable.2)]
        rfl
      · rw [sourceWord_number encodable]
        exact readTokens_of_digits Nat.toDigits_ne_nil digits notDigit
  | operator applied =>
      have single : ¬ (applied.symbol = '/' ∧ rest.head? = some '/') := by
        rintro ⟨-, head⟩
        exact absurd (ends '/' head) (by decide)
      have symbol : isOperatorSymbol applied.symbol := by cases applied <;> decide
      refine ⟨.operator applied.symbol.toString (some position),
        position.advance applied.symbol, Token.entry?_symbol applied _, ?_⟩
      rw [sourceWord_operator]
      exact readTokens_of_symbol symbol single

theorem sourceOf_singleton (word : Int) : sourceOf [word] = sourceWord word := by
  rw [sourceOf, List.map_singleton, List.intercalate_singleton]

theorem sourceOf_cons_cons (word second : Int) (others : List Int) :
    sourceOf (word :: second :: others) =
      sourceWord word ++ ' ' :: sourceOf (second :: others) := by
  rw [sourceOf, List.map_cons, List.map_cons, List.intercalate_cons_cons, List.append_assoc,
    ← List.map_cons, ← sourceOf]
  rfl

/-- Behind a word, a source ends or goes on with a space. -/
theorem exists_rest_of_sourceOf (word : Int) (others : List Int) :
    ∃ rest, sourceOf (word :: others) = sourceWord word ++ rest ∧
      (∀ char ∈ rest.head?, isSourceBlank char) ∧
      ∀ position, ∃ place, readTokens position rest = readTokens place (sourceOf others) := by
  cases others with
  | nil =>
      refine ⟨[], ?_, by simp, fun position => ⟨position, rfl⟩⟩
      rw [sourceOf_singleton, List.append_nil]
  | cons second others =>
      refine ⟨' ' :: sourceOf (second :: others), sourceOf_cons_cons word second others, ?_,
        fun position => ⟨position.advance ' ', readTokens_of_blank (by decide)⟩⟩
      intro char head
      obtain rfl : ' ' = char := Option.some.inj head
      decide

/-- **A written calculation is read back**, entry by entry. -/
theorem exists_tokens_of_entries (encodable : ∀ entry ∈ entries, entry.instruction.Encodable)
    (position : Position) :
    ∃ tokens, readTokens position (sourceOf (Calculation.words entries)) = ⟨tokens, none⟩ ∧
      tokens.mapM Token.entry? = some entries := by
  induction entries generalizing position with
  | nil => exact ⟨[], readTokens.eq_1 position, rfl⟩
  | cons entry rest ih =>
      obtain ⟨encodable_first, encodable_rest⟩ := List.forall_mem_cons.mp encodable
      obtain ⟨later, text_eq, ends, reads⟩ :=
        exists_rest_of_sourceOf entry.instruction.toWord (Calculation.words rest)
      obtain ⟨token, place, stands, read_first⟩ :=
        exists_token_of_entry encodable_first position later ends
      obtain ⟨next, read_later⟩ := reads place
      obtain ⟨tokens, read_rest, stand⟩ := ih encodable_rest next
      refine ⟨token :: tokens, ?_, mapM_cons_eq_some_iff.mpr ⟨_, _, stands, stand, rfl⟩⟩
      rw [Calculation.words, List.map_cons, ← Calculation.words, text_eq, read_first, read_later,
        read_rest]
      rfl

/-- A written program is compiled to its words and a halt. -/
theorem compileSource_sourceOf (standing : ∀ word ∈ words, IsTokenWord word) :
    compileSource (sourceOf words) = .ok (programBytes words) := by
  obtain ⟨entries, encodable, rfl⟩ := exists_entries_iff.mp standing
  obtain ⟨tokens, read, stand⟩ := exists_tokens_of_entries encodable .start
  rw [← tokenize_eq] at read
  refine compileSource_of_encodable ?_ ?_ encodable
  · rw [read]
  · rw [read]
    exact stand

/-- What a source is compiled to are words that stand for tokens, and a halt. -/
theorem exists_words_of_compileSource {text : List Char} {image : Bytes}
    (compiled : compileSource text = .ok image) :
    ∃ words, (∀ word ∈ words, IsTokenWord word) ∧ image = programBytes words ∧
      Bytecode.unpack image = .ok (words ++ [haltWord]) := by
  rw [compileSource_eq] at compiled
  obtain ⟨words, encoded, rfl⟩ := map_eq_ok_iff.mp compiled
  have encoded := (TokenStream.encode_eq_ok_iff.mp encoded).1
  have packed := pack_of_encoded encoded
  obtain ⟨entries, -, encodable, same⟩ := mapM_encode_eq_ok_iff.mp encoded
  exact ⟨words, exists_entries_iff.mpr ⟨entries, encodable, same⟩, rfl,
    Bytecode.unpack_eq_ok_iff.mpr packed⟩

/-- **What sources are compiled to.** Bytes are those of a compiled source exactly when they
spell words that stand for tokens, and a halt after them; and such words are what the text is
compiled to that they are written as. So a program has one halt, which is its last word, and
no word of it is reserved or says nothing. -/
theorem exists_compileSource_iff :
    (∀ image, (∃ text, compileSource text = .ok image) ↔
      ∃ words, (∀ word ∈ words, IsTokenWord word) ∧
        image = Bytecode.spell (words ++ [0x40000000])) ∧
    (∀ words, (∀ word ∈ words, IsTokenWord word) →
      compileSource (sourceOf words) = .ok (Bytecode.spell (words ++ [0x40000000]))) ∧
    ∀ text image, compileSource text = .ok image →
      ∃ words, Bytecode.unpack image = .ok (words ++ [haltWord]) ∧ haltWord ∉ words ∧
        ∀ word ∈ words ++ [haltWord], ∃ instruction, decode word = .ok instruction ∧
          instruction.tag ≠ .negative := by
  refine ⟨fun image => ⟨?_, ?_⟩, fun words => compileSource_sourceOf, ?_⟩
  · rintro ⟨text, compiled⟩
    obtain ⟨words, standing, image_eq, -⟩ := exists_words_of_compileSource compiled
    exact ⟨words, standing, image_eq⟩
  · rintro ⟨words, standing, rfl⟩
    exact ⟨_, compileSource_sourceOf standing⟩
  · intro text image compiled
    obtain ⟨words, standing, -, unpacked⟩ := exists_words_of_compileSource compiled
    obtain ⟨entries, encodable, rfl⟩ := exists_entries_iff.mp standing
    refine ⟨_, unpacked, ?_, ?_⟩
    · intro member
      obtain ⟨entry, inEntries, same⟩ := List.mem_map.mp member
      exact Entry.toWord_ne_haltWord (encodable entry inEntries) same
    · rw [List.forall_mem_append, Calculation.words, List.forall_mem_map,
        List.forall_mem_singleton]
      refine ⟨fun entry member => ⟨_, decode_toWord (encodable entry member), ?_⟩,
        ⟨_, decode_toWord (Instruction.encodable_primitive .halt), by decide⟩⟩
      cases entry <;> simp [Entry.instruction, Instruction.tag]

/-- Two slashes in a row are divisions, not a comment. -/
example : sourceOf [8, 0x40000004, 0x40000004] = ['8', ' ', '/', ' ', '/'] := by decide

end ReversePolish
