import ReversePolish.Calculation
import ReversePolish.Proofs.Instruction.Bytecode
import ReversePolish.Proofs.Instruction.Codec
import ReversePolish.Source.Encoding

/-! # What a source compiles to

A token that has a word stands for an entry of a calculation, and its word is the word
of the entry's instruction (`Token.encode_eq_ok_iff`). None of these words stops the
machine, so that a source compiles to the words of its entries and one halt after them
(`compileSource_eq_ok_iff`).
-/

namespace ReversePolish

/-- The instruction that does for the machine what an entry does for a calculation. -/
def Entry.instruction : Entry → Instruction
  | number value => .push value
  | operator applied => .primitive (.arithmetic applied)

/-- The words of a calculation, without a halt. -/
def Calculation.words (entries : List Entry) : List Int :=
  entries.map fun entry => entry.instruction.toWord

/-- No entry stops the machine. -/
theorem Entry.toWord_ne_haltWord {entry : Entry} (encodable : entry.instruction.Encodable) :
    entry.instruction.toWord ≠ haltWord := by
  intro same
  have halts := eq_of_toWord_eq encodable (Instruction.encodable_primitive .halt) same
  cases entry <;> simp [Entry.instruction] at halts

variable {text : List Char} {tokens : List Token} {words : List Int} {image : Bytes}

/-- **A symbol stands for the operator that it is encoded as.** -/
theorem Token.entry?_operator (symbol : String) (position : Option Position) :
    Token.entry? (.operator symbol position) = (Operator.ofSymbol? symbol).map .operator := by
  unfold Token.entry?
  split
  · next same => cases same
  -- The symbols of the four operators, one after the other.
  iterate 4
    · next same =>
        cases same
        decide
  · next add sub mul div same =>
      obtain ⟨rfl, rfl⟩ := Token.operator.inj same
      have unknown : Operator.ofSymbol? symbol = none := by
        refine List.find?_eq_none.mpr fun operator _ found => ?_
        have spelled := of_decide_eq_true found
        cases operator with
        | add => exact add spelled
        | sub => exact sub spelled
        | mul => exact mul spelled
        | div => exact div spelled
      rw [unknown, Option.map_none]

theorem Token.entry?_symbol (operator : Operator) (position : Option Position) :
    Token.entry? (.operator operator.symbol.toString position) = some (.operator operator) := by
  cases operator <;> rfl

/-- The words of tokens are the words of what they stand for. -/
theorem Token.encode_eq_ok_iff {token : Token} {word : Int} :
    token.encode = .ok word ↔
      ∃ entry, token.entry? = some entry ∧ entry.instruction.Encodable ∧
        entry.instruction.toWord = word := by
  cases token with
  | number value position =>
      rw [Token.encode, Token.entry?]
      simp only [Option.some.injEq, exists_eq_left', Entry.instruction,
        ← encodeLiteral?_eq_some_iff]
      cases encodeLiteral? value <;> simp
  | operator symbol position =>
      rw [Token.encode, Token.entry?_operator]
      cases Operator.ofSymbol? symbol with
      | none => simp
      | some applied =>
          have encodable := Instruction.encodable_primitive (.arithmetic applied)
          simp [Entry.instruction, encodable]

theorem mapM_encode_eq_ok_iff :
    tokens.mapM Token.encode = .ok words ↔
      ∃ entries, tokens.mapM Token.entry? = some entries ∧
        (∀ entry ∈ entries, entry.instruction.Encodable) ∧ Calculation.words entries = words := by
  induction tokens generalizing words with
  | nil => simp [pure, Except.pure, Calculation.words, eq_comm]
  | cons token rest ih =>
      constructor
      · intro encoded
        obtain ⟨word, others, found, found_rest, rfl⟩ := mapM_cons_eq_ok_iff.mp encoded
        obtain ⟨entry, stands, encodable, rfl⟩ := Token.encode_eq_ok_iff.mp found
        obtain ⟨entries, stand, all_encodable, rfl⟩ := ih.mp found_rest
        refine ⟨entry :: entries, ?_, List.forall_mem_cons.mpr ⟨encodable, all_encodable⟩, rfl⟩
        exact mapM_cons_eq_some_iff.mpr ⟨entry, entries, stands, stand, rfl⟩
      · intro entered
        obtain ⟨entries, stand, all_encodable, rfl⟩ := entered
        obtain ⟨entry, others, stands, stand_rest, rfl⟩ := mapM_cons_eq_some_iff.mp stand
        obtain ⟨encodable, rest_encodable⟩ := List.forall_mem_cons.mp all_encodable
        exact mapM_cons_eq_ok_iff.mpr
          ⟨_, _, Token.encode_eq_ok_iff.mpr ⟨entry, stands, encodable, rfl⟩,
            ih.mpr ⟨others, stand_rest, rest_encodable, rfl⟩, rfl⟩

/-- Words that do not stop the machine are closed by a halt. -/
theorem withHalt_of_not_mem (absent : haltWord ∉ words) : withHalt words = words ++ [haltWord] := by
  rw [withHalt, if_neg]
  exact fun last => absent (List.mem_of_getLast? last)

/-- The halt that closes a program is never one of its own words. -/
theorem withHalt_words {entries : List Entry}
    (encodable : ∀ entry ∈ entries, entry.instruction.Encodable) :
    withHalt (Calculation.words entries) = Calculation.words entries ++ [haltWord] := by
  apply withHalt_of_not_mem
  intro halts
  obtain ⟨entry, member, same⟩ := List.mem_map.mp halts
  exact Entry.toWord_ne_haltWord (encodable entry member) same

theorem allTokens_eq_ok_iff :
    allTokens text = .ok tokens ↔
      (tokenize text).failure = none ∧ (tokenize text).tokens = tokens := by
  rw [allTokens]
  cases (tokenize text).failure <;> simp

theorem compileWords_eq_ok_iff :
    compileWords text = .ok words ↔
      ∃ tokens encoded, allTokens text = .ok tokens ∧ tokens.mapM Token.encode = .ok encoded ∧
        withHalt encoded = words := by
  simp only [compileWords, bind_eq_ok_iff, allTokens_eq_ok_iff]
  cases (tokenize text).failure with
  | none => simp [pure, Except.pure]
  | some diagnostic => simp [throw, throwThe, MonadExceptOf.throw]

theorem packWords_eq_ok_iff : packWords words = .ok image ↔ Bytecode.unpack image = .ok words := by
  rw [Bytecode.unpack_eq_ok_iff, packWords]
  cases Bytecode.pack words <;> simp

/-- **What a source compiles to**: one word for each token, and a halt. -/
theorem compileSource_eq_ok_iff :
    compileSource text = .ok image ↔
      ∃ tokens entries, allTokens text = .ok tokens ∧ tokens.mapM Token.entry? = some entries ∧
        (∀ entry ∈ entries, entry.instruction.Encodable) ∧
        Bytecode.unpack image = .ok (Calculation.words entries ++ [haltWord]) := by
  simp only [compileSource, bind_eq_ok_iff, compileWords_eq_ok_iff, packWords_eq_ok_iff]
  constructor
  · intro compiled
    obtain ⟨_, ⟨tokens, encoded, lexed, found, rfl⟩, unpacked⟩ := compiled
    obtain ⟨entries, stand, encodable, rfl⟩ := mapM_encode_eq_ok_iff.mp found
    rw [withHalt_words encodable] at unpacked
    exact ⟨tokens, entries, lexed, stand, encodable, unpacked⟩
  · intro translated
    obtain ⟨tokens, entries, lexed, stand, encodable, unpacked⟩ := translated
    rw [← withHalt_words encodable] at unpacked
    exact ⟨_, ⟨tokens, _, lexed, mapM_encode_eq_ok_iff.mpr ⟨entries, stand, encodable, rfl⟩, rfl⟩,
      unpacked⟩

end ReversePolish
