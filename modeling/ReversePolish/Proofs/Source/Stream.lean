import ReversePolish.Proofs.Source.Encoding

/-! # The words of a token stream

A source compiles to the words of its token stream and a halt (`compileSource_eq`). Packing
them never fails, so that what is wrong with a source is wrong with one of its tokens or
with what ends them (`TokenStream.encode_eq_error_iff`).
-/

namespace ReversePolish

variable {stream : TokenStream} {tokens : List Token} {words : List Int} {diagnostic : Diagnostic}

/-- The words of the tokens of a stream. The first token that has no word is at fault; if
there is none, what ends the stream is. -/
def TokenStream.encode (stream : TokenStream) : Except Diagnostic (List Int) := do
  let words ← stream.tokens.mapM Token.encode
  match stream.failure with
  | some diagnostic => throw diagnostic
  | none => return words

theorem TokenStream.encode_eq_ok_iff :
    stream.encode = .ok words ↔
      stream.tokens.mapM Token.encode = .ok words ∧ stream.failure = none := by
  rw [encode, bind_eq_ok_iff]
  cases stream.failure <;> simp [pure, Except.pure, throw, throwThe, MonadExceptOf.throw]

theorem TokenStream.encode_eq_error_iff :
    stream.encode = .error diagnostic ↔
      stream.tokens.mapM Token.encode = .error diagnostic ∨
        (∃ words, stream.tokens.mapM Token.encode = .ok words) ∧
          stream.failure = some diagnostic := by
  rw [encode, bind_eq_error_iff]
  cases stream.failure <;> simp [pure, Except.pure, throw, throwThe, MonadExceptOf.throw]

theorem withHalt_of_encoded (encoded : tokens.mapM Token.encode = .ok words) :
    withHalt words = words ++ [haltWord] := by
  obtain ⟨entries, -, encodable, rfl⟩ := mapM_encode_eq_ok_iff.mp encoded
  exact withHalt_words encodable

/-- The words of a program fit: each is made of a tag and a payload. -/
theorem fits_words (entries : List Entry) :
    ∀ word ∈ Calculation.words entries ++ [haltWord], Word.Fits word := by
  rw [List.forall_mem_append, Calculation.words, List.forall_mem_map, List.forall_mem_singleton]
  exact ⟨fun entry _ => Word.fits_make _ _, Word.fits_make _ _⟩

theorem pack_of_encoded (encoded : tokens.mapM Token.encode = .ok words) :
    Bytecode.pack (words ++ [haltWord]) = .ok (Bytecode.spell (words ++ [haltWord])) := by
  obtain ⟨entries, -, -, rfl⟩ := mapM_encode_eq_ok_iff.mp encoded
  exact Bytecode.pack_of_fits (fits_words entries)

/-- The bytes of a program with the given words, closed by a halt. -/
def programBytes (words : List Int) : Bytes := Bytecode.spell (words ++ [haltWord])

/-- **A source compiles to the bytes of its words and a halt**, whenever it has words. -/
theorem compileSource_eq (text : List Char) :
    compileSource text = programBytes <$> (tokenize text).encode := by
  rw [compileSource, compileWords, TokenStream.encode]
  cases encoded : (tokenize text).tokens.mapM Token.encode with
  | error diagnostic => rfl
  | ok words =>
      cases (tokenize text).failure with
      | some diagnostic => rfl
      | none =>
          show packWords (withHalt words) = Except.ok (programBytes words)
          rw [withHalt_of_encoded encoded, packWords, pack_of_encoded encoded]
          rfl

/-- If every literal is in range, a source is compiled to the program. -/
theorem compileSource_of_encodable {text : List Char} {entries : List Entry}
    (accepted : (tokenize text).failure = none)
    (stand : (tokenize text).tokens.mapM Token.entry? = some entries)
    (encodable : ∀ entry ∈ entries, entry.instruction.Encodable) :
    compileSource text = .ok (programBytes (Calculation.words entries)) := by
  have encoded := mapM_encode_eq_ok_iff.mpr ⟨_, stand, encodable, rfl⟩
  rw [compileSource_eq, TokenStream.encode_eq_ok_iff.mpr ⟨encoded, accepted⟩]
  rfl

end ReversePolish
