import Mathlib.Data.List.Infix
import ReversePolish.Proofs.Source.Concatenation
import ReversePolish.Proofs.Source.Places

/-! # Where a text can be divided

A point of a text is a boundary if no comment, no run of digits and no pair of slashes is cut
there (`Boundary`). The text before a boundary is read as if it ended there, and what follows
is read from its place on (`Boundary.readTokens_append`). Whatever reading comes to stands
at a boundary: each token, and the character that it fails at (`readTokens_atBoundaries`).
-/

namespace ReversePolish

variable {before later rest digits piece text : List Char} {char : Char} {position : Position}

/-! ## Texts that leave no comment open -/

/-- A text that does not end inside a comment: two slashes in a row have a line feed behind
them. -/
def EndsOutsideComment (text : List Char) : Prop :=
  ∀ rest, '/' :: '/' :: rest <:+ text → '\n' ∈ rest

/-- With its last character a text opens a comment, or goes on with one. -/
theorem opened_concat (opened : '/' :: '/' :: rest <:+ before ++ [char]) :
    before.getLast? = some '/' ∧ char = '/' ∨
      ∃ kept, rest = kept ++ [char] ∧ '/' :: '/' :: kept <:+ before := by
  rcases List.suffix_concat_iff.mp opened with none | ⟨kept, split, ends⟩
  · cases none
  · match kept with
    | [] => cases split
    | [slash] =>
        obtain ⟨rfl, rfl, -⟩ : '/' = slash ∧ '/' = char ∧ rest = [] := by simpa using split
        exact .inl ⟨List.singleton_suffix_iff_getLast?_eq_some.mp ends, rfl⟩
    | first :: second :: kept =>
        obtain ⟨rfl, rfl, rfl⟩ : '/' = first ∧ '/' = second ∧ rest = kept ++ [char] := by
          simpa using split
        exact .inr ⟨kept, rfl, ends⟩

namespace EndsOutsideComment

theorem concat (outside : EndsOutsideComment before)
    (single : ¬ (before.getLast? = some '/' ∧ char = '/')) :
    EndsOutsideComment (before ++ [char]) := by
  intro rest opened
  rcases opened_concat opened with pair | ⟨kept, rfl, within⟩
  · exact absurd pair single
  · exact List.mem_append_left _ (outside kept within)

theorem append (outside : EndsOutsideComment before) (noSlash : '/' ∉ piece) :
    EndsOutsideComment (before ++ piece) := by
  induction piece using List.reverseRecOn with
  | nil => rwa [List.append_nil]
  | append_singleton piece char ih =>
      rw [List.mem_append, List.mem_singleton, not_or] at noSlash
      rw [← List.append_assoc]
      exact (ih noSlash.1).concat fun pair => noSlash.2 pair.2.symm

/-- Behind a line feed no comment is open. -/
theorem feed (before : List Char) : EndsOutsideComment (before ++ ['\n']) := by
  intro rest opened
  rcases opened_concat opened with ⟨-, isSlash⟩ | ⟨kept, rfl, -⟩
  · exact absurd isSlash (by decide)
  · exact List.mem_append_right _ List.mem_cons_self

end EndsOutsideComment

/-! ## Boundaries -/

/-- A point of a text at which neither a comment nor a run of digits nor a pair of slashes is
cut. -/
structure Boundary (before later : List Char) : Prop where
  outside : EndsOutsideComment before
  digits : Seam before later
  slashes : ¬ (before.getLast? = some '/' ∧ later.head? = some '/')

namespace Boundary

theorem nil (later : List Char) : Boundary [] later where
  outside rest opened := by simp at opened
  digits := by simp [Seam]
  slashes := by simp

/-- Only the first character behind a boundary matters. -/
theorem of_head (boundary : Boundary before (char :: rest)) (later : List Char) :
    Boundary before (char :: later) where
  outside := boundary.outside
  digits := boundary.digits
  slashes := boundary.slashes

/-- A boundary of a text is one of what is left of the text. -/
theorem of_append (boundary : Boundary (piece ++ before) later) : Boundary before later where
  outside rest opened := boundary.outside rest (opened.trans (List.suffix_append piece before))
  digits last ends := boundary.digits last (List.mem_getLast?_append_of_mem_getLast? ends)
  slashes pair :=
    boundary.slashes ⟨List.mem_getLast?_append_of_mem_getLast? pair.1, pair.2⟩

theorem of_cons (boundary : Boundary (char :: before) later) : Boundary before later := by
  rw [← List.singleton_append] at boundary
  exact boundary.of_append

/-! ### Each piece leads to a boundary -/

theorem concat (boundary : Boundary before (char :: rest)) (notDigit : ¬ char.isDigit)
    (single : ¬ (char = '/' ∧ rest.head? = some '/')) : Boundary (before ++ [char]) rest where
  outside := by
    refine boundary.outside.concat ?_
    rintro ⟨last, rfl⟩
    exact boundary.slashes ⟨last, rfl⟩
  digits := seam_append_singleton before rest notDigit
  slashes := by rwa [List.getLast?_concat, Option.some.injEq]

theorem append_digits (boundary : Boundary before (digits ++ later)) (nonempty : digits ≠ [])
    (inside : ∀ char ∈ digits, char.isDigit) (ends : ∀ char ∈ later.head?, ¬ char.isDigit) :
    Boundary (before ++ digits) later := by
  have noSlash : '/' ∉ digits := fun slash => absurd (inside '/' slash) (by decide)
  refine ⟨boundary.outside.append noSlash, fun _ _ _ => ends, ?_⟩
  rintro ⟨last, -⟩
  rw [List.getLast?_append_of_ne_nil before nonempty] at last
  exact noSlash (List.mem_of_getLast? last)

theorem append_feed (before later : List Char) : Boundary (before ++ ['\n']) later where
  outside := .feed before
  digits := seam_append_singleton before later (by decide)
  slashes := by simp

/-! ### Reading on behind a boundary -/

/-- A run of digits before a boundary is not taken on behind it. -/
theorem ends_of_digits (boundary : Boundary (digits ++ before) later) (nonempty : digits ≠ [])
    (inside : ∀ char ∈ digits, char.isDigit) (ends : ∀ char ∈ before.head?, ¬ char.isDigit) :
    ∀ char ∈ (before ++ later).head?, ¬ char.isDigit := by
  cases before with
  | nil =>
      rw [List.append_nil] at boundary
      have last := List.getLast_mem nonempty
      exact boundary.digits _ (List.getLast?_eq_some_getLast nonempty) (inside _ last)
  | cons next rest => exact ends

/-- **A text before a boundary is read as if it ended there**, and reading goes on behind the
boundary unless it has failed before. -/
theorem readTokens_append (position : Position) (boundary : Boundary before later) :
    readTokens position (before ++ later) =
      (readTokens position before).append (readTokens (position.past before) later) := by
  induction position, before using readTokens.induct with
  | case1 position =>
      rw [readTokens]
      rfl
  | case2 position char rest blank ih =>
      rw [List.cons_append, readTokens_of_blank blank, readTokens_of_blank blank,
        ih boundary.of_cons]
      rfl
  | case3 position char rest _ pair comment ih =>
      obtain ⟨rfl, second⟩ := pair
      obtain ⟨tail, rfl⟩ : ∃ tail, rest = '/' :: tail := List.head?_eq_some_iff.mp second
      -- The boundary is outside comments, so this one ends before it.
      have feed := boundary.outside tail (List.suffix_refl _)
      obtain ⟨body, left, inLine, split, (line : comment = _)⟩ := exists_line_of_comment feed
      rw [line, split, List.drop_left] at ih
      rw [split] at boundary
      rw [split, List.append_assoc, readTokens_of_line inLine, readTokens_of_line inLine,
        ih boundary.of_append, Position.past_append]
  | case4 position char rest _ _ digit digits ih =>
      have inside : ∀ digit ∈ digits, digit.isDigit :=
        List.forall_mem_cons.mpr ⟨digit, List.all_eq_true.mp List.all_takeWhile⟩
      have nonempty : digits ≠ [] := List.cons_ne_nil _ _
      have ends := not_isDigit_of_mem_head?_dropWhile rest
      have whole : char :: rest = digits ++ rest.dropWhile Char.isDigit :=
        congrArg _ List.takeWhile_append_dropWhile.symm
      rw [whole] at boundary ⊢
      rw [List.append_assoc,
        readTokens_of_digits nonempty inside (boundary.ends_of_digits nonempty inside ends),
        readTokens_of_digits nonempty inside ends, ih boundary.of_append, TokenStream.append_cons,
        Position.past_append]
  | case5 position char rest _ single _ symbol ih =>
      have stillSingle : ¬ (char = '/' ∧ (rest ++ later).head? = some '/') := by
        rintro ⟨rfl, pair⟩
        cases rest with
        | nil => exact boundary.slashes ⟨rfl, pair⟩
        | cons next rest => exact single ⟨rfl, pair⟩
      rw [List.cons_append, readTokens_of_symbol symbol stillSingle,
        readTokens_of_symbol symbol single, ih boundary.of_cons, TokenStream.append_cons]
      rfl
  | case6 position char rest notBlank _ notDigit notSymbol =>
      rw [List.cons_append, readTokens_of_other notBlank notDigit notSymbol,
        readTokens_of_other notBlank notDigit notSymbol]
      rfl

end Boundary

/-! ## What stands at boundaries -/

/-- A token that starts at a boundary of a text. -/
inductive Token.AtBoundary (text : List Char) : Token → Prop where
  | number {before digits later : List Char} (split : text = before ++ (digits ++ later))
      (boundary : Boundary before (digits ++ later)) (nonempty : digits ≠ [])
      (inside : ∀ char ∈ digits, char.isDigit) (ends : ∀ char ∈ later.head?, ¬ char.isDigit) :
      AtBoundary text (.number (literalValue digits) (some (.after before)))
  | operator {before later : List Char} {char : Char} (split : text = before ++ char :: later)
      (boundary : Boundary before (char :: later)) (symbol : isOperatorSymbol char) :
      AtBoundary text (.operator char.toString (some (.after before)))

/-- A character that stands at no place of a source outside comments. -/
structure StartsNothing (char : Char) : Prop where
  notBlank : ¬ isSourceBlank char
  notDigit : ¬ char.isDigit
  notSymbol : ¬ isOperatorSymbol char

/-- A failure at a boundary of a text, where a character stands that starts nothing. -/
inductive Diagnostic.AtBoundary (text : List Char) : Diagnostic → Prop where
  | unexpectedCharacter {before later : List Char} {char : Char}
      (split : text = before ++ char :: later) (boundary : Boundary before (char :: later))
      (startsNothing : StartsNothing char) :
      AtBoundary text (.unexpectedCharacter (.after before) char)

/-- A stream of which everything stands at a boundary of a text. -/
structure TokenStream.AtBoundaries (text : List Char) (stream : TokenStream) : Prop where
  tokens : ∀ token ∈ stream.tokens, token.AtBoundary text
  failure : ∀ diagnostic ∈ stream.failure, diagnostic.AtBoundary text

namespace TokenStream.AtBoundaries

variable {stream : TokenStream}

theorem nil (text : List Char) : AtBoundaries text ⟨[], none⟩ := ⟨by simp, by simp⟩

theorem cons {token : Token} (first : token.AtBoundary text) (others : AtBoundaries text stream) :
    AtBoundaries text (stream.cons token) where
  tokens := List.forall_mem_cons.mpr ⟨first, others.tokens⟩
  failure := others.failure

end TokenStream.AtBoundaries

/-- **What is read behind a boundary stands at boundaries**, the tokens and the failure. -/
theorem readTokens_atBoundaries (position : Position) (later : List Char) :
    ∀ before, position = .after before → Boundary before later →
      (readTokens position later).AtBoundaries (before ++ later) := by
  induction position, later using readTokens.induct with
  | case1 position =>
      intro before reached boundary
      rw [readTokens]
      exact .nil _
  | case2 position char rest blank ih =>
      intro before reached boundary
      subst reached
      have notSlash : char ≠ '/' := by
        rintro rfl
        exact absurd blank (by decide)
      have next := boundary.concat (not_isDigit_of_isSourceBlank blank) (notSlash ·.1)
      have found := ih _ (Position.after_append_singleton before char).symm next
      rw [readTokens_of_blank blank]
      rwa [List.append_assoc] at found
  | case3 position char rest _ pair comment ih =>
      intro before reached boundary
      subst reached
      obtain ⟨rfl, second⟩ := pair
      obtain ⟨tail, rfl⟩ : ∃ tail, rest = '/' :: tail := List.head?_eq_some_iff.mp second
      by_cases feed : '\n' ∈ tail
      · obtain ⟨body, left, inLine, split, (line : comment = _)⟩ := exists_line_of_comment feed
        have next := Boundary.append_feed (before ++ '/' :: '/' :: body) left
        rw [line, split, List.drop_left] at ih
        have found := ih (before ++ '/' :: '/' :: (body ++ ['\n']))
          (Position.after_append _ _).symm (by simpa using next)
        rw [split, readTokens_of_line inLine]
        rwa [List.append_assoc] at found
      · -- A comment up to the end of the text leaves nothing to be read.
        have inComment : '\n' ∉ '/' :: '/' :: tail := by simp [feed]
        rw [readTokens_of_comment, readPastComment, commentAtFront_of_not_mem inComment,
          List.drop_length, readTokens]
        exact .nil _
  | case4 position char rest _ _ digit digits ih =>
      intro before reached boundary
      subst reached
      have inside : ∀ digit ∈ digits, digit.isDigit :=
        List.forall_mem_cons.mpr ⟨digit, List.all_eq_true.mp List.all_takeWhile⟩
      have nonempty : digits ≠ [] := List.cons_ne_nil _ _
      have ends := not_isDigit_of_mem_head?_dropWhile rest
      have whole : char :: rest = digits ++ rest.dropWhile Char.isDigit :=
        congrArg _ List.takeWhile_append_dropWhile.symm
      rw [whole] at boundary
      have found := ih _ (Position.after_append before digits).symm
        (boundary.append_digits nonempty inside ends)
      rw [List.append_assoc] at found
      rw [readTokens_of_digit digit, whole]
      exact found.cons (.number rfl boundary nonempty inside ends)
  | case5 position char rest _ single _ symbol ih =>
      intro before reached boundary
      subst reached
      have next := boundary.concat (not_isDigit_of_isOperatorSymbol symbol) single
      have found := ih _ (Position.after_append_singleton before char).symm next
      rw [List.append_assoc] at found
      rw [readTokens_of_symbol symbol single]
      exact found.cons (.operator rfl boundary symbol)
  | case6 position char rest notBlank _ notDigit notSymbol =>
      intro before reached boundary
      subst reached
      rw [readTokens_of_other notBlank notDigit notSymbol]
      refine ⟨by simp, ?_⟩
      intro diagnostic failed
      obtain rfl := Option.some.inj failed
      exact .unexpectedCharacter rfl boundary ⟨notBlank, notDigit, notSymbol⟩

theorem tokenize_atBoundaries (text : List Char) : (tokenize text).AtBoundaries text := by
  rw [tokenize_eq]
  exact readTokens_atBoundaries .start text [] rfl (.nil text)

end ReversePolish
