import ReversePolish.Proofs.Listing.Spacing
import ReversePolish.Proofs.Listing.Values

/-! # One listing behind another

A line feed ends whatever a listing ends in, be it a comment, a numeral or a keyword, and lets
a keyword stand behind it. So the phrases of a listing stand unchanged before a separator that
starts with a line feed (`Phrase.AllStand.append`), the gap at the end of the listing and the
separator that ends with a line feed are a gap before the first phrase of another listing
(`Phrase.AllStand.behind`), and the bytes of both listings are those of one
(`assemble_append`). Nothing of this depends on the columns that tabs are expanded to, and
neither does whether a text is assembled (`assemble_respaced`).
-/

namespace ReversePolish

variable {listing other gap more after later tail before otherBefore last otherLast operand sep :
  List Char} {statement : Statement} {statements otherStatements : List Statement}
  {phrase : Phrase} {phrases others : List Phrase}

/-- Blanks and comments between two listings, from a line feed to a line feed. -/
structure Separator (sep : List Char) : Prop where
  isGap : Gap [] sep
  first : sep.head? = some '\n'
  last : sep.getLast? = some '\n'

/-! ## Gaps -/

namespace Gap

/-- A gap that ends in a line feed is a gap before any text. -/
theorem of_last_feed (isGap : Gap after gap) (feed : ∀ char ∈ gap.getLast?, char = '\n')
    (later : List Char) : Gap later gap := by
  induction isGap with
  | empty => exact .empty
  | @blank char gap blank _ ih =>
      refine .blank blank (ih fun char last => feed char ?_)
      rw [Option.mem_def] at last ⊢
      rw [List.getLast?_cons, last, Option.getD_some]
  | @comment body gap inLine ends _ ih =>
      have inLine' : '\n' ∉ '/' :: '/' :: body := by simp [inLine]
      rw [← List.cons_append, ← List.cons_append, List.getLast?_append] at feed
      -- A comment that nothing follows does not end in a line feed.
      cases gap with
      | nil =>
          obtain ⟨char, last⟩ : ∃ char, ('/' :: '/' :: body).getLast? = some char :=
            ⟨_, List.getLast?_cons⟩
          obtain rfl : char = '\n' := feed char last
          exact absurd (List.mem_of_getLast? last) inLine'
      | cons first rest =>
          refine .comment inLine ends (ih fun char last => feed char ?_)
          rw [Option.mem_def] at last ⊢
          rw [last, Option.some_or]

/-- One gap after another is a gap. -/
theorem append (isGap : Gap (more ++ after) gap) (moreGap : Gap after more) :
    Gap after (gap ++ more) := by
  induction isGap with
  | empty => exact moreGap
  | blank blank _ ih => exact .blank blank ih
  | @comment body gap inLine ends _ ih =>
      rw [List.cons_append, List.cons_append, List.append_assoc]
      refine .comment inLine ?_ ih
      rwa [List.append_assoc]

end Gap

/-- A gap at the end of a text and a separator are a gap before any text. -/
theorem Separator.gap_append (separator : Separator sep) (isGap : Gap [] gap)
    (after : List Char) : Gap after (gap ++ sep) := by
  refine Gap.append (isGap.before_feed fun char head => .inr ?_)
    (separator.isGap.of_last_feed ?_ after)
  · rw [List.head?_append, separator.first, Option.some_or] at head
    exact (Option.some.inj head).symm
  · intro char last
    exact Option.some.inj (last.symm.trans separator.last)

/-! ## Phrases before a line feed -/

theorem head?_append_feed (feed : tail.head? = some '\n') :
    ∀ char ∈ (after ++ tail).head?, char ∈ after.head? ∨ char = '\n' := by
  intro char head
  rw [List.head?_append, feed, Option.mem_def, Option.or_eq_some_iff] at head
  rcases head with head | ⟨-, head⟩
  · exact .inl head
  · exact .inr (Option.some.inj head).symm

theorem Statement.Operand.append_feed (isOperand : statement.Operand after operand)
    (feed : tail.head? = some '\n') : statement.Operand (after ++ tail) operand := by
  cases isOperand with
  | op opcode => exact .op opcode
  | push isGap denotes =>
      refine .push (isGap.before_feed ?_) denotes
      rw [← List.append_assoc]
      exact head?_append_feed feed
  | word isGap denotes =>
      refine .word (isGap.before_feed ?_) denotes
      rw [← List.append_assoc]
      exact head?_append_feed feed

namespace Phrase

/-- A phrase stands before a text with a line feed and more behind it. -/
theorem Stands.append_feed (stands : phrase.Stands before after)
    (feed : tail.head? = some '\n') : phrase.Stands before (after ++ tail) where
  gap := by
    refine stands.gap.before_feed ?_
    rw [← List.append_assoc]
    exact head?_append_feed feed
  operand := stands.operand.append_feed feed
  apart_before := stands.apart_before
  apart_after := by
    intro char head
    rw [← List.append_assoc] at head
    rcases head?_append_feed feed char head with head | rfl
    · exact stands.apart_after char head
    · decide

theorem text_append (phrases others : List Phrase) (last : List Char) :
    text (phrases ++ others) last = phrases.flatMap chars ++ text others last := by
  rw [text, text, List.flatMap_append, List.append_assoc]

/-- Phrases stand before others if a line feed comes behind their last gap. -/
theorem AllStand.append (stand : AllStand before phrases last) (feed : tail.head? = some '\n')
    (otherStand : AllStand (before ++ phrases.flatMap chars) others otherLast)
    (text_eq : text others otherLast = last ++ tail) :
    AllStand before (phrases ++ others) otherLast := by
  -- The text behind each phrase goes on with the tail, of which only the line feed matters.
  induction phrases generalizing before with
  | nil => rwa [List.flatMap_nil, List.append_nil] at otherStand
  | cons phrase rest ih =>
      obtain ⟨stands, stand⟩ := stand
      have follows : text (rest ++ others) otherLast = text rest last ++ tail := by
        rw [text_append, text_eq, ← List.append_assoc, ← text]
      refine ⟨?_, ih stand ?_⟩
      · show phrase.Stands before (text (rest ++ others) otherLast)
        rw [follows]
        exact stands.append_feed feed
      · rwa [List.append_assoc]

/-! ## Phrases behind a gap -/

/-- Where phrases stand depends on the last character before them only. -/
theorem AllStand.of_getLast?_eq (stand : AllStand before phrases last)
    (same : otherBefore.getLast? = before.getLast?) : AllStand otherBefore phrases last := by
  induction phrases generalizing before otherBefore with
  | nil => exact stand
  | cons phrase rest ih =>
      obtain ⟨⟨isGap, isOperand, apart_before, apart_after⟩, stand⟩ := stand
      refine ⟨⟨isGap, isOperand, ?_, apart_after⟩, ih stand ?_⟩
      · rwa [List.getLast?_append, same, ← List.getLast?_append]
      · rw [List.getLast?_append, same, ← List.getLast?_append]

/-- Phrases that stand at the start of a text stand behind a gap as well, which becomes part of
their first gap. -/
theorem AllStand.behind (stand : AllStand [] phrases last) (isGap : ∀ after, Gap after gap)
    (apart : Apart (before ++ gap).getLast?) :
    ∃ others otherLast, gap ++ text phrases last = text others otherLast ∧
      AllStand before others otherLast ∧
      others.map Phrase.statement = phrases.map Phrase.statement := by
  cases phrases with
  | nil => exact ⟨[], gap ++ last, rfl, (isGap _).append stand, rfl⟩
  | cons phrase rest =>
      obtain ⟨stands, stand⟩ := stand
      refine ⟨{ phrase with gap := gap ++ phrase.gap } :: rest, last, ?_, ⟨?_, ?_⟩, rfl⟩
      · rw [text_cons, text_cons, chars, chars]
        simp only [List.append_assoc]
      · refine ⟨(isGap _).append stands.gap, stands.operand, ?_, stands.apart_after⟩
        rw [← List.append_assoc, List.getLast?_append]
        cases ends : phrase.gap.getLast? with
        | none => rwa [Option.none_or]
        | some char =>
            rw [Option.some_or, ← ends]
            exact stands.apart_before
      · refine stand.of_getLast?_eq ?_
        obtain ⟨char, ends, -⟩ := stands.operand.last_isWordChar
        refine (getLast?_append_chars ?_ before).trans (getLast?_append_chars ends []).symm
        exact ends

end Phrase

/-! ## Listings -/

/-- **Two listings with a separator between them compose one.** -/
theorem Composes.append (composes : Composes listing phrases last)
    (otherComposes : Composes other others otherLast) (separator : Separator sep) :
    ∃ joined joinedLast, Composes (listing ++ (sep ++ other)) joined joinedLast ∧
      joined.map Phrase.statement =
        phrases.map Phrase.statement ++ others.map Phrase.statement := by
  obtain ⟨rfl, stand⟩ := composes
  obtain ⟨rfl, otherStand⟩ := otherComposes
  have apart : Apart (phrases.flatMap Phrase.chars ++ (last ++ sep)).getLast? := by
    rw [← List.append_assoc]
    exact apart_of_last_feed separator.last _
  obtain ⟨behind, behindLast, text_eq, behindStand, same⟩ :=
    otherStand.behind (separator.gap_append stand.gap_last) apart
  rw [List.append_assoc] at text_eq
  have feed : (sep ++ Phrase.text others otherLast).head? = some '\n' := by
    rw [List.head?_append, separator.first, Option.some_or]
  refine ⟨phrases ++ behind, behindLast, ⟨?_, stand.append feed behindStand text_eq.symm⟩, ?_⟩
  · rw [Phrase.text_append, ← text_eq, Phrase.text, List.append_assoc]
  · rw [List.map_append, same]

theorem parseListing_append (separator : Separator sep)
    (parsed : parseListing listing = .ok statements)
    (otherParsed : parseListing other = .ok otherStatements) :
    parseListing (listing ++ (sep ++ other)) = .ok (statements ++ otherStatements) := by
  obtain ⟨phrases, last, composes, rfl⟩ := parseListing_eq_ok_iff_composes.mp parsed
  obtain ⟨others, otherLast, otherComposes, rfl⟩ := parseListing_eq_ok_iff_composes.mp otherParsed
  exact parseListing_eq_ok_iff_composes.mpr (composes.append otherComposes separator)

/-- Two listings with a separator between them are assembled one after the other. -/
theorem assemble_append (separator : Separator sep)
    (parsed : parseListing listing = .ok statements)
    (otherParsed : parseListing other = .ok otherStatements) :
    assemble (listing ++ (sep ++ other)) = do
      let image ← assemble listing
      let later ← assemble other
      return image ++ later := by
  rw [assemble_eq, assemble_eq, assemble_eq, parseListing_append separator parsed otherParsed,
    parsed, otherParsed]
  show (statements ++ otherStatements).mapM Statement.issued >>= _ = _
  rw [List.mapM_append]
  show _ = (statements.mapM Statement.issued >>= _) >>= fun _ =>
    (otherStatements.mapM Statement.issued >>= _) >>= _
  cases statements.mapM Statement.issued with
  | error diagnostic => rfl
  | ok words =>
      cases otherStatements.mapM Statement.issued with
      | error diagnostic => rfl
      | ok later => exact congrArg Except.ok (Bytecode.spell_append words later)

theorem exists_parseListing_of_assemble {image : Bytes} (assembled : assemble listing = .ok image) :
    ∃ statements, parseListing listing = .ok statements := by
  rw [assemble_eq, bind_eq_ok_iff] at assembled
  obtain ⟨statements, parsed, -⟩ := assembled
  exact ⟨statements, parsed⟩

/-- Respaced listings are assembled alike, or fail in the same way. -/
theorem assemble_respaced (respaced : Respaced listing other) :
    (assemble other).mapError Diagnostic.kind = (assemble listing).mapError Diagnostic.kind := by
  have same := parseListing_respaced respaced
  rw [assemble_eq, assemble_eq]
  cases parsed : parseListing listing with
  | ok statements => rw [(same statements).mp parsed]
  | error diagnostic =>
      cases otherParsed : parseListing other with
      | ok statements => exact absurd (parsed.symm.trans ((same _).mpr otherParsed)) (by simp)
      | error otherDiagnostic =>
          obtain ⟨position, rfl⟩ := exists_position_of_parseListing parsed
          obtain ⟨otherPosition, rfl⟩ := exists_position_of_parseListing otherParsed
          rfl

/-- **Listings go one behind another.** Two listings that are assembled may be joined by any
blank lines and comments, and are then assembled to the bytes of both. And whether a text is
assembled, to which bytes, and in which way it fails if not, is the same with a space for each
of its tabs. -/
theorem assemble_joined :
    (∀ listing other sep image later, Separator sep → assemble listing = .ok image →
      assemble other = .ok later → assemble (listing ++ (sep ++ other)) = .ok (image ++ later)) ∧
    ∀ text, (assemble (Text.tabsAsSpaces text)).mapError Diagnostic.kind =
      (assemble text).mapError Diagnostic.kind := by
  refine ⟨?_, fun text => assemble_respaced (Text.respaced_tabsAsSpaces text)⟩
  intro listing other sep image later separator assembled otherAssembled
  obtain ⟨statements, parsed⟩ := exists_parseListing_of_assemble assembled
  obtain ⟨otherStatements, otherParsed⟩ := exists_parseListing_of_assemble otherAssembled
  rw [assemble_append separator parsed otherParsed, assembled, otherAssembled]
  rfl

/-- A comment that ends with its listing, a separator with a tab and a comment of its own, and
a halt behind a tab. -/
theorem assemble_joined_of_comment :
    Separator ['\n', '\t', '/', '/', 'c', '\r', '\n'] ∧
      assemble ("push 1".toList ++ ['/', '/']) = .ok [0, 0, 0, 1] ∧
      assemble ['\t', 'h', 'a', 'l', 't'] = .ok [0x40, 0, 0, 0] ∧
      assemble ("push 1".toList ++ ['/', '/'] ++ (['\n', '\t', '/', '/', 'c', '\r', '\n'] ++
        ['\t', 'h', 'a', 'l', 't'])) = .ok [0, 0, 0, 1, 0x40, 0, 0, 0] := by
  have separator : Separator ['\n', '\t', '/', '/', 'c', '\r', '\n'] :=
    ⟨.blank rfl (.blank rfl (@Gap.comment [] ['c', '\r'] ['\n'] (by decide) (by simp)
      (.blank rfl .empty))), rfl, rfl⟩
  have denotes : Numeral.Denotes ['1'] 1 :=
    .decimal (by decide) (List.all_eq_true.mp (by decide))
  have pushed : Composes ("push 1".toList ++ ['/', '/'])
      [⟨[], .push ['1'], [' ', '1']⟩] ['/', '/'] :=
    ⟨rfl, ⟨.empty, .push (.blank rfl .empty) denotes, by simp [Apart],
      @Statement.Spelled.head_blank ['1']⟩, @Gap.comment [] [] [] (by simp) (by simp) .empty⟩
  have halted : Composes ['\t', 'h', 'a', 'l', 't'] [⟨['\t'], .op .halt, []⟩] [] :=
    ⟨rfl, ⟨.blank rfl .empty, .op .halt, (Gap.blank rfl .empty : Gap [] ['\t']).head_apart,
      by simp [Apart, Phrase.text]⟩, .empty⟩
  have first : assemble ("push 1".toList ++ ['/', '/']) = .ok [0, 0, 0, 1] :=
    assemble_of_numbered .push denotes (parseListing_eq_ok_iff_composes.mpr ⟨_, _, pushed, rfl⟩)
  have second : assemble ['\t', 'h', 'a', 'l', 't'] = .ok [0x40, 0, 0, 0] := by
    rw [assemble_eq, parseListing_eq_ok_iff_composes.mpr ⟨_, _, halted, rfl⟩]
    rfl
  exact ⟨separator, first, second, assemble_joined.1 _ _ _ _ _ separator first second⟩

end ReversePolish
