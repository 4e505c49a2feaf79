import ReversePolish.Proofs.Listing.Statement

/-! # A listing is read as it is composed

The statements of phrases that make up a text are the ones read from it
(`Cursor.statements_of_allStand`). Reading any text stops behind phrases
(`Cursor.exists_stop`), and when nothing is left over, they make up the text
(`Cursor.exists_phrases`). So a text is a listing exactly when it is composed of
phrases (`parseListing_eq_ok_iff`), and it is composed in one way only
(`Composes.unique`). No phrase reads on into the next one, because each ends in a character
of a word, which the keyword of the next one may not touch.
-/

namespace ReversePolish

namespace Statement

/-- What ends a statement is a character of a word. -/
theorem Operand.last_isWordChar {after operand : List Char} {statement : Statement}
    (isOperand : statement.Operand after operand) :
    ∃ char ∈ (statement.keyword ++ operand).getLast?, isWordChar char := by
  induction isOperand with
  | @push inner numeral value gap denotes | @word inner numeral value gap denotes =>
      obtain ⟨char, last⟩ := Option.ne_none_iff_exists'.mp
        (mt List.getLast?_eq_none_iff.mp denotes.ne_nil)
      refine ⟨char, ?_, denotes.isWordChar char (List.mem_of_getLast? last)⟩
      rw [Option.mem_def, ← List.append_assoc, List.getLast?_append, last, Option.some_or]
  | op opcode => rcases opcode with _ | (_ | _ | _ | _) <;> exact ⟨_, rfl, by decide⟩

theorem Operand.of_append {after more operand : List Char} {statement : Statement}
    (isOperand : statement.Operand (after ++ more) operand) :
    statement.Operand after operand := by
  cases isOperand with
  | op opcode => exact .op opcode
  | push isGap denotes =>
      rw [← List.append_assoc] at isGap
      exact .push isGap.of_append denotes
  | word isGap denotes =>
      rw [← List.append_assoc] at isGap
      exact .word isGap.of_append denotes

end Statement

namespace Phrase

variable {before after otherAfter last otherLast : List Char} {phrase other : Phrase}
  {phrases others : List Phrase}

theorem text_nil (last : List Char) : text [] last = last := rfl

theorem text_cons (phrase : Phrase) (rest : List Phrase) (last : List Char) :
    text (phrase :: rest) last = phrase.chars ++ text rest last := by
  rw [text, text, List.flatMap_cons, List.append_assoc]

theorem getLast?_append_chars {char : Char}
    (ends : char ∈ (phrase.statement.keyword ++ phrase.operand).getLast?) (before : List Char) :
    (before ++ phrase.chars).getLast? = some char := by
  rw [chars, List.append_assoc, ← List.append_assoc, List.getLast?_append, Option.mem_def.mp ends,
    Option.some_or]

theorem Stands.last_isWordChar (stands : phrase.Stands before after) :
    ∃ char ∈ (before ++ phrase.chars).getLast?, isWordChar char := by
  obtain ⟨char, last, isWord⟩ := stands.operand.last_isWordChar
  exact ⟨char, getLast?_append_chars last before, isWord⟩

/-- A phrase stands where it stood if the end of the text is taken away. -/
theorem Stands.of_append (stands : phrase.Stands before (after ++ otherAfter)) :
    phrase.Stands before after where
  gap := by
    have isGap := stands.gap
    rw [← List.append_assoc] at isGap
    exact isGap.of_append
  operand := stands.operand.of_append
  apart_before := stands.apart_before
  apart_after char head := by
    refine stands.apart_after char ?_
    rw [← List.append_assoc]
    exact List.mem_head?_append_of_mem_head? head

/-- Behind a character of a word, neither phrases nor a last gap start with one. -/
theorem AllStand.head_apart (stand : AllStand before phrases last)
    (ended : ∃ char ∈ before.getLast?, isWordChar char) : Apart (text phrases last).head? := by
  cases phrases with
  | nil => exact Gap.head_apart stand
  | cons phrase rest =>
      obtain ⟨char, last, isWord⟩ := ended
      -- Without a gap the keyword would run on from the character before it.
      have gap_ne_nil : phrase.gap ≠ [] := by
        intro empty
        refine stand.1.apart_before char ?_ isWord
        rwa [empty, List.append_nil]
      rw [text_cons, chars, List.append_assoc, List.append_assoc,
        List.head?_append_of_ne_nil _ gap_ne_nil]
      exact stand.1.gap.head_apart

theorem AllStand.gap_last (stand : AllStand before phrases last) : Gap [] last := by
  induction phrases generalizing before with
  | nil => exact stand
  | cons phrase rest ih => exact ih stand.2

/-- A phrase is known by the text it stands in front of and by where it ends. -/
theorem Stands.unique (stands : phrase.Stands before after)
    (otherStands : other.Stands before otherAfter) (later : Apart after.head?)
    (otherLater : Apart otherAfter.head?)
    (same : phrase.chars ++ after = other.chars ++ otherAfter) :
    phrase = other ∧ after = otherAfter := by
  have found := Cursor.statement?_of_stands stands later
  rw [same, Cursor.statement?_of_stands otherStands otherLater] at found
  obtain ⟨statement_eq, cursor_eq⟩ := Prod.mk.inj (Option.some.inj found)
  obtain rfl : otherAfter = after := congrArg Cursor.rest cursor_eq
  have skipped := Cursor.skip_of_stands stands
  rw [same, Cursor.skip_of_stands otherStands] at skipped
  obtain ⟨gap, statement, operand⟩ := phrase
  obtain ⟨otherGap, otherStatement, otherOperand⟩ := other
  simp only at statement_eq skipped
  subst statement_eq
  have operand_eq : otherOperand = operand := by
    have tail := List.append_cancel_left (congrArg Cursor.rest skipped)
    exact List.append_cancel_right tail
  subst operand_eq
  have gap_eq : gap = otherGap := by
    rw [chars, chars] at same
    exact List.append_cancel_right (List.append_cancel_right (List.append_cancel_right same))
  exact ⟨by rw [gap_eq], rfl⟩

theorem AllStand.unique (stand : AllStand before phrases last)
    (otherStand : AllStand before others otherLast)
    (same : text phrases last = text others otherLast) : phrases = others ∧ last = otherLast := by
  induction phrases generalizing before others with
  | nil =>
      cases others with
      | nil => exact ⟨rfl, same⟩
      | cons other others =>
          have none := Cursor.statement?_of_gap before stand
          obtain ⟨stands, otherStand⟩ := otherStand
          rw [← text_nil last, same, text_cons, Cursor.statement?_of_stands stands
            (otherStand.head_apart stands.last_isWordChar)] at none
          exact absurd none (by simp)
  | cons phrase rest ih =>
      obtain ⟨stands, stand⟩ := stand
      have later := stand.head_apart stands.last_isWordChar
      cases others with
      | nil =>
          have none := Cursor.statement?_of_gap before otherStand
          rw [← text_nil otherLast, ← same, text_cons, Cursor.statement?_of_stands stands later]
            at none
          exact absurd none (by simp)
      | cons other others =>
          obtain ⟨otherStands, otherStand⟩ := otherStand
          rw [text_cons, text_cons] at same
          obtain ⟨rfl, rest_eq⟩ := stands.unique otherStands later
            (otherStand.head_apart otherStands.last_isWordChar) same
          obtain ⟨rfl, last_eq⟩ := ih stand otherStand rest_eq
          exact ⟨rfl, last_eq⟩

end Phrase

/-- **A text is composed in one way only.** -/
theorem Composes.unique {listing last otherLast : List Char} {phrases others : List Phrase}
    (composes : Composes listing phrases last) (otherComposes : Composes listing others otherLast) :
    phrases = others ∧ last = otherLast :=
  composes.stand.unique otherComposes.stand (composes.text_eq.symm.trans otherComposes.text_eq)

namespace Cursor

open Phrase

variable {read rest last : List Char} {phrases : List Phrase} {cursor : Cursor}

theorem statements_of_none (none : cursor.statement? = none) :
    cursor.statements = ([], cursor) := by
  rw [statements]
  split
  · rfl
  · next found => exact absurd (none.symm.trans found) (by simp)

theorem statements_of_some {statement : Statement} {after : Cursor}
    (some : cursor.statement? = some (statement, after)) :
    cursor.statements = (statement :: after.statements.1, after.statements.2) := by
  rw [statements]
  split
  · next found => exact absurd (some.symm.trans found) (by simp)
  · next found =>
      obtain ⟨rfl, rfl⟩ := Prod.mk.inj (Option.some.inj (some.symm.trans found))
      rfl

/-- The statements of phrases are read from them, up to the last gap. -/
theorem statements_of_allStand (stand : AllStand read phrases last) :
    (behind read (text phrases last)).statements =
      (phrases.map Phrase.statement, behind (read ++ phrases.flatMap chars) last) := by
  induction phrases generalizing read with
  | nil =>
      rw [text_nil, statements_of_none (statement?_of_gap read stand), List.flatMap_nil,
        List.append_nil, List.map_nil]
  | cons phrase rest ih =>
      obtain ⟨stands, stand⟩ := stand
      have first := statement?_of_stands stands (stand.head_apart stands.last_isWordChar)
      rw [text_cons, statements_of_some first, ih stand, List.map_cons, List.flatMap_cons,
        List.append_assoc]

/-- Statements are read from phrases, up to a gap behind which no statement starts. -/
theorem exists_stop (read rest : List Char) :
    ∃ phrases gap after, rest = text phrases gap ++ after ∧
      AllStand read phrases gap ∧ Solid after ∧
      phrases.map Phrase.statement = (behind read rest).statements.1 ∧
      (behind read rest).statements.2.skip = behind (read ++ text phrases gap) after ∧
      (behind (read ++ text phrases gap) after).started? = none := by
  induction size_eq : rest.length using Nat.strong_induction_on generalizing read rest with
  | _ size ih =>
      cases found : (behind read rest).statement? with
      | none =>
          obtain ⟨gap, after, rfl, isGap, solid, skipped⟩ := exists_gap read rest
          rw [statements_of_none found]
          rw [statement?_eq, skipped] at found
          exact ⟨[], gap, after, rfl, Gap.of_append isGap, solid, rfl, skipped, found⟩
      | some pair =>
          obtain ⟨statement, place⟩ := pair
          have shorter := length_statement?_lt found
          rw [statements_of_some found]
          obtain ⟨phrase, tail, rfl, rfl, stands, rfl⟩ := exists_phrase found
          obtain ⟨phrases, gap, after, rfl, stand, solid, same, stopped, none⟩ :=
            ih tail.length (by rw [← size_eq]; exact shorter) (read ++ phrase.chars) tail rfl
          rw [List.append_assoc read, ← text_cons] at stopped none
          refine ⟨phrase :: phrases, gap, after, ?_, ⟨stands.of_append, stand⟩, solid, ?_, stopped,
            none⟩
          · rw [text_cons, List.append_assoc]
          · rw [List.map_cons, same]

/-- Statements behind which only a gap is left are read from phrases. -/
theorem exists_phrases (left : (behind read rest).statements.2.skip.rest = []) :
    ∃ phrases last, rest = text phrases last ∧ AllStand read phrases last ∧
      phrases.map Phrase.statement = (behind read rest).statements.1 := by
  obtain ⟨phrases, gap, after, rfl, stand, -, same, stopped, -⟩ := exists_stop read rest
  rw [stopped] at left
  obtain rfl : after = [] := left
  exact ⟨phrases, gap, List.append_nil _, stand, same⟩

end Cursor

section Parsing

variable {text : List Char} {statements : List Statement} {diagnostic : Diagnostic}

/-- A listing is read whole or refused at the first place that starts no statement. -/
theorem parseListing_eq (text : List Char) :
    parseListing text =
      if (Cursor.behind [] (Text.expandTabs text)).statements.2.skip.rest = [] then
        .ok (Cursor.behind [] (Text.expandTabs text)).statements.1
      else
        .error (.notAStatement (Position.after ((Text.expandTabs text).take
          ((Text.expandTabs text).length -
            (Cursor.behind [] (Text.expandTabs text)).statements.2.skip.rest.length)))) :=
  rfl

/-- **A text is a listing exactly when phrases compose it**, and their statements are what
is read. -/
theorem parseListing_eq_ok_iff :
    parseListing text = .ok statements ↔
      ∃ phrases last, Composes (Text.expandTabs text) phrases last ∧
        phrases.map Phrase.statement = statements := by
  rw [parseListing_eq]
  constructor
  · intro parsed
    split at parsed
    · next left =>
        obtain rfl := Except.ok.inj parsed
        obtain ⟨phrases, last, text_eq, stand, same⟩ := Cursor.exists_phrases left
        exact ⟨phrases, last, ⟨text_eq, stand⟩, same⟩
    · exact absurd parsed (by simp)
  · intro composed
    obtain ⟨phrases, last, ⟨text_eq, stand⟩, rfl⟩ := composed
    have read := Cursor.statements_of_allStand stand
    rw [← text_eq] at read
    have skipped := Cursor.skip_gap ([] ++ phrases.flatMap Phrase.chars)
      stand.gap_last solid_nil
    rw [List.append_nil] at skipped
    rw [read, if_pos (by rw [skipped]; rfl)]

theorem exists_position_of_parseListing (failed : parseListing text = .error diagnostic) :
    ∃ position, diagnostic = .notAStatement position := by
  rw [parseListing_eq] at failed
  split at failed
  · exact absurd failed (by simp)
  · exact ⟨_, (Except.error.inj failed).symm⟩

end Parsing

end ReversePolish
