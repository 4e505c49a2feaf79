import ReversePolish.Proofs.Listing.Grammar
import ReversePolish.Proofs.Text.Tabs

/-! # Spaces and tabs are the same to a listing

Two texts are respaced if they differ only in how long the runs of spaces and tabs in them are
and in what they are made of (`Respaced`). Expanding tabs respaces a text, and so does making
each tab one space. What is skipped ends alike in both (`Cursor.skip_respaced`), so that a
listing is composed of the same statements however it is respaced (`Composes.respaced`). In
particular the tabs of a listing need not be expanded to read it
(`parseListing_eq_ok_iff_composes`).
-/

namespace ReversePolish

/-- Spaces and tabs, at least one of them. -/
structure Spacing (text : List Char) : Prop where
  nonempty : text ≠ []
  chars : ∀ char ∈ text, char = ' ' ∨ char = '\t'

/-- Two texts that are the same but for their spaces and tabs, which stand at the same places
in both. -/
inductive Respaced : List Char → List Char → Prop where
  | nil : Respaced [] []
  | char (char : Char) {left right : List Char} (more : Respaced left right) :
      Respaced (char :: left) (char :: right)
  | spacing {first second left right : List Char} (spacing : Spacing first)
      (otherSpacing : Spacing second) (more : Respaced left right) :
      Respaced (first ++ left) (second ++ right)

variable {char : Char} {text other left right word rest after gap before otherBefore operand last :
  List Char} {statement : Statement} {phrase : Phrase} {phrases : List Phrase}

namespace Spacing

theorem tab : Spacing ['\t'] where
  nonempty := by simp
  chars := by simp

theorem spaces {count : Nat} (positive : 0 < count) : Spacing (List.replicate count ' ') where
  nonempty := by simp [Nat.pos_iff_ne_zero.mp positive]
  chars _ member := .inl (List.eq_of_mem_replicate member)

theorem exists_cons (spacing : Spacing text) :
    ∃ char rest, text = char :: rest ∧ (char = ' ' ∨ char = '\t') := by
  obtain ⟨char, rest, rfl⟩ := List.exists_cons_of_ne_nil spacing.nonempty
  exact ⟨char, rest, rfl, spacing.chars char List.mem_cons_self⟩

theorem apart_getLast? (spacing : Spacing text) (before : List Char) :
    Apart (before ++ text).getLast? := by
  intro char last
  rw [List.getLast?_append_of_ne_nil before spacing.nonempty] at last
  rcases spacing.chars char (List.mem_of_getLast? last) with rfl | rfl <;> decide

end Spacing

namespace Respaced

theorem symm (respaced : Respaced left right) : Respaced right left := by
  induction respaced with
  | nil => exact .nil
  | char char _ ih => exact .char char ih
  | spacing first second _ ih => exact .spacing second first ih

theorem eq_nil (respaced : Respaced [] right) : right = [] := by
  generalize empty : [] = left at respaced
  cases respaced with
  | nil => rfl
  | char char _ => exact absurd empty (by simp)
  | spacing spacing _ _ =>
      exact absurd (List.append_eq_nil_iff.mp empty.symm).1 spacing.nonempty

/-- What is neither a space nor a tab stands in front of both texts or of neither. -/
theorem head_iff (respaced : Respaced left right) {p : Char → Prop} (not_space : ¬ p ' ')
    (not_tab : ¬ p '\t') : (∃ char ∈ left.head?, p char) ↔ ∃ char ∈ right.head?, p char := by
  cases respaced with
  | nil => exact Iff.rfl
  | char char _ => simp
  | spacing spacing otherSpacing _ =>
      obtain ⟨first, _, rfl, isFirst⟩ := spacing.exists_cons
      obtain ⟨second, _, rfl, isSecond⟩ := otherSpacing.exists_cons
      rcases isFirst with rfl | rfl <;> rcases isSecond with rfl | rfl <;>
        simp [not_space, not_tab]

theorem apart_head_iff (respaced : Respaced left right) : Apart left.head? ↔ Apart right.head? := by
  have heads := respaced.head_iff (p := fun char => isWordChar char) (by decide) (by decide)
  rw [Apart, Apart, ← not_iff_not]
  simpa only [not_forall, not_not, exists_prop] using heads

/-- Respaced texts end alike: in a character of a word, or not. -/
theorem apart_getLast?_iff (respaced : Respaced left right)
    (same : Apart before.getLast? ↔ Apart otherBefore.getLast?) :
    Apart (before ++ left).getLast? ↔ Apart (otherBefore ++ right).getLast? := by
  induction respaced generalizing before otherBefore with
  | nil => rwa [List.append_nil, List.append_nil]
  | @char char left right _ ih =>
      have both : Apart (before ++ [char]).getLast? ↔ Apart (otherBefore ++ [char]).getLast? := by
        rw [List.getLast?_concat, List.getLast?_concat]
      have later := ih both
      rwa [List.append_assoc, List.append_assoc] at later
  | spacing spacing otherSpacing _ ih =>
      have both := iff_of_true (spacing.apart_getLast? before)
        (otherSpacing.apart_getLast? otherBefore)
      have later := ih both
      rwa [List.append_assoc, List.append_assoc] at later

theorem slash_head_iff (respaced : Respaced left right) :
    left.head? = some '/' ↔ right.head? = some '/' := by
  have heads := respaced.head_iff (p := (· = '/')) (by decide) (by decide)
  simpa using heads

/-- A text without spaces and tabs stands unchanged in front of what is respaced. -/
theorem exists_append (respaced : Respaced (word ++ rest) right)
    (solid : ∀ char ∈ word, ¬ (char = ' ' ∨ char = '\t')) :
    ∃ otherRest, right = word ++ otherRest ∧ Respaced rest otherRest := by
  induction word generalizing right with
  | nil => exact ⟨right, rfl, respaced⟩
  | cons first word ih =>
      obtain ⟨notSpacing, solid⟩ := List.forall_mem_cons.mp solid
      rw [List.cons_append] at respaced
      generalize text_eq : first :: (word ++ rest) = text at respaced
      cases respaced with
      | nil => exact absurd text_eq (by simp)
      | char char more =>
          obtain ⟨rfl, rfl⟩ := List.cons.inj text_eq
          obtain ⟨otherRest, rfl, respaced⟩ := ih more solid
          exact ⟨otherRest, rfl, respaced⟩
      | spacing spacing _ _ =>
          obtain ⟨char, _, rfl, isSpacing⟩ := spacing.exists_cons
          obtain ⟨rfl, -⟩ := List.cons.inj text_eq
          exact absurd isSpacing notSpacing

end Respaced

/-! ## Tabs -/

namespace Text

/-- A text with a space for every tab. -/
def tabsAsSpaces (text : List Char) : List Char :=
  text.map fun char => if char = '\t' then ' ' else char

theorem respaced_tabsAsSpaces (text : List Char) : Respaced text (tabsAsSpaces text) := by
  induction text with
  | nil => exact .nil
  | cons char rest ih =>
      rw [tabsAsSpaces, List.map_cons, ← tabsAsSpaces]
      split
      · next tab =>
          subst tab
          exact .spacing .tab (.spaces Nat.one_pos) ih
      · exact .char char ih

theorem respaced_expansion (column : Nat) (text : List Char) :
    Respaced text (expansion column text) := by
  induction text generalizing column with
  | nil => exact .nil
  | cons char rest ih =>
      rw [expansion, widened]
      split
      · next tab =>
          subst tab
          exact .spacing .tab (.spaces (spaces_to_stop_pos column)) (ih _)
      · exact .char char (ih _)

theorem respaced_expandTabs (text : List Char) : Respaced text (expandTabs text) := by
  rw [expandTabs_eq]
  exact respaced_expansion 0 text

end Text

/-! ## Gaps -/

namespace Cursor

theorem skipFrom_of_space (isSpacing : char = ' ' ∨ char = '\t') (inComment : Bool)
    (before : Option Char) (rest : List Char) :
    skipFrom inComment before (char :: rest) = skipFrom inComment (some char) rest := by
  cases inComment <;> rcases isSpacing with rfl | rfl <;> rfl

/-- Spacing is skipped, in a comment as outside. -/
theorem skipFrom_of_spacing (spacing : Spacing text) (inComment : Bool) (before : Option Char)
    (rest : List Char) :
    ∃ char, ¬ isWordChar char ∧
      skipFrom inComment before (text ++ rest) = skipFrom inComment (some char) rest := by
  obtain ⟨nonempty, chars⟩ := spacing
  induction text generalizing before with
  | nil => exact absurd rfl nonempty
  | cons first others ih =>
      obtain ⟨isFirst, chars⟩ := List.forall_mem_cons.mp chars
      rw [List.cons_append, skipFrom_of_space isFirst]
      by_cases single : others = []
      · subst single
        exact ⟨first, by rcases isFirst with rfl | rfl <;> decide, rfl⟩
      · exact ih (some first) single chars

/-- What is left to read behind what is skipped is respaced as well, and it is or is not behind a
character of a word in both texts. -/
theorem skipFrom_respaced (respaced : Respaced left right) (inComment : Bool)
    {before otherBefore : Option Char} (same : Apart before ↔ Apart otherBefore) :
    Respaced (skipFrom inComment before left).rest (skipFrom inComment otherBefore right).rest ∧
      (Apart (skipFrom inComment before left).before ↔
        Apart (skipFrom inComment otherBefore right).before) := by
  induction respaced generalizing inComment before otherBefore with
  | nil => exact ⟨.nil, same⟩
  | @char char left right more ih =>
      -- A comment starts in both texts or in neither.
      simp only [skipFrom, more.slash_head_iff]
      split
      · exact ih _ Iff.rfl
      · split
        · exact ih _ Iff.rfl
        · split
          · exact ih _ Iff.rfl
          · exact ⟨.char char more, same⟩
  | spacing spacing otherSpacing more ih =>
      obtain ⟨char, apart, skipped⟩ := skipFrom_of_spacing spacing inComment before _
      obtain ⟨other, otherApart, otherSkipped⟩ :=
        skipFrom_of_spacing otherSpacing inComment otherBefore _
      rw [skipped, otherSkipped]
      exact ih inComment (by simp [Apart, apart, otherApart])

theorem skip_respaced (respaced : Respaced left right)
    (same : Apart before.getLast? ↔ Apart otherBefore.getLast?) :
    Respaced (behind before left).skip.rest (behind otherBefore right).skip.rest ∧
      (Apart (behind before left).skip.before ↔ Apart (behind otherBefore right).skip.before) :=
  skipFrom_respaced respaced false same

end Cursor

/-- A gap before a text is respaced to a gap before the respaced text. -/
theorem Gap.respaced (isGap : Gap after gap) (solid : Solid after)
    (respaced : Respaced (gap ++ after) right)
    (same : Apart before.getLast? ↔ Apart otherBefore.getLast?) :
    ∃ otherGap otherAfter, right = otherGap ++ otherAfter ∧ Gap otherAfter otherGap ∧
      Respaced after otherAfter ∧
      (Apart (before ++ gap).getLast? ↔ Apart (otherBefore ++ otherGap).getLast?) := by
  obtain ⟨otherGap, otherAfter, rfl, isOther, -, otherSkipped⟩ :=
    Cursor.exists_gap otherBefore right
  have alike := Cursor.skip_respaced respaced same
  rw [Cursor.skip_gap before isGap solid, otherSkipped] at alike
  exact ⟨otherGap, otherAfter, rfl, isOther, alike⟩

/-! ## Listings -/

theorem not_space_of_isWordChar (isWord : isWordChar char) : ¬ (char = ' ' ∨ char = '\t') := by
  rintro (rfl | rfl) <;> exact absurd isWord (by decide)

/-- A numeral behind a gap is respaced to the same numeral behind another gap. -/
theorem Numeral.Denotes.respaced {numeral : List Char} {value : Nat}
    (denotes : Numeral.Denotes numeral value) (isGap : Gap (numeral ++ after) gap)
    (respaced : Respaced (gap ++ numeral ++ after) right) :
    ∃ otherGap otherAfter, right = otherGap ++ numeral ++ otherAfter ∧
      Gap (numeral ++ otherAfter) otherGap ∧ Respaced after otherAfter := by
  rw [List.append_assoc] at respaced
  obtain ⟨otherGap, _, rfl, isOther, atNumeral, -⟩ :=
    @Gap.respaced _ _ _ [] [] isGap (Cursor.solid_numeral denotes after) respaced Iff.rfl
  obtain ⟨otherAfter, rfl, later⟩ := atNumeral.exists_append fun char member =>
    not_space_of_isWordChar (denotes.isWordChar char member)
  exact ⟨otherGap, otherAfter, (List.append_assoc ..).symm, isOther, later⟩

theorem Statement.Operand.respaced (isOperand : statement.Operand after operand)
    (respaced : Respaced (operand ++ after) right) :
    ∃ otherOperand otherAfter, right = otherOperand ++ otherAfter ∧
      statement.Operand otherAfter otherOperand ∧ Respaced after otherAfter := by
  cases isOperand with
  | op opcode => exact ⟨[], right, rfl, .op opcode, respaced⟩
  | push isGap denotes =>
      obtain ⟨otherGap, otherAfter, rfl, isOther, respaced⟩ := denotes.respaced isGap respaced
      exact ⟨_, otherAfter, rfl, .push isOther denotes, respaced⟩
  | word isGap denotes =>
      obtain ⟨otherGap, otherAfter, rfl, isOther, respaced⟩ := denotes.respaced isGap respaced
      exact ⟨_, otherAfter, rfl, .word isOther denotes, respaced⟩

namespace Phrase

/-- A phrase is respaced to a phrase of the same statement. -/
theorem Stands.respaced (stands : phrase.Stands before after)
    (respaced : Respaced (phrase.chars ++ after) right)
    (same : Apart before.getLast? ↔ Apart otherBefore.getLast?) :
    ∃ (otherPhrase : Phrase) (otherAfter : List Char), right = otherPhrase.chars ++ otherAfter ∧
      otherPhrase.Stands otherBefore otherAfter ∧ otherPhrase.statement = phrase.statement ∧
      Respaced after otherAfter := by
  obtain ⟨isGap, isOperand, apart_before, apart_after⟩ := stands
  rw [chars, List.append_assoc, List.append_assoc] at respaced
  rw [List.append_assoc] at isGap
  obtain ⟨otherGap, _, rfl, isOther, atKeyword, same⟩ :=
    isGap.respaced (Cursor.solid_keyword phrase.statement _) respaced same
  obtain ⟨_, rfl, atOperand⟩ := atKeyword.exists_append fun _ => not_space_of_mem_keyword
  rw [atOperand.apart_head_iff] at apart_after
  obtain ⟨otherOperand, otherAfter, rfl, isOperand, later⟩ := isOperand.respaced atOperand
  refine ⟨⟨otherGap, phrase.statement, otherOperand⟩, otherAfter, ?_,
    ⟨?_, isOperand, same.mp apart_before, apart_after⟩, rfl, later⟩
  · rw [chars, List.append_assoc, List.append_assoc]
  · rwa [List.append_assoc]

theorem AllStand.respaced (stand : AllStand before phrases last)
    (respaced : Respaced (Phrase.text phrases last) right)
    (same : Apart before.getLast? ↔ Apart otherBefore.getLast?) :
    ∃ others otherLast, right = Phrase.text others otherLast ∧
      AllStand otherBefore others otherLast ∧
      others.map Phrase.statement = phrases.map Phrase.statement := by
  induction phrases generalizing before otherBefore right with
  | nil =>
      rw [text_nil, ← List.append_nil last] at respaced
      obtain ⟨otherGap, otherAfter, rfl, isOther, later, -⟩ :=
        Gap.respaced stand solid_nil respaced same
      obtain rfl := later.eq_nil
      exact ⟨[], otherGap, List.append_nil _, isOther, rfl⟩
  | cons phrase rest ih =>
      obtain ⟨stands, stand⟩ := stand
      rw [text_cons] at respaced
      obtain ⟨other, otherAfter, rfl, otherStands, statement_eq, later⟩ :=
        stands.respaced respaced same
      -- Both phrases end in a character of a word.
      have both : Apart (before ++ phrase.chars).getLast? ↔
          Apart (otherBefore ++ other.chars).getLast? := by
        obtain ⟨char, ends, isWord⟩ := stands.last_isWordChar
        obtain ⟨otherChar, otherEnds, otherIsWord⟩ := otherStands.last_isWordChar
        exact iff_of_false (fun apart => apart char ends isWord)
          fun apart => apart otherChar otherEnds otherIsWord
      obtain ⟨others, otherLast, rfl, otherStand, statements_eq⟩ := ih stand later both
      exact ⟨other :: others, otherLast, (text_cons ..).symm, ⟨otherStands, otherStand⟩, by
        rw [List.map_cons, List.map_cons, statement_eq, statements_eq]⟩

end Phrase

/-- **A listing is composed of the same statements however it is respaced.** -/
theorem Composes.respaced (composes : Composes text phrases last)
    (respaced : Respaced text other) :
    ∃ others otherLast, Composes other others otherLast ∧
      others.map Phrase.statement = phrases.map Phrase.statement := by
  obtain ⟨rfl, stand⟩ := composes
  obtain ⟨others, otherLast, rfl, otherStand, same⟩ := stand.respaced respaced Iff.rfl
  exact ⟨others, otherLast, ⟨rfl, otherStand⟩, same⟩

theorem exists_composes_iff_of_respaced (respaced : Respaced text other)
    (statements : List Statement) :
    (∃ phrases last, Composes text phrases last ∧ phrases.map Phrase.statement = statements) ↔
      ∃ phrases last, Composes other phrases last ∧
        phrases.map Phrase.statement = statements := by
  constructor
  · intro composed
    obtain ⟨phrases, last, composes, rfl⟩ := composed
    exact composes.respaced respaced
  · intro composed
    obtain ⟨phrases, last, composes, rfl⟩ := composed
    exact composes.respaced respaced.symm

/-- **A listing is read as it is composed**, with its tabs as they are. -/
theorem parseListing_eq_ok_iff_composes {statements : List Statement} :
    parseListing text = .ok statements ↔
      ∃ phrases last, Composes text phrases last ∧ phrases.map Phrase.statement = statements :=
  parseListing_eq_ok_iff.trans
    (exists_composes_iff_of_respaced (Text.respaced_expandTabs text) statements).symm

/-- Respaced texts are read as the same statements. -/
theorem parseListing_respaced (respaced : Respaced text other) (statements : List Statement) :
    parseListing text = .ok statements ↔ parseListing other = .ok statements := by
  rw [parseListing_eq_ok_iff_composes, parseListing_eq_ok_iff_composes]
  exact exists_composes_iff_of_respaced respaced statements

end ReversePolish
