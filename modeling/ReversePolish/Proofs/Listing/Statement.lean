import Mathlib.Data.List.Basic
import ReversePolish.Proofs.Listing.Gap
import ReversePolish.Proofs.Listing.Numeral

/-! # Statements are read as they are written

A reader behind a text finds the statement of the phrase that stands there and moves past
the phrase (`Cursor.statement?_of_stands`), and what it finds always stands there as a
phrase (`Cursor.exists_phrase`).
-/

namespace ReversePolish

namespace Opcode

theorem mnemonic_ne_nil (opcode : Opcode) : opcode.mnemonic.toList ≠ [] := by
  rcases opcode with _ | (_ | _ | _ | _) <;> decide

/-- Every mnemonic has a first character of its own. -/
theorem mnemonic_head_ne {opcode other : Opcode} (different : opcode ≠ other) :
    opcode.mnemonic.toList.head? ≠ other.mnemonic.toList.head? := by
  revert different
  rcases opcode with _ | (_ | _ | _ | _) <;> rcases other with _ | (_ | _ | _ | _) <;> decide

theorem mnemonic_head_ne_push (opcode : Opcode) :
    opcode.mnemonic.toList.head? ≠ "push".toList.head? := by
  rcases opcode with _ | (_ | _ | _ | _) <;> decide

theorem mnemonic_head_ne_word (opcode : Opcode) :
    opcode.mnemonic.toList.head? ≠ ".word".toList.head? := by
  rcases opcode with _ | (_ | _ | _ | _) <;> decide

end Opcode

/-- No keyword has a space or a tab in it. -/
theorem not_space_of_mem_keyword {statement : Statement} {char : Char}
    (member : char ∈ statement.keyword) : ¬ (char = ' ' ∨ char = '\t') := by
  have unspaced : ' ' ∉ statement.keyword ∧ '\t' ∉ statement.keyword := by
    cases statement with
    | push _ => exact (by decide : ' ' ∉ "push".toList ∧ '\t' ∉ "push".toList)
    | op opcode => rcases opcode with _ | (_ | _ | _ | _) <;> decide
    | word _ => exact (by decide : ' ' ∉ ".word".toList ∧ '\t' ∉ ".word".toList)
  rintro (rfl | rfl)
  · exact unspaced.1 member
  · exact unspaced.2 member

namespace Cursor

variable {read rest after keyword numeral operand : List Char} {cursor : Cursor} {opcode : Opcode}
  {statement : Statement} {phrase : Phrase} {value : Nat}

theorem all_apart_iff {char? : Option Char} : char?.all (!isWordChar ·) ↔ Apart char? := by
  cases char? <;> simp [Apart]

theorem keyword?_of_apart (keyword : List Char) (before : Apart read.getLast?)
    (later : Apart rest.head?) :
    (behind read (keyword ++ rest)).keyword? keyword = some (behind (read ++ keyword) rest) := by
  have valid : keyword <+: (behind read (keyword ++ rest)).rest ∧
      (behind read (keyword ++ rest)).before.all (!isWordChar ·) ∧
      ((behind read (keyword ++ rest)).rest.drop keyword.length).head?.all (!isWordChar ·) := by
    simp only [behind, List.drop_left, all_apart_iff]
    exact ⟨List.prefix_append .., before, later⟩
  rw [keyword?, if_pos valid, drop_behind]

theorem exists_of_keyword? (found : (behind read rest).keyword? keyword = some cursor) :
    ∃ after, rest = keyword ++ after ∧ cursor = behind (read ++ keyword) after ∧
      Apart read.getLast? ∧ Apart after.head? := by
  rw [keyword?] at found
  split at found
  · next valid =>
      obtain ⟨⟨after, same⟩, before, later⟩ := valid
      obtain rfl : keyword ++ after = rest := same
      rw [drop_behind] at found
      simp only [behind, List.drop_left, all_apart_iff] at before later
      exact ⟨after, rfl, (Option.some.inj found).symm, before, later⟩
  · exact absurd found (by simp)

theorem keyword?_of_head_ne {text : List Char} (some : keyword ≠ [])
    (different : text.head? ≠ keyword.head?) : (behind read text).keyword? keyword = none := by
  rw [keyword?, if_neg]
  intro valid
  obtain ⟨first, tail, rfl⟩ := List.exists_cons_of_ne_nil some
  obtain ⟨rest, rfl⟩ := valid.1
  exact different rfl

theorem head?_keyword_ne {other : List Char} (some : keyword ≠ [])
    (different : keyword.head? ≠ other.head?) (rest : List Char) :
    (keyword ++ rest).head? ≠ other.head? := by
  rwa [List.head?_append_of_ne_nil keyword some]

theorem not_isBlank_of_isWordChar {char : Char} (isWord : isWordChar char) : ¬ isBlank char :=
  fun blank => not_isWordChar_of_isBlank blank isWord

theorem solid_of_isWordChar {char : Char} (isWord : isWordChar char) (rest : List Char) :
    Solid (char :: rest) := by
  apply solid_cons (not_isBlank_of_isWordChar isWord)
  rintro rfl
  exact absurd isWord (by decide)

theorem solid_numeral (denotes : Numeral.Denotes numeral value) (rest : List Char) :
    Solid (numeral ++ rest) := by
  obtain ⟨digit, others, rfl⟩ := List.exists_cons_of_ne_nil denotes.ne_nil
  exact solid_of_isWordChar (denotes.isWordChar digit (List.mem_cons_self ..)) _

theorem numeral?_eq (cursor : Cursor) :
    cursor.numeral? =
      if Numeral.atFront cursor.skip.rest = [] then none
      else some (Numeral.atFront cursor.skip.rest,
        cursor.skip.drop (Numeral.atFront cursor.skip.rest).length) := by
  rw [numeral?]
  cases Numeral.atFront cursor.skip.rest <;> rfl

/-- The numeral behind a gap is read, unless characters of a word follow it. -/
theorem numeral?_of_denotes {inner : List Char} (read : List Char)
    (gap : Gap (numeral ++ after) inner) (denotes : Numeral.Denotes numeral value)
    (later : Apart after.head?) :
    (behind read (inner ++ (numeral ++ after))).numeral? =
      some (numeral, behind (read ++ inner ++ numeral) after) := by
  have front : Numeral.atFront (behind (read ++ inner) (numeral ++ after)).rest = numeral :=
    Numeral.atFront_of_denotes denotes later
  rw [numeral?_eq, skip_gap read gap (solid_numeral denotes after), front,
    if_neg denotes.ne_nil, drop_behind]

theorem exists_of_numeral? (found : (behind read rest).numeral? = some (numeral, cursor)) :
    ∃ inner after value, rest = inner ++ (numeral ++ after) ∧ Gap (numeral ++ after) inner ∧
      Numeral.Denotes numeral value ∧ cursor = behind (read ++ inner ++ numeral) after := by
  obtain ⟨inner, text, rfl, gap, -, skipped⟩ := exists_gap read rest
  obtain ⟨after, text_eq⟩ := Numeral.atFront_prefix text
  rw [numeral?_eq, skipped, show (behind (read ++ inner) text).rest = text from rfl] at found
  split at found
  · exact absurd found (by simp)
  · next front =>
      obtain ⟨value, denotes⟩ := Numeral.denotes_atFront front
      obtain ⟨rfl, rfl⟩ := Prod.mk.inj (Option.some.inj found)
      rw [← text_eq] at gap
      refine ⟨inner, after, value, by rw [text_eq], gap, denotes, ?_⟩
      have moved := drop_behind (read ++ inner) (Numeral.atFront text) after
      rwa [text_eq] at moved

theorem opcode?_of_apart (opcode : Opcode) (before : Apart read.getLast?)
    (later : Apart rest.head?) :
    (behind read (opcode.mnemonic.toList ++ rest)).opcode? =
      some (opcode, behind (read ++ opcode.mnemonic.toList) rest) := by
  obtain ⟨earlier, others, all_eq, notMem⟩ := List.eq_append_cons_of_mem opcode.mem_all
  refine List.findSome?_eq_some_iff.mpr ⟨earlier, opcode, others, all_eq, ?_, ?_⟩
  · rw [keyword?_of_apart opcode.mnemonic.toList before later]
    rfl
  · intro other member
    have different : opcode ≠ other := by
      rintro rfl
      exact notMem member
    have starts := Opcode.mnemonic_head_ne different
    rw [keyword?_of_head_ne other.mnemonic_ne_nil
      (head?_keyword_ne opcode.mnemonic_ne_nil starts rest)]
    rfl

theorem exists_of_opcode? (found : (behind read rest).opcode? = some (opcode, cursor)) :
    ∃ after, rest = opcode.mnemonic.toList ++ after ∧
      cursor = behind (read ++ opcode.mnemonic.toList) after ∧
      Apart read.getLast? ∧ Apart after.head? := by
  obtain ⟨candidate, -, matched⟩ := List.exists_of_findSome?_eq_some found
  obtain ⟨place, keyword, same⟩ := Option.map_eq_some_iff.mp matched
  obtain ⟨rfl, rfl⟩ := Prod.mk.inj same
  exact exists_of_keyword? keyword

theorem opcode?_of_head_ne {text : List Char}
    (different : ∀ opcode : Opcode, text.head? ≠ opcode.mnemonic.toList.head?) :
    (behind read text).opcode? = none := by
  apply List.findSome?_eq_none_iff.mpr
  intro opcode _
  rw [keyword?_of_head_ne opcode.mnemonic_ne_nil (different opcode)]
  rfl

/-- The numeral after a keyword that stands here, and the place after it. -/
def numbered? (cursor : Cursor) (keyword : List Char) : Option (List Char × Cursor) :=
  (cursor.keyword? keyword).bind numeral?

theorem numbered?_of_denotes {inner : List Char} (keyword : List Char)
    (gap : Gap (numeral ++ after) inner) (denotes : Numeral.Denotes numeral value)
    (before : Apart read.getLast?) (apart : Apart (inner ++ numeral ++ after).head?)
    (later : Apart after.head?) :
    (behind read (keyword ++ (inner ++ numeral ++ after))).numbered? keyword =
      some (numeral, behind (read ++ keyword ++ (inner ++ numeral)) after) := by
  rw [numbered?, keyword?_of_apart keyword before apart, Option.bind_some, List.append_assoc inner,
    numeral?_of_denotes _ gap denotes later, ← List.append_assoc _ inner]

theorem exists_of_numbered?
    (found : (behind read rest).numbered? keyword = some (numeral, cursor)) :
    ∃ inner after value, rest = keyword ++ (inner ++ numeral ++ after) ∧
      Gap (numeral ++ after) inner ∧ Numeral.Denotes numeral value ∧
      cursor = behind (read ++ keyword ++ (inner ++ numeral)) after ∧
      Apart read.getLast? ∧ Apart (inner ++ numeral ++ after).head? := by
  obtain ⟨place, atKeyword, numbered⟩ := Option.bind_eq_some_iff.mp found
  obtain ⟨_, rfl, rfl, before, apart⟩ := exists_of_keyword? atKeyword
  obtain ⟨inner, after, value, rfl, gap, denotes, rfl⟩ := exists_of_numeral? numbered
  rw [← List.append_assoc] at apart
  exact ⟨inner, after, value, by rw [List.append_assoc inner], gap, denotes,
    by rw [List.append_assoc _ inner], before, apart⟩

theorem numbered?_of_head_ne {text : List Char} (some : keyword ≠ [])
    (different : text.head? ≠ keyword.head?) : (behind read text).numbered? keyword = none := by
  rw [numbered?, keyword?_of_head_ne some different, Option.bind_none]

/-- The statement whose keyword stands here, and the place after it: the three kinds are
tried one after another. -/
def started? (cursor : Cursor) : Option (Statement × Cursor) :=
  (((cursor.numbered? "push".toList).map (Prod.map .push id)).or
    (cursor.opcode?.map (Prod.map .op id))).or
    ((cursor.numbered? ".word".toList).map (Prod.map .word id))

theorem statement?_eq (cursor : Cursor) : cursor.statement? = cursor.skip.started? := by
  rw [statement?, started?, numbered?, numbered?, Option.map_bind, Option.map_bind]
  rfl

theorem started?_of_operand (isOperand : statement.Operand after operand)
    (before : Apart read.getLast?) (apart : Apart (operand ++ after).head?)
    (later : Apart after.head?) :
    (behind read (statement.keyword ++ (operand ++ after))).started? =
      some (statement, behind (read ++ statement.keyword ++ operand) after) := by
  induction isOperand with
  | push inner denotes =>
      show (behind read ("push".toList ++ _)).started? = _
      rw [started?, numbered?_of_denotes "push".toList inner denotes before apart later]
      rfl
  | op opcode =>
      have notPush := head?_keyword_ne opcode.mnemonic_ne_nil opcode.mnemonic_head_ne_push
      show (behind read (opcode.mnemonic.toList ++ _)).started? = _
      rw [started?, numbered?_of_head_ne (by decide) (notPush _),
        opcode?_of_apart opcode before apart, List.append_nil]
      rfl
  | word inner denotes =>
      have starts (other : List Char) := @head?_keyword_ne ".word".toList other (by decide)
      show (behind read (".word".toList ++ _)).started? = _
      rw [started?, numbered?_of_head_ne (by decide) (starts "push".toList (by decide) _),
        opcode?_of_head_ne fun opcode => starts _ opcode.mnemonic_head_ne_word.symm _,
        numbered?_of_denotes ".word".toList inner denotes before apart later]
      rfl

theorem exists_of_started? (found : (behind read rest).started? = some (statement, cursor)) :
    ∃ operand after, rest = statement.keyword ++ (operand ++ after) ∧
      statement.Operand after operand ∧
      cursor = behind (read ++ statement.keyword ++ operand) after ∧
      Apart read.getLast? ∧ Apart (operand ++ after).head? := by
  rw [started?, Option.or_eq_some_iff, Option.or_eq_some_iff] at found
  rcases found with (pushed | ⟨-, named⟩) | ⟨-, bare⟩
  · obtain ⟨⟨numeral, place⟩, numbered, same⟩ := Option.map_eq_some_iff.mp pushed
    obtain ⟨rfl, rfl⟩ := Prod.mk.inj same
    obtain ⟨inner, after, value, text_eq, gap, denotes, moved, apart⟩ :=
      exists_of_numbered? numbered
    exact ⟨inner ++ numeral, after, text_eq, .push gap denotes, moved, apart⟩
  · obtain ⟨⟨opcode, place⟩, mnemonic, same⟩ := Option.map_eq_some_iff.mp named
    obtain ⟨rfl, rfl⟩ := Prod.mk.inj same
    obtain ⟨after, text_eq, moved, apart⟩ := exists_of_opcode? mnemonic
    exact ⟨[], after, text_eq, .op opcode, by rwa [List.append_nil], apart⟩
  · obtain ⟨⟨numeral, place⟩, numbered, same⟩ := Option.map_eq_some_iff.mp bare
    obtain ⟨rfl, rfl⟩ := Prod.mk.inj same
    obtain ⟨inner, after, value, text_eq, gap, denotes, moved, apart⟩ :=
      exists_of_numbered? numbered
    exact ⟨inner ++ numeral, after, text_eq, .word gap denotes, moved, apart⟩

/-- No keyword starts as a blank or a comment does. -/
theorem solid_keyword (statement : Statement) (rest : List Char) :
    Solid (statement.keyword ++ rest) := by
  cases statement with
  | push numeral => exact solid_cons (by decide) (by decide) _
  | word numeral => exact solid_cons (by decide) (by decide) _
  | op opcode =>
      rcases opcode with _ | (_ | _ | _ | _) <;> exact solid_cons (by decide) (by decide) _

theorem skip_of_stands (stands : phrase.Stands read after) :
    (behind read (phrase.chars ++ after)).skip =
      behind (read ++ phrase.gap) (phrase.statement.keyword ++ (phrase.operand ++ after)) := by
  rw [Phrase.chars, List.append_assoc, List.append_assoc]
  refine skip_gap read ?_ (solid_keyword _ _)
  rw [← List.append_assoc]
  exact stands.gap

/-- **The statement of a phrase is read where the phrase stands**, unless characters of a
word follow. -/
theorem statement?_of_stands (stands : phrase.Stands read after) (later : Apart after.head?) :
    (behind read (phrase.chars ++ after)).statement? =
      some (phrase.statement, behind (read ++ phrase.chars) after) := by
  rw [statement?_eq, skip_of_stands stands,
    started?_of_operand stands.operand stands.apart_before stands.apart_after later,
    Phrase.chars, ← List.append_assoc, ← List.append_assoc]

/-- **A statement that is read is the statement of a phrase that stands there.** -/
theorem exists_phrase (found : (behind read rest).statement? = some (statement, cursor)) :
    ∃ (phrase : Phrase) (after : List Char), phrase.statement = statement ∧
      rest = phrase.chars ++ after ∧ phrase.Stands read after ∧
      cursor = behind (read ++ phrase.chars) after := by
  obtain ⟨gap, text, rfl, isGap, -, skipped⟩ := exists_gap read rest
  rw [statement?_eq, skipped] at found
  obtain ⟨operand, after, rfl, isOperand, rfl, before, apart⟩ := exists_of_started? found
  rw [← List.append_assoc] at isGap
  refine ⟨⟨gap, statement, operand⟩, after, rfl, ?_, ⟨isGap, isOperand, before, apart⟩, ?_⟩
  · rw [Phrase.chars, List.append_assoc, List.append_assoc]
  · rw [Phrase.chars, ← List.append_assoc, ← List.append_assoc]

theorem statement?_of_gap {last : List Char} (read : List Char) (gap : Gap [] last) :
    (behind read last).statement? = none := by
  have skipped := skip_gap read gap solid_nil
  rw [List.append_nil] at skipped
  rw [statement?_eq, skipped, started?, numbered?_of_head_ne (by decide) (by decide),
    numbered?_of_head_ne (by decide) (by decide),
    opcode?_of_head_ne fun opcode => by rcases opcode with _ | (_ | _ | _ | _) <;> decide]
  rfl

/-- Behind a keyword and a gap some numeral is read, if not the whole of the one that stands
there. -/
theorem isSome_numbered?_of_denotes {inner numeral : List Char} (keyword : List Char)
    (isGap : Gap (numeral ++ after) inner) (denotes : Numeral.Denotes numeral value)
    (apart_before : Apart read.getLast?) (apart_after : Apart (inner ++ numeral ++ after).head?) :
    ((behind read (keyword ++ (inner ++ numeral ++ after))).numbered? keyword).isSome := by
  obtain ⟨digit, others, rfl, decimal⟩ := denotes.exists_cons
  have found : Numeral.atFront (behind (read ++ keyword ++ inner)
      (digit :: others ++ after)).rest ≠ [] :=
    Numeral.atFront_ne_nil_of_isDecimal decimal (others ++ after)
  rw [numbered?, keyword?_of_apart keyword apart_before apart_after, Option.bind_some,
    List.append_assoc inner, numeral?_eq, skip_gap _ isGap (solid_numeral denotes after),
    if_neg found]
  rfl

theorem isSome_started?_iff (cursor : Cursor) :
    cursor.started?.isSome ↔ (cursor.numbered? "push".toList).isSome ∨ cursor.opcode?.isSome ∨
      (cursor.numbered? ".word".toList).isSome := by
  rw [started?, Option.isSome_or, Option.isSome_or, Option.isSome_map, Option.isSome_map,
    Option.isSome_map, Bool.or_eq_true, Bool.or_eq_true, or_assoc]

/-- Some statement is read where a phrase stands, whatever follows it. -/
theorem isSome_statement?_of_stands (stands : phrase.Stands read after) :
    ((behind read (phrase.chars ++ after)).statement?).isSome := by
  rw [statement?_eq, skip_of_stands stands, isSome_started?_iff]
  obtain ⟨gap, statement, operand⟩ := phrase
  obtain ⟨-, isOperand, apart_before, apart_after⟩ := stands
  simp only at isOperand apart_before apart_after ⊢
  cases isOperand with
  | push isGap denotes =>
      exact .inl (isSome_numbered?_of_denotes _ isGap denotes apart_before apart_after)
  | op opcode =>
      have found := opcode?_of_apart opcode apart_before apart_after
      exact .inr (.inl (Option.isSome_of_mem found))
  | word isGap denotes =>
      exact .inr (.inr (isSome_numbered?_of_denotes _ isGap denotes apart_before apart_after))

end Cursor

end ReversePolish
