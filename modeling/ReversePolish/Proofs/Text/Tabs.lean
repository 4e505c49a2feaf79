import ReversePolish.Position
import ReversePolish.Text.Tabs

/-! # Places behind expanded tabs

A tab is expanded to spaces, and every other character stays (`Text.expansion`). So whatever is
no space in an expanded text stands in the text itself, behind what is expanded before it
(`Text.exists_of_expansion_eq`). The place behind an expanded text is in the line of the place
behind the text, there or further on (`Position.AheadOf.past_expansion`).
-/

namespace ReversePolish

namespace Text

variable {char : Char} {text first second : List Char} {column : Nat}

/-- A tab reaches the next stop, also from a stop. -/
theorem spaces_to_stop_pos (column : Nat) : 0 < tabWidth - column % tabWidth :=
  Nat.sub_pos_of_lt (Nat.mod_lt column (by decide))

/-- What a character at a column is expanded to. -/
def widened (column : Nat) (char : Char) : List Char :=
  if char = '\t' then List.replicate (tabWidth - column % tabWidth) ' ' else [char]

/-- The column behind a character at a column. -/
def columnBehind (column : Nat) (char : Char) : Nat :=
  if char = '\t' then column + (tabWidth - column % tabWidth)
  else if char = '\n' ∨ char = '\r' then 0
  else column + 1

/-- A text from a column on with its tabs expanded. -/
def expansion (column : Nat) : List Char → List Char
  | [] => []
  | char :: rest => widened column char ++ expansion (columnBehind column char) rest

theorem expandFrom_eq (column : Nat) (read text : List Char) :
    expandFrom column read text = read.reverse ++ expansion column text := by
  induction text generalizing column read with
  | nil => rw [expandFrom, expansion, List.append_nil]
  | cons char rest ih =>
      rw [expandFrom, expansion, widened, columnBehind]
      split
      · rw [ih, List.reverse_append, List.reverse_replicate, List.append_assoc]
      · split
        · rw [ih, List.reverse_cons, List.append_assoc]
        · rw [ih, List.reverse_cons, List.append_assoc]

theorem expandTabs_eq (text : List Char) : expandTabs text = expansion 0 text :=
  expandFrom_eq 0 [] text

theorem expansion_of_no_tab (noTab : '\t' ∉ text) (column : Nat) :
    expansion column text = text := by
  induction text generalizing column with
  | nil => rfl
  | cons char rest ih =>
      obtain ⟨notTab, noTab⟩ := List.ne_and_not_mem_of_not_mem_cons noTab
      rw [expansion, widened, if_neg (Ne.symm notTab), ih noTab, List.singleton_append]

/-- What is no space stands behind all of the spaces at the front of a text. -/
theorem exists_of_spaces_append_eq {count : Nat} {later : List Char} (notSpace : char ≠ ' ')
    (same : List.replicate count ' ' ++ later = first ++ char :: second) :
    ∃ more, first = List.replicate count ' ' ++ more ∧ later = more ++ char :: second := by
  rcases List.append_eq_append_iff.mp same with found | ⟨spaces, all_spaces, tail⟩
  · exact found
  · cases spaces with
    | nil => exact ⟨[], by rw [List.append_nil, all_spaces, List.append_nil], tail.symm⟩
    | cons space others =>
        obtain ⟨rfl, -⟩ := List.cons.inj tail
        have member : char ∈ List.replicate count ' ' := by simp [all_spaces]
        exact absurd (List.eq_of_mem_replicate member) notSpace

/-- What is no space in an expanded text stands in the text. -/
theorem exists_of_expansion_eq (notSpace : char ≠ ' ')
    (same : expansion column text = first ++ char :: second) :
    ∃ before rest later, text = before ++ char :: rest ∧ first = expansion column before ∧
      second = expansion later rest := by
  induction text generalizing column first with
  | nil => exact absurd same (by simp [expansion])
  | cons other rest ih =>
      by_cases tab : other = '\t'
      · rw [expansion, widened, if_pos tab] at same
        obtain ⟨more, rfl, tail⟩ := exists_of_spaces_append_eq notSpace same
        obtain ⟨before, rest, later, rfl, rfl, rfl⟩ := ih tail
        refine ⟨other :: before, rest, later, rfl, ?_, rfl⟩
        rw [expansion, widened, if_pos tab]
      · rw [expansion, widened, if_neg tab, List.singleton_append] at same
        cases first with
        | nil =>
            obtain ⟨rfl, rfl⟩ := List.cons.inj same
            exact ⟨[], rest, _, rfl, rfl, rfl⟩
        | cons head first =>
            obtain ⟨rfl, tail⟩ := List.cons.inj same
            obtain ⟨before, rest, later, rfl, rfl, rfl⟩ := ih tail
            refine ⟨other :: before, rest, later, rfl, ?_, rfl⟩
            rw [expansion, widened, if_neg tab, List.singleton_append]

end Text

namespace Position

variable {position other : Position}

/-- A place in the line of another, there or further on: by as many columns at most as there are
characters between. -/
structure AheadOf (position other : Position) : Prop where
  line : position.line = other.line
  offset : other.offset ≤ position.offset
  column : other.column ≤ position.column
  drift : position.column - other.column ≤ position.offset - other.offset

theorem AheadOf.eq_of_offset_eq (ahead : position.AheadOf other)
    (same : position.offset = other.offset) : position = other := by
  obtain ⟨line, -, column, drift⟩ := ahead
  obtain ⟨offset, _, _⟩ := position
  simp only at same line column drift
  subst same line
  congr 1
  omega

theorem past_spaces (position : Position) (count : Nat) :
    position.past (List.replicate count ' ') =
      ⟨position.offset + count, position.line, position.column + count⟩ := by
  induction count generalizing position with
  | zero => rfl
  | succ count ih =>
      rw [List.replicate_succ, past_cons, ih, advance, if_neg (by decide)]
      simp only [Position.mk.injEq, true_and]
      omega

theorem AheadOf.advance (ahead : position.AheadOf other) (char : Char) :
    (position.advance char).AheadOf (other.advance char) := by
  obtain ⟨line, offset, column, drift⟩ := ahead
  rw [Position.advance, Position.advance]
  split
  · exact ⟨by simp only [line], by simp only; omega, Nat.le_refl 1, by simp only; omega⟩
  · exact ⟨line, by simp only; omega, by simp only; omega, by simp only; omega⟩

/-- A tab is expanded to one space at least. -/
theorem AheadOf.past_widened (ahead : position.AheadOf other) (column : Nat) (char : Char) :
    (position.past (Text.widened column char)).AheadOf (other.advance char) := by
  rw [Text.widened]
  split
  · next tab =>
      obtain ⟨line, offset, columns, drift⟩ := ahead
      have positive := Text.spaces_to_stop_pos column
      subst tab
      rw [past_spaces, Position.advance, if_neg (by decide)]
      exact ⟨line, by simp only; omega, by simp only; omega, by simp only; omega⟩
  · exact ahead.advance char

/-- The place behind an expanded text is in the line of the place behind the text. -/
theorem AheadOf.past_expansion (ahead : position.AheadOf other) (column : Nat)
    (text : List Char) :
    (position.past (Text.expansion column text)).AheadOf (other.past text) := by
  induction text generalizing position other column with
  | nil => exact ahead
  | cons char rest ih =>
      rw [Text.expansion, past_append, past_cons]
      exact ih (ahead.past_widened column char) _

theorem after_expandTabs_aheadOf (text : List Char) :
    (after (Text.expandTabs text)).AheadOf (after text) := by
  have start : Position.start.AheadOf Position.start :=
    ⟨rfl, Nat.le_refl _, Nat.le_refl _, Nat.le_refl _⟩
  rw [Text.expandTabs_eq]
  exact start.past_expansion 0 text

end Position

end ReversePolish
