/-! # Places in a text

A position counts the characters before it and names its line and column, both
from one. Only a line feed starts a new line; the position after a text is read
off the text alone (`Position.after`).
-/

namespace ReversePolish

/-- A place in a text: how many characters stand before it, its line and its
column. -/
structure Position where
  offset : Nat
  line : Nat
  column : Nat
  deriving Repr, DecidableEq, Inhabited

namespace Position

/-- The place before the first character. -/
def start : Position := ⟨0, 1, 1⟩

/-- The place after one more character: a line feed opens the next line, any
other character the next column. -/
def advance (position : Position) (char : Char) : Position :=
  if char = '\n' then ⟨position.offset + 1, position.line + 1, 1⟩
  else ⟨position.offset + 1, position.line, position.column + 1⟩

/-- The place reached by reading a text from `position`. -/
def past (position : Position) (text : List Char) : Position :=
  text.foldl advance position

/-- The place after a whole text. -/
def after (text : List Char) : Position := start.past text

/-- A position is written `line:column`. -/
def render (position : Position) : String :=
  s!"{position.line}:{position.column}"

@[simp] theorem advance_offset (position : Position) (char : Char) :
    (position.advance char).offset = position.offset + 1 := by
  unfold advance
  split <;> rfl

@[simp] theorem past_nil (position : Position) : position.past [] = position := rfl

@[simp] theorem past_cons (position : Position) (char : Char) (text : List Char) :
    position.past (char :: text) = (position.advance char).past text := rfl

theorem past_append (position : Position) (first second : List Char) :
    position.past (first ++ second) = (position.past first).past second :=
  List.foldl_append

@[simp] theorem past_offset (position : Position) (text : List Char) :
    (position.past text).offset = position.offset + text.length := by
  induction text generalizing position with
  | nil => rfl
  | cons char text ih =>
      rw [past_cons, ih, advance_offset, List.length_cons]
      omega

theorem past_line (position : Position) (text : List Char) :
    (position.past text).line = position.line + text.count '\n' := by
  induction text generalizing position with
  | nil => rfl
  | cons char text ih =>
      rw [past_cons, ih, List.count_cons]
      by_cases feed : char = '\n'
      · simp [advance, feed]
        omega
      · simp [advance, feed]

@[simp] theorem after_offset (text : List Char) : (after text).offset = text.length := by
  simp [after, start]

theorem after_append (first second : List Char) :
    after (first ++ second) = (after first).past second := past_append ..

theorem after_append_singleton (before : List Char) (char : Char) :
    after (before ++ [char]) = (after before).advance char := after_append ..

theorem after_line (text : List Char) : (after text).line = 1 + text.count '\n' := by
  simp [after, past_line, start]

end Position

end ReversePolish
