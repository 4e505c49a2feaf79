import Mathlib.Data.List.Basic
import Mathlib.Data.List.TakeWhile
import ReversePolish.Listing.Grammar

/-! # Blanks and comments

A reader that skips blanks and comments passes over exactly one gap, the one up to the
first character that is neither (`Cursor.skip_gap`, `Cursor.exists_gap`). Places in a
text are told by what stands before them (`Cursor.behind`), so that a reader's moves are
appends.
-/

namespace ReversePolish

/-- A text that starts with neither a blank nor a comment. -/
def Solid (text : List Char) : Prop :=
  ∀ char rest, text = char :: rest → ¬ isBlank char ∧ ¬ (char = '/' ∧ rest.head? = some '/')

theorem solid_nil : Solid [] := fun _ _ same => absurd same (by simp)

theorem solid_cons {char : Char} (notBlank : ¬ isBlank char) (notSlash : char ≠ '/')
    (rest : List Char) : Solid (char :: rest) := by
  intro first others same
  obtain ⟨rfl, rfl⟩ := List.cons.inj same
  exact ⟨notBlank, fun pair => notSlash pair.1⟩

theorem not_isWordChar_of_isBlank {char : Char} (blank : isBlank char) : ¬ isWordChar char := by
  simp only [isBlank, Bool.or_eq_true, decide_eq_true_eq] at blank
  rcases blank with ((rfl | rfl) | rfl) | rfl <;> decide

/-- A text that ends in a line feed does not end in a character of a word. -/
theorem apart_of_last_feed {text : List Char} (feed : text.getLast? = some '\n')
    (before : List Char) : Apart (before ++ text).getLast? := by
  intro char last
  rw [List.getLast?_append, feed] at last
  obtain rfl := Option.some.inj last
  decide

/-- No gap starts with a character of a word. -/
theorem Gap.head_apart {gap after : List Char} (isGap : Gap after gap) : Apart gap.head? := by
  intro char head
  cases isGap with
  | empty => exact absurd head (by simp)
  | blank blank _ =>
      obtain rfl := Option.some.inj head
      exact not_isWordChar_of_isBlank blank
  | comment _ _ _ =>
      obtain rfl := Option.some.inj head
      decide

/-- A gap is a gap before any text that starts as the one after it did, or with a line feed. -/
theorem Gap.before_feed {gap after later : List Char} (isGap : Gap after gap)
    (starts : ∀ char ∈ later.head?, char ∈ after.head? ∨ char = '\n') : Gap later gap := by
  induction isGap with
  | empty => exact .empty
  | blank blank _ ih => exact .blank blank ih
  | @comment body gap inLine ends _ ih =>
      refine .comment inLine (fun char head => ?_) ih
      cases gap with
      | nil => exact (starts char head).elim (ends char) id
      | cons first rest => exact ends char head

/-- A gap is one before the start of what comes after it. -/
theorem Gap.of_append {gap after more : List Char} (isGap : Gap (after ++ more) gap) :
    Gap after gap :=
  isGap.before_feed fun _ head => .inl (List.mem_head?_append_of_mem_head? head)

/-- A line is what stands before the first line feed. -/
theorem exists_line (text : List Char) :
    ∃ line rest, text = line ++ rest ∧ '\n' ∉ line ∧ ∀ char ∈ rest.head?, char = '\n' := by
  refine ⟨text.takeWhile (· ≠ '\n'), text.dropWhile (· ≠ '\n'),
    List.takeWhile_append_dropWhile.symm, ?_, ?_⟩
  · intro member
    simpa using List.all_eq_true.mp List.all_takeWhile _ member
  · intro char head
    have stopped := List.head?_dropWhile_not (· ≠ '\n') text
    rw [Option.mem_def.mp head] at stopped
    simpa using stopped

namespace Cursor

variable {read gap after body : List Char}

/-- The place behind a text that was read, before the rest. -/
def behind (read rest : List Char) : Cursor := ⟨read.getLast?, rest⟩

theorem drop_behind (read taken rest : List Char) :
    (behind read (taken ++ rest)).drop taken.length = behind (read ++ taken) rest := by
  simp only [drop, behind, List.take_left, List.drop_left, List.getLast?_append]

theorem skipFrom_of_solid (read : List Char) (solid : Solid after) :
    skipFrom false read.getLast? after = behind read after := by
  cases after with
  | nil => rfl
  | cons char rest =>
      obtain ⟨notBlank, notComment⟩ := solid char rest rfl
      rw [skipFrom, if_neg (by simp), if_neg notBlank, if_neg notComment, behind]

theorem skipFrom_of_blank {char : Char} (read rest : List Char) (blank : isBlank char) :
    skipFrom false read.getLast? (char :: rest) =
      skipFrom false (read ++ [char]).getLast? rest := by
  rw [skipFrom, if_neg (by simp), if_pos blank, List.getLast?_concat]

theorem skipFrom_of_inLine (read rest : List Char) (inLine : '\n' ∉ body) :
    skipFrom true read.getLast? (body ++ rest) = skipFrom true (read ++ body).getLast? rest := by
  induction body generalizing read with
  | nil => rw [List.nil_append, List.append_nil]
  | cons char body ih =>
      obtain ⟨notFeed, inLine⟩ := List.ne_and_not_mem_of_not_mem_cons inLine
      have later := ih (read ++ [char]) inLine
      rw [List.getLast?_concat, List.append_assoc, List.singleton_append] at later
      rw [List.cons_append, skipFrom, if_pos rfl, decide_eq_true (Ne.symm notFeed), later]

/-- A line feed ends a comment and is skipped as a blank would be. -/
theorem skipFrom_of_ends (read : List Char) (ends : ∀ char ∈ after.head?, char = '\n') :
    skipFrom true read.getLast? after = skipFrom false read.getLast? after := by
  cases after with
  | nil => rfl
  | cons char rest =>
      obtain rfl : char = '\n' := ends char rfl
      rw [skipFrom, skipFrom]
      rfl

theorem skipFrom_of_comment (read : List Char) (inLine : '\n' ∉ body)
    (ends : ∀ char ∈ after.head?, char = '\n') :
    skipFrom false read.getLast? ('/' :: '/' :: (body ++ after)) =
      skipFrom false (read ++ '/' :: '/' :: body).getLast? after := by
  have inLine' : '\n' ∉ '/' :: body := by simp [inLine]
  have passed := skipFrom_of_inLine (read ++ ['/']) after inLine'
  rw [List.getLast?_concat, List.append_assoc, List.singleton_append] at passed
  rw [skipFrom, if_neg (by simp), if_neg (by decide), if_pos ⟨rfl, rfl⟩]
  exact passed.trans (skipFrom_of_ends _ ends)

/-- A gap is skipped as a whole. -/
theorem skip_gap (read : List Char) (isGap : Gap after gap) (solid : Solid after) :
    (behind read (gap ++ after)).skip = behind (read ++ gap) after := by
  rw [skip, behind]
  induction isGap generalizing read with
  | empty => rw [List.nil_append, List.append_nil, skipFrom_of_solid read solid]
  | @blank char gap blank _ ih =>
      rw [List.cons_append, skipFrom_of_blank read _ blank, ih, List.append_assoc,
        List.singleton_append]
  | @comment body gap inLine ends _ ih =>
      rw [List.cons_append, List.cons_append, List.append_assoc,
        skipFrom_of_comment read inLine ends, ih, List.append_assoc, List.cons_append,
        List.cons_append]

/-- What is skipped is a gap. -/
theorem exists_gap (read text : List Char) :
    ∃ gap after, text = gap ++ after ∧ Gap after gap ∧ Solid after ∧
      (behind read text).skip = behind (read ++ gap) after := by
  suffices found : ∃ gap after, text = gap ++ after ∧ Gap after gap ∧ Solid after by
    obtain ⟨gap, after, rfl, isGap, solid⟩ := found
    exact ⟨gap, after, rfl, isGap, solid, skip_gap read isGap solid⟩
  -- A comment takes more than its first character, so the induction is on the length.
  induction size_eq : text.length using Nat.strong_induction_on generalizing text with
  | _ size ih =>
      cases text with
      | nil => exact ⟨[], [], rfl, .empty, solid_nil⟩
      | cons char rest =>
          by_cases blank : isBlank char
          · obtain ⟨gap, after, rfl, isGap, solid⟩ := ih rest.length (by simp [← size_eq]) rest rfl
            exact ⟨char :: gap, after, rfl, .blank blank isGap, solid⟩
          · by_cases comment : char = '/' ∧ rest.head? = some '/'
            · obtain ⟨rfl, second⟩ := comment
              obtain ⟨line, rfl⟩ : ∃ line, rest = '/' :: line := List.head?_eq_some_iff.mp second
              obtain ⟨body, tail, rfl, inLine, ends⟩ := exists_line line
              have shorter : tail.length < size := by
                rw [← size_eq, List.length_cons, List.length_cons, List.length_append]
                omega
              obtain ⟨gap, after, rfl, isGap, solid⟩ := ih tail.length shorter tail rfl
              refine ⟨'/' :: '/' :: (body ++ gap), after, ?_, .comment inLine ends isGap, solid⟩
              rw [List.cons_append, List.cons_append, List.append_assoc]
            · refine ⟨[], char :: rest, rfl, .empty, ?_⟩
              intro first others same
              obtain ⟨rfl, rfl⟩ := List.cons.inj same
              exact ⟨blank, comment⟩

end Cursor

end ReversePolish
