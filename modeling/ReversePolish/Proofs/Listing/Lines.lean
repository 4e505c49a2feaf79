import ReversePolish.Listing.Lines
import ReversePolish.Proofs.Listing.Printer

/-! # The lines of a listing

A line that is printed for a word has the text of the word in its instruction column, if that
text is neither padded nor broken nor cut short by a comment (`instructionColumn_listing`).
-/

namespace ReversePolish

variable {text line : List Char} {words : List Int}

namespace Text

theorem lines_line (inLine : '\n' ∉ line) (rest : List Char) :
    lines (line ++ '\n' :: rest) = line :: lines rest := by
  induction line with
  | nil => rw [List.nil_append, lines, if_pos rfl]
  | cons char line ih =>
      obtain ⟨notFeed, inLine⟩ := List.ne_and_not_mem_of_not_mem_cons inLine
      rw [List.cons_append, lines, if_neg (Ne.symm notFeed), ih inLine]

theorem beforeComment_comment (noSlash : '/' ∉ line) (rest : List Char) :
    beforeComment (line ++ '/' :: '/' :: rest) = line := by
  induction line with
  | nil => rw [List.nil_append, beforeComment, if_pos ⟨rfl, rfl⟩]
  | cons char line ih =>
      obtain ⟨notSlash, noSlash⟩ := List.ne_and_not_mem_of_not_mem_cons noSlash
      rw [List.cons_append, beforeComment, if_neg fun comment => notSlash comment.1.symm,
        ih noSlash]

theorem withoutPadding_padded (unpadded : text.getLast? ≠ some ' ') (count : Nat) :
    withoutPadding (text ++ List.replicate count ' ') = text := by
  have bare : text.reverse.dropWhile (· = ' ') = text.reverse := by
    rw [← List.head?_reverse] at unpadded
    cases reversed : text.reverse with
    | nil => rfl
    | cons char rest =>
        rw [reversed] at unpadded
        exact List.dropWhile_cons_of_neg (by simpa using unpadded)
  rw [withoutPadding, List.reverse_append, List.reverse_replicate,
    List.dropWhile_append_of_pos (by simp), bare, List.reverse_reverse]

end Text

/-- A text that fills its place in the instruction column of a line by itself. -/
structure FillsColumn (text : List Char) : Prop where
  inLine : '\n' ∉ text
  noSlash : '/' ∉ text
  unpadded : text.getLast? ≠ some ' '

theorem FillsColumn.of_chars (chars : ∀ char ∈ text, isWordChar char ∨ char = ' ')
    (last : ∃ char ∈ text.getLast?, isWordChar char) : FillsColumn text where
  inLine member := absurd (chars '\n' member) (by decide)
  noSlash member := absurd (chars '/' member) (by decide)
  unpadded := by
    obtain ⟨char, isLast, isWord⟩ := last
    rintro blank
    obtain rfl : char = ' ' := Option.some.inj (isLast.symm.trans blank)
    exact absurd isWord (by decide)

/-- What is printed for words shows their texts in its instruction column. -/
theorem instructionColumn_listing {address : Int} {shown : List String} {printed : String}
    (shows : words.map disassembleWord? = shown.map some)
    (fill : ∀ text ∈ shown, FillsColumn text.toList)
    (listed : listing? address words = some printed) :
    instructionColumn printed.toList = shown.map String.toList := by
  induction words generalizing address shown printed with
  | nil =>
      obtain rfl := Option.some.inj listed
      obtain rfl := List.map_eq_nil_iff.mp shows.symm
      rfl
  | cons word rest ih =>
      obtain ⟨text, others, rfl, same, shows_rest⟩ := List.map_eq_cons_iff.mp shows.symm
      obtain ⟨fills, fill_rest⟩ := List.forall_mem_cons.mp fill
      obtain ⟨entry, after, entry_shows, -, listed_rest, rfl⟩ :=
        listing?_cons_eq_some_iff.mp listed
      obtain rfl := Option.some.inj (same.trans entry_shows)
      have line_eq (line spaces comment others : List Char) :
          line ++ (spaces ++ '/' :: '/' :: (comment ++ ['\n'])) ++ others =
            line ++ spaces ++ '/' :: '/' :: comment ++ '\n' :: others := by simp
      have noSlash (count : Nat) : '/' ∉ text.toList ++ List.replicate count ' ' :=
        List.not_mem_append fills.noSlash fun member =>
          absurd (List.eq_of_mem_replicate member) (by decide)
      have inLine (count : Nat) :
          '\n' ∉ text.toList ++ List.replicate count ' ' ++ '/' :: '/' ::
            lineComment address word := by
        have noFeed := not_mem_lineComment address word (by decide : '\n' < ' ')
        simp [fills.inLine, noFeed]
      rw [String.toList_append, toList_printedLine, line_eq, instructionColumn,
        Text.lines_line (inLine _), List.map_cons, Text.beforeComment_comment (noSlash _),
        Text.withoutPadding_padded fills.unpadded, ← instructionColumn,
        ih shows_rest.symm fill_rest listed_rest, List.map_cons]

end ReversePolish
