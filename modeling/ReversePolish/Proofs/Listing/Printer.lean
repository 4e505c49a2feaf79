import ReversePolish.Listing.Printer
import ReversePolish.Proofs.Instruction.Codec
import ReversePolish.Proofs.Listing.Digits
import ReversePolish.Proofs.Listing.Grammar

/-! # What is printed is a listing

The text of a word is a statement that means it (`exists_printed`), and the rest of its line
is a gap (`exists_lineEnd`). A text is put together from statements and the ends of their
lines (`ReadsAs.line`), so that the lines of words read as statements that mean these words
in order (`exists_readsAs_listing`). Words have a listing exactly if none of their addresses
has too many digits (`exists_listing?_iff`).
-/

namespace ReversePolish

variable {word : Nat} {operand after : List Char} {statement : Statement}

/-- A statement of a word as it is printed: it is the same whatever follows it, and it ends
where its text ends. -/
structure Printed (word : Nat) (statement : Statement) (operand : List Char) : Prop where
  means : statement.Means word
  isOperand : ∀ after, statement.Operand after operand
  apart : Apart operand.head?
  noTab : '\t' ∉ operand

/-- A statement that is the same whatever follows it, and whose text ends where it does. -/
structure Statement.Spelled (statement : Statement) (operand : List Char) : Prop where
  isOperand : ∀ after, statement.Operand after operand
  apart : Apart operand.head?
  noTab : '\t' ∉ operand

namespace Statement.Spelled

theorem noTab_of_denotes {numeral : List Char} (denotes : Numeral.Denotes numeral word) :
    '\t' ∉ ' ' :: numeral := by
  intro tab
  rcases List.mem_cons.mp tab with same | member
  · exact absurd same (by decide)
  · exact absurd (denotes.isWordChar _ member) (by decide)

theorem head_blank {numeral : List Char} : Apart (' ' :: numeral).head? := by
  intro char head
  obtain rfl := Option.some.inj head
  decide

theorem push {numeral : List Char} (denotes : Numeral.Denotes numeral word) :
    (push numeral).Spelled (' ' :: numeral) where
  isOperand _ := .push (.blank rfl .empty) denotes
  apart := head_blank
  noTab := noTab_of_denotes denotes

theorem op (opcode : Opcode) : (op opcode).Spelled [] where
  isOperand _ := .op opcode
  apart := by simp [Apart]
  noTab := by simp

theorem bare {numeral : List Char} (denotes : Numeral.Denotes numeral word) :
    (Statement.word numeral).Spelled (' ' :: numeral) where
  isOperand _ := .word (.blank rfl .empty) denotes
  apart := head_blank
  noTab := noTab_of_denotes denotes

end Statement.Spelled

namespace Printed

theorem spelled (printed : Printed word statement operand) : statement.Spelled operand :=
  ⟨printed.isOperand, printed.apart, printed.noTab⟩

theorem of_spelled (means : statement.Means word) (spelled : statement.Spelled operand) :
    Printed word statement operand :=
  ⟨means, spelled.isOperand, spelled.apart, spelled.noTab⟩

end Printed

theorem toList_renderWord (word : Int) :
    (Instruction.renderWord word).toList =
      ".word".toList ++ ' ' :: '0' :: 'x' :: (Text.hexWord word).toList := by
  show (".word 0x" ++ Text.hexWord word).toList = _
  rw [String.toList_append]
  rfl

theorem toList_render_push (number : Nat) :
    (Instruction.push number).render.toList =
      "push".toList ++ ' ' :: Nat.toDigits 10 number := by
  show ("push " ++ number.repr).toList = _
  rw [String.toList_append, Nat.toList_repr]
  rfl

/-- **The text of a word is a statement that means it.** -/
theorem exists_printed {shown : String} (small : word < wordRange)
    (listed : disassembleWord? word = some shown) :
    ∃ statement operand, shown.toList = statement.keyword ++ operand ∧
      Printed word statement operand := by
  have bare : ∃ statement operand, (Instruction.renderWord word).toList =
      statement.keyword ++ operand ∧ Printed word statement operand :=
    ⟨_, _, toList_renderWord word, .of_spelled (.word (Numeral.denotes_hexWord word) small)
      (.bare (Numeral.denotes_hexWord word))⟩
  cases decoded : decode word with
  | error error =>
      cases error with
      | illegal reason =>
          obtain rfl := Option.some.inj ((disassembleWord?_of_illegal decoded).symm.trans listed)
          exact bare
      | tooManyDigits =>
          rw [disassembleWord?, decoded] at listed
          cases listed
  | ok instruction =>
      obtain rfl := Option.some.inj ((disassembleWord?_of_decode decoded).symm.trans listed)
      obtain ⟨same, encodable⟩ := toWord_of_decode decoded
      cases instruction with
      | push value =>
          obtain ⟨number, rfl⟩ := Int.eq_ofNat_of_zero_le encodable.1
          rw [toWord_push encodable, Int.natCast_inj] at same
          subst same
          have denotes := Numeral.denotes_toDigits number
          exact ⟨_, _, toList_render_push number,
            .of_spelled (.push denotes (Int.ofNat_lt.mp encodable.2)) (.push denotes)⟩
      | primitive opcode =>
          rw [toWord_primitive, Int.natCast_inj] at same
          subst same
          exact ⟨_, _, (List.append_nil _).symm, .of_spelled (.op opcode) (.op opcode)⟩
      | reserved payload =>
          simp only [Instruction.render, same]
          exact bare

/-- The end of a line: a gap before any text. -/
structure LineEnd (gap : List Char) : Prop where
  isGap : ∀ after, Gap after gap
  last : gap.getLast? = some '\n'
  noTab : '\t' ∉ gap

theorem gap_of_padding {gap : List Char} (count : Nat) (isGap : Gap after gap) :
    Gap after (List.replicate count ' ' ++ gap) := by
  induction count with
  | zero => exact isGap
  | succ count ih => exact .blank rfl ih

namespace LineEnd

variable {gap : List Char}

/-- A statement does not run into the end of its line. -/
theorem head_apart (isEnd : LineEnd gap) (apart : Apart operand.head?) (after : List Char) :
    Apart (operand ++ (gap ++ after)).head? := by
  cases operand with
  | cons first rest => exact apart
  | nil =>
      have nonempty : gap ≠ [] := by
        rintro rfl
        exact absurd isEnd.last (by simp)
      rw [List.nil_append, List.head?_append_of_ne_nil gap nonempty]
      exact (isEnd.isGap []).head_apart

/-- Spaces, a comment and a line feed end a line. -/
theorem of_comment {body : List Char} (count : Nat) (inLine : '\n' ∉ body) (noTab : '\t' ∉ body) :
    LineEnd (List.replicate count ' ' ++ '/' :: '/' :: (body ++ ['\n'])) where
  isGap after := by
    refine gap_of_padding count (.comment inLine ?_ (.blank rfl .empty))
    intro char head
    exact (Option.some.inj head).symm
  last := by
    rw [List.getLast?_append, ← List.cons_append, ← List.cons_append, List.getLast?_concat,
      Option.some_or]
  noTab := by simp [noTab]

end LineEnd

/-- The comment of a line: the address of its word and the word itself. -/
def lineComment (address word : Int) : List Char :=
  ' ' :: Text.zeroPadded 10 4 address ++ ": ".toList ++ Text.zeroPadded 16 8 word

/-- The comment of a line holds no character that would end it, and no tab. -/
theorem not_mem_lineComment {char : Char} (address word : Int) (control : char < ' ') :
    char ∉ lineComment address word := by
  have visible : Numeral.hexDigits.all (' ' ≤ ·) := by decide
  have noDigit {base width : Nat} {number : Int} (base_gt : 1 < base) (base_le : base ≤ 16) :
      char ∉ Text.zeroPadded base width number := by
    intro member
    rcases Numeral.mem_zeroPadded base_gt base_le member with rfl | digit
    · exact absurd control (by decide)
    · have shown := List.all_eq_true.mp visible char (Numeral.mem_hexDigits digit)
      exact Char.not_lt.mpr (of_decide_eq_true shown) control
  have noMark : char ∉ ": ".toList := by
    intro member
    have marks : ": ".toList.all (' ' ≤ ·) := by decide
    exact Char.not_lt.mpr (of_decide_eq_true (List.all_eq_true.mp marks char member)) control
  rw [lineComment, List.mem_append, List.mem_append, List.mem_cons]
  rintro (((rfl | address) | mark) | word)
  · exact absurd control (by decide)
  · exact noDigit (by decide) (by decide) address
  · exact noMark mark
  · exact noDigit (by decide) (by decide) word

/-- The line of a word as it is printed, when its text and its address are known. -/
def printedLine (shown : String) (address word : Int) : String :=
  listingLine shown (String.ofList (Text.zeroPadded 10 4 address)) word ++ "\n"

theorem toList_printedLine (shown : String) (address word : Int) :
    (printedLine shown address word).toList =
      shown.toList ++ (List.replicate (instructionWidth - shown.length) ' ' ++
        '/' :: '/' :: (lineComment address word ++ ['\n'])) := by
  show (Text.spacePadded instructionWidth shown ++ "// " ++
    String.ofList (Text.zeroPadded 10 4 address) ++ ": " ++ Text.hexWord word ++ "\n").toList = _
  simp [Text.spacePadded, lineComment, Text.hexWord]

/-- The rest of a line, behind the text of its word, is a gap. -/
theorem exists_lineEnd (shown : String) (address word : Int) :
    ∃ gap, (printedLine shown address word).toList = shown.toList ++ gap ∧ LineEnd gap :=
  ⟨_, toList_printedLine shown address word,
    .of_comment _ (not_mem_lineComment address word (by decide))
      (not_mem_lineComment address word (by decide))⟩

section Listed

variable {address first word : Int} {words rest : List Int} {text : String}

theorem wordLine?_eq_some_iff {line : String} :
    wordLine? address word = some line ↔
      ∃ shown, disassembleWord? word = some shown ∧ Text.Writable address ∧
        line ++ "\n" = printedLine shown address word := by
  by_cases writable : Text.Writable address
  · cases shows : disassembleWord? word with
    | none => simp [wordLine?, shows]
    | some shown =>
        simp [wordLine?, shows, printedLine, Text.decimal?, writable, String.append_left_inj,
          eq_comm]
  · simp [wordLine?, Text.decimal?, writable]

/-- A listing is its first line before the listing of the other words. -/
theorem listing?_cons_eq_some_iff :
    listing? address (word :: rest) = some text ↔
      ∃ shown others, disassembleWord? word = some shown ∧ Text.Writable address ∧
        listing? (address + 1) rest = some others ∧
        text = printedLine shown address word ++ others := by
  rw [listing?, listing?, wordLines?]
  constructor
  · intro listed
    cases entry : wordLine? address word with
    | none => simp [entry] at listed
    | some line =>
        cases others : wordLines? (address + 1) rest with
        | none => simp [entry, others] at listed
        | some lines =>
            obtain ⟨shown, shows, writable, ended⟩ := wordLine?_eq_some_iff.mp entry
            refine ⟨shown, _, shows, writable, rfl, ?_⟩
            rw [← ended]
            simpa [entry, others, String.join_cons] using listed.symm
  · rintro ⟨shown, others, shows, writable, listed, rfl⟩
    obtain ⟨lines, entries, rfl⟩ := Option.map_eq_some_iff.mp listed
    have entry : wordLine? address word =
        some (listingLine shown (String.ofList (Text.zeroPadded 10 4 address)) word) :=
      wordLine?_eq_some_iff.mpr ⟨shown, shows, writable, rfl⟩
    simp [entry, entries, String.join_cons, printedLine]

/-- **Words have a listing** exactly if every address in it can be written. -/
theorem exists_listing?_iff (fit : ∀ word ∈ words, Word.Fits word) :
    (∃ text, listing? first words = some text) ↔
      ∀ index : Nat, index < words.length → Text.Writable (first + index) := by
  induction words generalizing first with
  | nil => exact iff_of_true ⟨"", rfl⟩ fun index below => absurd below (Nat.not_lt_zero index)
  | cons word rest ih =>
      obtain ⟨fits, fit_rest⟩ := List.forall_mem_cons.mp fit
      obtain ⟨shown, shows⟩ := exists_disassembleWord? fits.writable
      have shift (index : Nat) : first + (index + 1 : Nat) = first + 1 + index := by omega
      constructor
      · rintro ⟨text, listed⟩ index below
        obtain ⟨-, others, -, writable, listed_rest, -⟩ := listing?_cons_eq_some_iff.mp listed
        cases index with
        | zero => rwa [Int.natCast_zero, Int.add_zero]
        | succ index =>
            rw [shift]
            exact (ih fit_rest).mp ⟨others, listed_rest⟩ index (Nat.lt_of_succ_lt_succ below)
      · intro writable
        have here := writable 0 (Nat.zero_lt_succ _)
        rw [Int.natCast_zero, Int.add_zero] at here
        obtain ⟨others, listed_rest⟩ := (ih fit_rest).mpr fun index below => by
          rw [← shift]
          exact writable (index + 1) (Nat.succ_lt_succ below)
        exact ⟨_, listing?_cons_eq_some_iff.mpr ⟨shown, others, shows, here, listed_rest, rfl⟩⟩

end Listed

theorem tab_not_mem_keyword (statement : Statement) : '\t' ∉ statement.keyword :=
  fun member => not_space_of_mem_keyword member (.inr rfl)

/-- A text that, behind any gap, is made up of phrases of the given statements. Tabs are left
out, so that expanding them changes nothing. -/
structure ReadsAs (text : List Char) (statements : List Statement) : Prop where
  exists_phrases : ∀ before gap : List Char, (∀ after, Gap after gap) →
    Apart (before ++ gap).getLast? →
      ∃ phrases last, gap ++ text = Phrase.text phrases last ∧
        Phrase.AllStand before phrases last ∧ phrases.map Phrase.statement = statements
  noTab : '\t' ∉ text

namespace ReadsAs

variable {text gap : List Char} {statements : List Statement}

theorem nil : ReadsAs [] [] where
  exists_phrases _ gap isGap _ := ⟨[], gap, List.append_nil gap, isGap [], rfl⟩
  noTab := List.not_mem_nil

/-- A statement at the very end of a text. -/
theorem last (spelled : statement.Spelled operand) :
    ReadsAs (statement.keyword ++ operand) [statement] where
  exists_phrases before gap isGap apart := by
    refine ⟨[⟨gap, statement, operand⟩], [], ?_, ⟨⟨isGap _, spelled.isOperand _, apart, ?_⟩,
      .empty⟩, rfl⟩
    · rw [Phrase.text_cons, Phrase.text_nil, Phrase.chars, List.append_nil, List.append_assoc]
    · rw [Phrase.text_nil, List.append_nil]
      exact spelled.apart
  noTab := List.not_mem_append (tab_not_mem_keyword statement) spelled.noTab

/-- One more line before a text: the end of the line is the gap before what follows. -/
theorem line (spelled : statement.Spelled operand) (isEnd : LineEnd gap)
    (reads : ReadsAs text statements) :
    ReadsAs (statement.keyword ++ operand ++ (gap ++ text)) (statement :: statements) where
  exists_phrases before lead isGap apart := by
    obtain ⟨phrases, last, text_eq, stand, same⟩ := reads.exists_phrases
      (before ++ Phrase.chars ⟨lead, statement, operand⟩) gap isEnd.isGap
      (apart_of_last_feed isEnd.last _)
    have stands : Phrase.Stands before (Phrase.text phrases last) ⟨lead, statement, operand⟩ := by
      refine ⟨isGap _, spelled.isOperand _, apart, ?_⟩
      rw [← text_eq]
      exact isEnd.head_apart spelled.apart text
    refine ⟨⟨lead, statement, operand⟩ :: phrases, last, ?_, ⟨stands, stand⟩,
      congrArg (statement :: ·) same⟩
    rw [Phrase.text_cons, Phrase.chars, ← text_eq]
    simp only [List.append_assoc]
  noTab := List.not_mem_append
    (List.not_mem_append (tab_not_mem_keyword statement) spelled.noTab)
    (List.not_mem_append isEnd.noTab reads.noTab)

theorem exists_composes (reads : ReadsAs text statements) :
    ∃ phrases last, Composes text phrases last ∧ phrases.map Phrase.statement = statements := by
  obtain ⟨phrases, last, text_eq, stand, same⟩ :=
    reads.exists_phrases [] [] (fun _ => .empty) (by simp [Apart])
  exact ⟨phrases, last, ⟨text_eq, stand⟩, same⟩

end ReadsAs

/-- **The lines of words read as statements that mean them.** -/
theorem exists_readsAs_listing {words : List Nat} {address : Int} {text : String}
    (small : ∀ word ∈ words, word < wordRange)
    (listed : listing? address (words.map Int.ofNat) = some text) :
    ∃ statements, ReadsAs text.toList statements ∧
      List.Forall₂ Statement.Means statements words := by
  induction words generalizing address text with
  | nil =>
      obtain rfl := Option.some.inj listed
      exact ⟨[], .nil, .nil⟩
  | cons word rest ih =>
      obtain ⟨small, small_rest⟩ := List.forall_mem_cons.mp small
      obtain ⟨shown, others, shows, -, listed_rest, rfl⟩ := listing?_cons_eq_some_iff.mp listed
      obtain ⟨statement, operand, text_eq, printed⟩ := exists_printed small shows
      obtain ⟨lineEnd, line_eq, isEnd⟩ := exists_lineEnd shown address word
      obtain ⟨statements, reads, mean⟩ := ih small_rest listed_rest
      refine ⟨statement :: statements, ?_, .cons printed.means mean⟩
      have line : (printedLine shown address (Int.ofNat word)).toList =
          statement.keyword ++ operand ++ lineEnd :=
        line_eq.trans (congrArg (· ++ lineEnd) text_eq)
      rw [String.toList_append, line, List.append_assoc]
      exact .line printed.spelled isEnd reads

end ReversePolish
