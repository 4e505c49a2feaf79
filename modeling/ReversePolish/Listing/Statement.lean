import ReversePolish.Instruction.Opcode
import ReversePolish.Listing.Numeral
import ReversePolish.Text.Tabs

/-! # Statements of a listing

A listing is a sequence of statements: `push` and a numeral, the mnemonic of an
opcode, or `.word` and a numeral. Blanks and comments may stand before every
keyword and numeral and need not. A keyword ends where it can: what stands just
before it and just after it is not a character of a word.

`statements` reads statements as long as there is one, and `parseListing`
demands that nothing but blanks and comments is left.
-/

namespace ReversePolish

/-- A statement, its numeral as written. -/
inductive Statement where
  | push (numeral : List Char)
  | op (opcode : Opcode)
  | word (numeral : List Char)
  deriving Repr, DecidableEq

/-- A character that a keyword may not touch. -/
def isWordChar (char : Char) : Bool := char.isAlphanum || char = '_' || char = '$'

/-- A character between statements that means nothing. -/
def isBlank (char : Char) : Bool := char = ' ' || char = '\t' || char = '\r' || char = '\n'

/-- A place in a listing: the character just before it, and the text after. -/
structure Cursor where
  before : Option Char
  rest : List Char
  deriving Repr, DecidableEq

namespace Cursor

/-- The start of a text. -/
def ofText (text : List Char) : Cursor := ⟨none, text⟩

/-- Moves over the first `count` characters. -/
def drop (cursor : Cursor) (count : Nat) : Cursor where
  before := (cursor.rest.take count).getLast?.or cursor.before
  rest := cursor.rest.drop count

/-- Moves over blanks and comments; a comment, once begun, goes on to the end of
its line. -/
def skipFrom (inComment : Bool) (before : Option Char) : List Char → Cursor
  | [] => ⟨before, []⟩
  | char :: rest =>
      if inComment then skipFrom (char ≠ '\n') (some char) rest
      else if isBlank char then skipFrom false (some char) rest
      else if char = '/' ∧ rest.head? = some '/' then skipFrom true (some char) rest
      else ⟨before, char :: rest⟩

/-- Moves over blanks and comments. -/
def skip (cursor : Cursor) : Cursor := skipFrom false cursor.before cursor.rest

/-- Moves over a keyword, if one stands here that touches no character of a
word. -/
def keyword? (cursor : Cursor) (keyword : List Char) : Option Cursor :=
  if keyword <+: cursor.rest ∧ cursor.before.all (!isWordChar ·) ∧
      (cursor.rest.drop keyword.length).head?.all (!isWordChar ·) then
    some (cursor.drop keyword.length)
  else none

/-- The numeral after blanks and comments, and the place after it. -/
def numeral? (cursor : Cursor) : Option (List Char × Cursor) :=
  let here := cursor.skip
  match Numeral.atFront here.rest with
  | [] => none
  | numeral => some (numeral, here.drop numeral.length)

/-- The opcode whose mnemonic stands here, and the place after it. -/
def opcode? (cursor : Cursor) : Option (Opcode × Cursor) :=
  Opcode.all.findSome? fun opcode =>
    (cursor.keyword? opcode.mnemonic.toList).map fun after => (opcode, after)

/-- The statement after blanks and comments, and the place after it. -/
def statement? (cursor : Cursor) : Option (Statement × Cursor) :=
  let here := cursor.skip
  let numbered (keyword : String) (make : List Char → Statement) : Option (Statement × Cursor) :=
    (here.keyword? keyword.toList).bind fun after =>
      after.numeral?.map fun (numeral, after) => (make numeral, after)
  numbered "push" .push
    |>.or (here.opcode?.map fun (opcode, after) => (.op opcode, after))
    |>.or (numbered ".word" .word)

theorem length_skipFrom_le (inComment : Bool) (before : Option Char) (text : List Char) :
    (skipFrom inComment before text).rest.length ≤ text.length := by
  induction text generalizing inComment before with
  | nil => exact Nat.le_refl _
  | cons char rest ih =>
      have shorter (inComment : Bool) (before : Option Char) :
          (skipFrom inComment before rest).rest.length ≤ (char :: rest).length :=
        Nat.le_succ_of_le (ih inComment before)
      unfold skipFrom
      split
      · exact shorter _ _
      · split
        · exact shorter _ _
        · split
          · exact shorter _ _
          · exact Nat.le_refl _

theorem length_skip_le (cursor : Cursor) : cursor.skip.rest.length ≤ cursor.rest.length :=
  length_skipFrom_le _ _ _

theorem length_of_keyword? {cursor after : Cursor} {keyword : List Char}
    (found : cursor.keyword? keyword = some after) :
    cursor.rest.length = keyword.length + after.rest.length := by
  unfold keyword? at found
  split at found
  · next valid =>
      cases found
      have := valid.1.length_le
      simp only [drop, List.length_drop]
      omega
  · cases found

theorem length_numeral?_le {cursor after : Cursor} {numeral : List Char}
    (found : cursor.numeral? = some (numeral, after)) :
    after.rest.length ≤ cursor.rest.length := by
  unfold numeral? at found
  simp only at found
  split at found
  · cases found
  · cases found
    simp only [drop, List.length_drop]
    exact Nat.le_trans (Nat.sub_le _ _) cursor.length_skip_le

theorem length_opcode?_lt {cursor after : Cursor} {opcode : Opcode}
    (found : cursor.opcode? = some (opcode, after)) :
    after.rest.length < cursor.rest.length := by
  obtain ⟨candidate, _, matched⟩ := List.exists_of_findSome?_eq_some found
  obtain ⟨place, keyword, same⟩ := Option.map_eq_some_iff.mp matched
  cases same
  rw [length_of_keyword? keyword]
  have : 0 < opcode.mnemonic.toList.length := by
    cases opcode with
    | halt => decide
    | arithmetic operator => cases operator <;> decide
  omega

theorem length_statement?_lt {cursor after : Cursor} {statement : Statement}
    (found : cursor.statement? = some (statement, after)) :
    after.rest.length < cursor.rest.length := by
  have numbered {keyword : String} {make : List Char → Statement}
      (nonempty : 0 < keyword.toList.length)
      (found : ((cursor.skip.keyword? keyword.toList).bind fun after =>
        after.numeral?.map fun (numeral, after) => (make numeral, after)) =
          some (statement, after)) : after.rest.length < cursor.rest.length := by
    obtain ⟨place, keyword, found⟩ := Option.bind_eq_some_iff.mp found
    obtain ⟨⟨numeral, last⟩, numbered, same⟩ := Option.map_eq_some_iff.mp found
    cases same
    have := length_of_keyword? keyword
    have := length_numeral?_le numbered
    have := cursor.length_skip_le
    omega
  simp only [statement?, Option.or_eq_some_iff] at found
  rcases found with (pushed | ⟨_, named⟩) | ⟨_, word⟩
  · exact numbered (by decide) pushed
  · obtain ⟨⟨opcode, last⟩, mnemonic, same⟩ := Option.map_eq_some_iff.mp named
    cases same
    exact Nat.lt_of_lt_of_le (length_opcode?_lt mnemonic) cursor.length_skip_le
  · exact numbered (by decide) word

/-- The statements from here on, as long as there is one, and the place after
the last. -/
def statements (cursor : Cursor) : List Statement × Cursor :=
  match _found : cursor.statement? with
  | none => ([], cursor)
  | some (statement, after) =>
      let (others, last) := statements after
      (statement :: others, last)
termination_by cursor.rest.length
decreasing_by exact length_statement?_lt ‹cursor.statement? = some (statement, after)›

end Cursor

/-- The statements of a listing; what is left after the last, if not blank, is
reported at its place in the text with its tabs expanded. -/
def parseListing (text : List Char) : Except Diagnostic (List Statement) :=
  let text := Text.expandTabs text
  let (statements, last) := (Cursor.ofText text).statements
  let left := last.skip.rest
  if left = [] then .ok statements
  else .error (.notAStatement (Position.after (text.take (text.length - left.length))))

end ReversePolish
