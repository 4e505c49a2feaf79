import Mathlib.Order.Bounds.Defs
import ReversePolish.Source.Decoding
import ReversePolish.Proofs.Source.Places
import ReversePolish.Proofs.Text.Utf8

/-! # Texts from bytes

Bytes are read as the text that they spell, and refused if they spell none (`decodeText_exact`).
The place of a refusal is behind the longest start that spells a text. It counts bytes, so that
its line is the one the lexer reaches with that text, and its column is ahead of the lexer's by
the bytes that go on with a character in that line (`Utf8.Spelled.exists_lastLine`).
-/

namespace ReversePolish

variable {bytes earlier line : Bytes} {text : List Char}

/-! ## The last line of some bytes -/

/-- Bytes split behind the last line feed in them. -/
structure LastLine (bytes earlier line : Bytes) : Prop where
  whole : bytes = earlier ++ line
  single : 0x0a ∉ line
  opens : ∀ byte ∈ earlier.getLast?, byte = 0x0a

theorem LastLine.column_eq (last : LastLine bytes earlier line) :
    (bytePosition bytes).column = line.length + 1 := by
  obtain ⟨rfl, single, opens⟩ := last
  have inside : ∀ byte ∈ line.reverse, decide (byte ≠ 0x0a) = true := by
    intro byte member
    exact decide_eq_true fun feed => single (feed ▸ List.mem_reverse.mp member)
  have stops : earlier.reverse.takeWhile (· ≠ 0x0a) = [] := by
    cases reversed : earlier.reverse with
    | nil => rfl
    | cons byte others =>
        have ends : byte ∈ earlier.getLast? := by
          rw [List.getLast?_eq_head?_reverse, reversed]
          rfl
        rw [opens byte ends]
        rfl
  rw [bytePosition, List.reverse_append, List.takeWhile_append_of_pos inside, stops,
    List.append_nil, List.length_reverse]

/-- Behind bytes that spell a text, the place that counts bytes has the line of the place behind
the text, and its column is ahead by the bytes of the last line that go on with a character. -/
theorem Utf8.Spelled.exists_lastLine (spelled : Utf8.Spelled text bytes) :
    ∃ earlier line, LastLine bytes earlier line ∧
      (bytePosition bytes).line = (Position.after text).line ∧
      (bytePosition bytes).column =
        (Position.after text).column + line.countP Utf8.isContinuation := by
  suffices ∃ earlier line, LastLine bytes earlier line ∧
      bytes.count 0x0a + 1 = (Position.after text).line ∧
      line.length + 1 = (Position.after text).column + line.countP Utf8.isContinuation by
    obtain ⟨earlier, line, last, lines, columns⟩ := this
    exact ⟨earlier, line, last, lines, last.column_eq.trans columns⟩
  induction text using List.reverseRecOn generalizing bytes with
  | nil =>
      obtain rfl := Utf8.spelled_nil_iff.mp spelled
      exact ⟨[], [], ⟨rfl, by simp, by simp⟩, rfl, rfl⟩
  | append_singleton text char ih =>
      obtain ⟨before, piece, rfl, spelledBefore, spells⟩ := Utf8.spelled_append_iff.mp spelled
      rw [Utf8.spelled_singleton_iff] at spells
      obtain ⟨earlier, line, ⟨rfl, single, opens⟩, lines, columns⟩ := ih spelledBefore
      rw [Position.after_append, Position.past_cons, Position.past_nil, Position.advance]
      by_cases feed : char = '\n'
      · subst feed
        obtain rfl := Utf8.spells_feed_iff.mp spells
        rw [if_pos rfl]
        refine ⟨earlier ++ line ++ [0x0a], [], ⟨by simp, by simp, by simp⟩, ?_, rfl⟩
        rw [List.count_append, ← lines]
        rfl
      · have absent := spells.feed_not_mem feed
        have counted := spells.countP_add_one
        rw [if_neg feed]
        refine ⟨earlier, line ++ piece, ⟨List.append_assoc .., ?_, opens⟩, ?_, ?_⟩
        · rw [List.mem_append]
          exact not_or_intro single absent
        · rw [List.count_append, List.count_eq_zero.mpr absent]
          exact lines
        · rw [List.length_append, List.countP_append]
          simp only
          omega

/-! ## What bytes are read as -/

/-- The lengths of the starts of some bytes that spell a text. -/
def spelledLengths (bytes : Bytes) : Set Nat :=
  {length | length ≤ bytes.length ∧ ∃ text, Utf8.Spelled text (bytes.take length)}

/-- What is told of bytes that spell no text: the place behind the longest start that spells one,
and the byte there. -/
structure Undecodable (bytes : Bytes) (diagnostic : Diagnostic) (position : Position) : Prop where
  kind : diagnostic.kind = .lexical
  place : diagnostic.position? = some position
  longest : IsGreatest (spelledLengths bytes) position.offset
  char : ∃ byte, bytes[position.offset]? = some byte ∧
    diagnostic.char? = some (Char.ofNat byte.toNat)
  ahead : ∃ text lexer earlier line, Utf8.Spelled text (bytes.take position.offset) ∧
    (Lexer.ofText text).moved text.length = some lexer ∧
    LastLine (bytes.take position.offset) earlier line ∧
    position.line = lexer.position.line ∧
    position.column = lexer.position.column + line.countP Utf8.isContinuation ∧
    ((∀ byte ∈ line, byte.toNat < 0x80) → position.column = lexer.position.column)

/-- What is split off is the longest start that spells a text. -/
theorem isGreatest_of_split {read : Bytes} (whole : bytes = read ++ (Utf8.split bytes).2)
    (spelled : Utf8.Spelled text read) : IsGreatest (spelledLengths bytes) read.length := by
  constructor
  · refine ⟨by rw [whole]; simp, text, ?_⟩
    rw [whole, List.take_left]
    exact spelled
  · rintro length ⟨inside, other, spelledOther⟩
    have resplit := spelledOther.split_append (bytes.drop length)
    rw [List.take_append_drop] at resplit
    obtain ⟨more, later, -, -⟩ := Utf8.exists_split (bytes.drop length)
    -- What is left behind the other start is left behind what is split off.
    have left := congrArg List.length later
    rw [List.length_append, List.length_drop, ← congrArg Prod.snd resplit] at left
    have total := congrArg List.length whole
    rw [List.length_append] at total
    omega

theorem decodeText_of_spelled (spelled : Utf8.Spelled text bytes) :
    decodeText bytes = .ok text := by
  rw [decodeText, Utf8.spelled_iff_split.mp spelled]

theorem decodeText_eq_ok_iff : decodeText bytes = .ok text ↔ Utf8.Spelled text bytes := by
  refine ⟨fun decoded => ?_, decodeText_of_spelled⟩
  rw [Utf8.spelled_iff_split]
  cases parts : Utf8.split bytes with
  | mk read rest =>
      rw [decodeText, parts] at decoded
      cases rest with
      | nil =>
          obtain rfl := Except.ok.inj decoded
          rfl
      | cons byte rest => cases decoded

theorem decodeText_of_left {read rest : Bytes} {byte : UInt8}
    (left : Utf8.split (read ++ byte :: rest) = (text, byte :: rest)) :
    decodeText (read ++ byte :: rest) =
      .error (.undecodableByte (bytePosition read) byte) := by
  have taken : (read ++ byte :: rest).take ((read ++ byte :: rest).length -
      (byte :: rest).length) = read := by
    rw [List.length_append, Nat.add_sub_cancel, List.take_left]
  rw [decodeText, left]
  simp only [taken]

theorem exists_undecodable (unspelled : ∀ text, ¬ Utf8.Spelled text bytes) :
    ∃ diagnostic position, decodeText bytes = .error diagnostic ∧
      Undecodable bytes diagnostic position := by
  obtain ⟨read, whole, spelled, -⟩ := Utf8.exists_split bytes
  have longest := isGreatest_of_split whole spelled
  cases parts : Utf8.split bytes with
  | mk text rest =>
      rw [parts] at whole spelled
      cases rest with
      | nil => exact absurd (Utf8.spelled_iff_split.mpr parts) (unspelled text)
      | cons byte rest =>
          subst whole
          obtain ⟨earlier, line, last, lines, columns⟩ := spelled.exists_lastLine
          have moved := Lexer.moved_eq text [] (Lexer.ofText text) (List.append_nil text).symm
          refine ⟨_, bytePosition read, decodeText_of_left parts, rfl, rfl, longest,
            ⟨byte, ?_, rfl⟩, ?_⟩
          · rw [bytePosition, List.getElem?_append_right (Nat.le_refl _), Nat.sub_self]
            rfl
          · rw [show (bytePosition read).offset = read.length from rfl, List.take_left]
            refine ⟨text, _, earlier, line, spelled, moved, last, lines, columns, ?_⟩
            intro ascii
            rwa [Utf8.countP_isContinuation_of_ascii ascii] at columns

/-- **Bytes are read as the text that they spell**, and bytes that spell none are refused at the
exact place. -/
theorem decodeText_exact (bytes : Bytes) :
    (∀ text, decodeText bytes = .ok text ↔ Utf8.Spelled text bytes) ∧
    ((∀ text, ¬ Utf8.Spelled text bytes) →
      ∃ diagnostic position, decodeText bytes = .error diagnostic ∧
        Undecodable bytes diagnostic position) :=
  ⟨fun _ => decodeText_eq_ok_iff, exists_undecodable⟩

/-- Two lines of which the second has a byte that is in no spelling behind its only character. -/
def strayByte : Bytes := [0xc3, 0xa9, 0x0a, 0xe2, 0x82, 0xac, 0xff]

theorem decodeText_exact_of_strayByte :
    (∀ text, ¬ Utf8.Spelled text strayByte) ∧
      ∃ diagnostic position, decodeText strayByte = .error diagnostic ∧
        Undecodable strayByte diagnostic position := by
  have start : Utf8.Spelled ['é', '\n', '€'] [0xc3, 0xa9, 0x0a, 0xe2, 0x82, 0xac] :=
    .cons (Utf8.spells_utf8EncodeChar 'é') (.cons (Utf8.spells_utf8EncodeChar '\n')
      (.cons (Utf8.spells_utf8EncodeChar '€') .nil))
  have stuck : Utf8.split [0xff] = ([], [0xff]) := Utf8.split_of_none (by decide)
  have left := start.split_append [0xff]
  rw [stuck] at left
  have unspelled : ∀ text, ¬ Utf8.Spelled text strayByte := by
    intro text spelled
    have all := Utf8.spelled_iff_split.mp spelled
    cases left.symm.trans all
  exact ⟨unspelled, (decodeText_exact strayByte).2 unspelled⟩

end ReversePolish
