import Mathlib.Data.List.Basic
import Mathlib.Tactic.ByContra
import ReversePolish.Text.Spelling
import ReversePolish.Text.Utf8

/-! # Reading UTF-8

Every character has one spelling (`Utf8.spells_iff`), and the character at the front of some bytes
is the one whose spelling stands there (`Utf8.head?_eq_some_iff`). What is split off the front of
bytes starts with any text that is spelled there (`Utf8.Spelled.split_append`), so it is the
longest that is, and bytes spell a text exactly if nothing is left of them
(`Utf8.spelled_iff_split`).
-/

namespace ReversePolish

namespace Utf8

variable {char : Char} {text other : List Char} {bytes piece rest more : Bytes} {byte : UInt8}

/-! ## One character -/

theorem isContinuation_iff :
    isContinuation byte ↔ 0x80 ≤ byte.toNat ∧ byte.toNat < 0xc0 := by
  rw [isContinuation, Bool.and_eq_true, decide_eq_true_eq, decide_eq_true_eq]

theorem cons_eq_ofNat_cons {number : Nat} (same : byte.toNat = number) (others : more = rest) :
    byte :: more = UInt8.ofNat number :: rest := by
  rw [← same, UInt8.ofNat_toNat, others]

/-- What is spelled by the rules is the encoding of the character. -/
theorem Spells.eq_utf8EncodeChar (spells : Spells char piece) :
    piece = String.utf8EncodeChar char := by
  obtain ⟨known, count, lead, continues, number, shortest⟩ := spells
  simp only [String.utf8EncodeChar, show char.val.toNat = char.toNat from rfl]
  simp only [forms, List.mem_cons, List.not_mem_nil, or_false] at known
  rcases known with rfl | rfl | rfl | rfl
  · obtain rfl := List.length_eq_zero_iff.mp count
    simp only [joinBits, List.foldl_nil] at lead number shortest
    rw [if_pos (by omega)]
    exact cons_eq_ofNat_cons (by omega) rfl
  · obtain ⟨second, rfl⟩ := List.length_eq_one_iff.mp count
    simp only [List.forall_mem_cons, isContinuation_iff] at continues
    obtain ⟨second_range, -⟩ := continues
    simp only [joinBits, List.foldl_cons, List.foldl_nil] at lead number shortest
    rw [if_neg (by omega), if_pos (by omega)]
    exact cons_eq_ofNat_cons (by omega) (cons_eq_ofNat_cons (by omega) rfl)
  · obtain ⟨second, third, rfl⟩ := List.length_eq_two.mp count
    simp only [List.forall_mem_cons, isContinuation_iff] at continues
    obtain ⟨second_range, third_range, -⟩ := continues
    simp only [joinBits, List.foldl_cons, List.foldl_nil] at lead number shortest
    rw [if_neg (by omega), if_neg (by omega), if_pos (by omega)]
    exact cons_eq_ofNat_cons (by omega)
      (cons_eq_ofNat_cons (by omega) (cons_eq_ofNat_cons (by omega) rfl))
  · obtain ⟨second, third, fourth, rfl⟩ := List.length_eq_three.mp count
    simp only [List.forall_mem_cons, isContinuation_iff] at continues
    obtain ⟨second_range, third_range, fourth_range, -⟩ := continues
    simp only [joinBits, List.foldl_cons, List.foldl_nil] at lead number shortest
    rw [if_neg (by omega), if_neg (by omega), if_neg (by omega)]
    exact cons_eq_ofNat_cons (by omega) (cons_eq_ofNat_cons (by omega)
      (cons_eq_ofNat_cons (by omega) (cons_eq_ofNat_cons (by omega) rfl)))

theorem toNat_lt_of_char (char : Char) : char.toNat < 0x110000 := by
  have valid : char.toNat < 0xd800 ∨ 0xdfff < char.toNat ∧ char.toNat < 0x110000 := char.valid
  omega

/-- The encoding of a character spells it. -/
theorem spells_utf8EncodeChar (char : Char) : Spells char (String.utf8EncodeChar char) := by
  have bound := toNat_lt_of_char char
  simp only [String.utf8EncodeChar, show char.val.toNat = char.toNat from rfl]
  split
  · refine .form (show (⟨0, 0x00, 0x80, 0⟩ : Form) ∈ forms by decide) rfl ?_ ?_ ?_ ?_ <;>
      simp [joinBits, isContinuation_iff, UInt8.toNat_ofNat'] <;> omega
  split
  · refine .form (show (⟨1, 0xc0, 0x20, 0x80⟩ : Form) ∈ forms by decide) rfl ?_ ?_ ?_ ?_ <;>
      simp [joinBits, isContinuation_iff, UInt8.toNat_ofNat'] <;> omega
  split
  · refine .form (show (⟨2, 0xe0, 0x10, 0x800⟩ : Form) ∈ forms by decide) rfl ?_ ?_ ?_ ?_ <;>
      simp [joinBits, isContinuation_iff, UInt8.toNat_ofNat'] <;> omega
  · refine .form (show (⟨3, 0xf0, 0x08, 0x10000⟩ : Form) ∈ forms by decide) rfl ?_ ?_ ?_ ?_ <;>
      simp [joinBits, isContinuation_iff, UInt8.toNat_ofNat'] <;> omega

/-- Every character has one spelling. -/
theorem spells_iff : Spells char piece ↔ piece = String.utf8EncodeChar char := by
  constructor
  · exact Spells.eq_utf8EncodeChar
  · rintro rfl
    exact spells_utf8EncodeChar char

theorem Spells.length_eq (spells : Spells char piece) : piece.length = char.utf8Size := by
  rw [spells.eq_utf8EncodeChar, String.length_utf8EncodeChar]

/-- The character at the front of some bytes is the one whose spelling stands there. -/
theorem head?_eq_some_iff :
    head? bytes = some char ↔ ∃ piece rest, bytes = piece ++ rest ∧ Spells char piece := by
  constructor
  · intro found
    obtain ⟨others, window⟩ := ByteArray.exists_of_utf8DecodeChar?_eq_some found
    obtain ⟨later, rfl⟩ : ∃ later : Bytes, others = later.toByteArray :=
      ⟨others.data.toList, ByteArray.ext (by rw [← Array.toList_inj]; simp)⟩
    rw [← List.toByteArray_append, List.toByteArray_inj] at window
    refine ⟨_, later ++ bytes.drop 4, ?_, spells_utf8EncodeChar char⟩
    rw [← List.append_assoc, ← window, List.take_append_drop]
  · rintro ⟨piece, rest, rfl, spells⟩
    have short : piece.length ≤ 4 := spells.length_eq ▸ char.utf8Size_le_four
    rw [head?, List.take_append, List.take_of_length_le short, List.toByteArray_append,
      spells.eq_utf8EncodeChar]
    exact ByteArray.utf8DecodeChar?_utf8EncodeChar_append

/-- The lead bytes of a form are no bytes that go on with a character. -/
theorem not_isContinuation_of_lead {form : Form} (known : form ∈ forms)
    (lead : form.lead ≤ byte.toNat ∧ byte.toNat < form.lead + form.leads) :
    ¬ isContinuation byte := by
  rw [isContinuation_iff]
  simp only [forms, List.mem_cons, List.not_mem_nil, or_false] at known
  rcases known with rfl | rfl | rfl | rfl <;> simp only at lead <;> omega

/-- All bytes of a spelling but the first go on with the character. -/
theorem Spells.countP_add_one (spells : Spells char piece) :
    piece.countP isContinuation + 1 = piece.length := by
  obtain ⟨known, count, lead, continues, -, -⟩ := spells
  rw [List.countP_cons_of_neg (not_isContinuation_of_lead known lead),
    List.countP_eq_length.mpr continues, List.length_cons]

theorem countP_isContinuation_of_ascii (ascii : ∀ byte ∈ bytes, byte.toNat < 0x80) :
    bytes.countP isContinuation = 0 := by
  refine List.countP_eq_zero.mpr fun byte member => ?_
  have low := ascii byte member
  rw [isContinuation_iff]
  omega

theorem spells_feed_iff : Spells '\n' piece ↔ piece = [0x0a] := spells_iff

/-- The byte of a line feed is in the spelling of nothing else. -/
theorem Spells.feed_not_mem (spells : Spells char piece) (other : char ≠ '\n') :
    0x0a ∉ piece := by
  obtain ⟨known, count, lead, continues, number, -⟩ := spells
  intro member
  rcases List.mem_cons.mp member with first | later
  · subst first
    simp only [forms, List.mem_cons, List.not_mem_nil, or_false] at known
    rcases known with rfl | rfl | rfl | rfl
    · obtain rfl := List.length_eq_zero_iff.mp count
      exact other (Char.toNat_inj.mp number)
    all_goals exact absurd lead (by decide)
  · exact absurd (continues _ later) (by decide)

/-! ## A text -/

@[simp] theorem spelled_nil_iff : Spelled [] bytes ↔ bytes = [] := by
  constructor
  · intro spelled
    cases spelled
    rfl
  · rintro rfl
    exact .nil

theorem spelled_cons_iff :
    Spelled (char :: text) bytes ↔
      ∃ piece rest, bytes = piece ++ rest ∧ Spells char piece ∧ Spelled text rest := by
  constructor
  · intro spelled
    cases spelled with
    | cons spells more => exact ⟨_, _, rfl, spells, more⟩
  · rintro ⟨piece, rest, rfl, spells, more⟩
    exact .cons spells more

@[simp] theorem spelled_singleton_iff : Spelled [char] bytes ↔ Spells char bytes := by
  simp [spelled_cons_iff]

/-- Two texts one after the other are spelled one after the other. -/
theorem spelled_append_iff :
    Spelled (text ++ other) bytes ↔
      ∃ before later, bytes = before ++ later ∧ Spelled text before ∧ Spelled other later := by
  induction text generalizing bytes with
  | nil => simp
  | cons char text ih =>
      rw [List.cons_append, spelled_cons_iff]
      simp only [ih, spelled_cons_iff]
      constructor
      · rintro ⟨piece, _, rfl, spells, before, later, rfl, first, second⟩
        exact ⟨piece ++ before, later, (List.append_assoc ..).symm,
          ⟨piece, before, rfl, spells, first⟩, second⟩
      · rintro ⟨_, later, rfl, ⟨piece, before, rfl, spells, first⟩, second⟩
        exact ⟨piece, before ++ later, List.append_assoc .., spells, before, later, rfl, first,
          second⟩

/-! ## What is split off -/

theorem head?_nil : head? [] = none := by
  by_contra found
  obtain ⟨char, found⟩ := Option.ne_none_iff_exists'.mp found
  exact ne_nil_of_head? found rfl

theorem split_of_none (unfound : head? bytes = none) : split bytes = ([], bytes) := by
  rw [split, splitFrom]
  split
  · rfl
  · next found => exact absurd (unfound.symm.trans found) (by simp)

theorem Spells.split_append (spells : Spells char piece) (rest : Bytes) :
    split (piece ++ rest) = (char :: (split rest).1, (split rest).2) := by
  have found : head? (piece ++ rest) = some char := head?_eq_some_iff.mpr ⟨_, _, rfl, spells⟩
  rw [split, splitFrom]
  split
  · next unfound => exact absurd (unfound.symm.trans found) (by simp)
  · next other found' =>
      obtain rfl := Option.some.inj (found'.symm.trans found)
      rw [← spells.length_eq, List.drop_left, splitFrom_eq]
      rfl

/-- What is split off starts with any text that is spelled there. -/
theorem Spelled.split_append (spelled : Spelled text bytes) (rest : Bytes) :
    split (bytes ++ rest) = (text ++ (split rest).1, (split rest).2) := by
  induction spelled with
  | nil => rfl
  | cons spells more ih => rw [List.append_assoc, spells.split_append, ih, List.cons_append]

/-- What is split off is spelled there, and no character stands at the front of the rest. -/
theorem exists_split (bytes : Bytes) :
    ∃ read, bytes = read ++ (split bytes).2 ∧ Spelled (split bytes).1 read ∧
      head? (split bytes).2 = none := by
  induction length : bytes.length using Nat.strongRecOn generalizing bytes with
  | ind length ih =>
      cases found : head? bytes with
      | none =>
          rw [split_of_none found]
          exact ⟨[], rfl, .nil, found⟩
      | some char =>
          obtain ⟨piece, rest, rfl, spells⟩ := head?_eq_some_iff.mp found
          have positive := char.utf8Size_pos
          rw [← spells.length_eq] at positive
          rw [List.length_append] at length
          obtain ⟨read, whole, spelled, stuck⟩ := ih rest.length (by omega) rest rfl
          rw [spells.split_append]
          refine ⟨piece ++ read, ?_, .cons spells spelled, stuck⟩
          rw [List.append_assoc, ← whole]

/-- Bytes spell a text exactly if nothing is left when it is split off. -/
theorem spelled_iff_split : Spelled text bytes ↔ split bytes = (text, []) := by
  constructor
  · intro spelled
    have all := spelled.split_append []
    rwa [List.append_nil, split_of_none head?_nil, List.append_nil] at all
  · intro all
    obtain ⟨read, whole, spelled, -⟩ := exists_split bytes
    rw [all] at whole spelled
    rw [List.append_nil] at whole
    exact whole ▸ spelled

end Utf8

end ReversePolish
