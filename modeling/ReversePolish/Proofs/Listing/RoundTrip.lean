import ReversePolish.Proofs.Listing.Assembler
import ReversePolish.Proofs.Listing.Printer

/-! # Listings go back to their bytecode

A listing is printed without tabs, so that expanding them leaves it as it is
(`Text.expandTabs_of_not_mem`). The phrases of its lines then mean the words that were
printed, and the assembler gives back their bytes (`assemble_disassemble`).
-/

namespace ReversePolish

theorem Text.expandFrom_of_not_mem {text : List Char} (noTab : '\t' ∉ text) (column : Nat)
    (read : List Char) : expandFrom column read text = read.reverse ++ text := by
  induction text generalizing column read with
  | nil => rw [expandFrom, List.append_nil]
  | cons char rest ih =>
      obtain ⟨notTab, noTab⟩ := List.ne_and_not_mem_of_not_mem_cons noTab
      rw [expandFrom, if_neg (Ne.symm notTab), ih noTab, ih noTab, ite_self, List.reverse_cons,
        List.append_assoc, List.singleton_append]

theorem Text.expandTabs_of_not_mem {text : List Char} (noTab : '\t' ∉ text) :
    expandTabs text = text :=
  expandFrom_of_not_mem noTab 0 []

/-- A text that reads as statements is a listing of them. -/
theorem ReadsAs.exists_composes_expandTabs {text : List Char} {statements : List Statement}
    (reads : ReadsAs text statements) :
    ∃ phrases last, Composes (Text.expandTabs text) phrases last ∧
      phrases.map Phrase.statement = statements := by
  rw [Text.expandTabs_of_not_mem reads.noTab]
  exact reads.exists_composes

/-- Printed words compose a listing that means them. -/
theorem exists_composes_of_words {words : List Nat} {first : Int} {text : String}
    (small : ∀ word ∈ words, word < wordRange)
    (listed : listing? first (words.map Int.ofNat) = some text) :
    ∃ phrases last, Composes (Text.expandTabs text.toList) phrases last ∧
      List.Forall₂ Statement.Means (phrases.map Phrase.statement) words := by
  obtain ⟨statements, reads, mean⟩ := exists_readsAs_listing small listed
  obtain ⟨phrases, last, composes, rfl⟩ := reads.exists_composes_expandTabs
  exact ⟨phrases, last, composes, mean⟩

variable {image : Bytes} {words : List Int} {first : Int} {text : String}

theorem disassemble_of_listing (unpacked : Bytecode.unpack image = .ok words)
    (listed : listing? first words = some text) : disassemble image first = .ok text := by
  simp only [disassemble, unpacked, listed]

/-- The assembler gives back the words that were printed. -/
theorem assemble_listing? (unpacked : Bytecode.unpack image = .ok words)
    (listed : listing? first words = some text) : assemble text.toList = .ok image := by
  obtain ⟨list, cut, rfl⟩ := map_eq_ok_iff.mp unpacked
  obtain rfl := Bytecode.quads_eq_ok_iff.mp cut
  have words_eq : list.map Quad.toWord = (list.map Quad.toNat).map Int.ofNat := by
    rw [List.map_map]
    rfl
  have small : ∀ word ∈ list.map Quad.toNat, word < wordRange := by
    rw [List.forall_mem_map]
    exact fun quad _ => quad.toNat_lt
  rw [words_eq] at listed
  obtain ⟨phrases, last, composes, mean⟩ := exists_composes_of_words small listed
  refine composes.assemble_eq_ok_iff.mpr ⟨_, mean, ?_⟩
  rw [List.flatMap_map]
  simp only [Quad.ofNat_toNat]

/-- A program is not printed if one of its addresses has too many digits. -/
theorem disassemble_of_not_writable {index : Nat} (unpacked : Bytecode.unpack image = .ok words)
    (below : index < words.length) (long : ¬ Text.Writable (first + index)) :
    disassemble image first = .error .tooManyDigits := by
  have fit := Bytecode.fits_of_pack (Bytecode.unpack_eq_ok_iff.mp unpacked)
  cases listed : listing? first words with
  | none => simp only [disassemble, unpacked, listed]
  | some text => exact absurd ((exists_listing?_iff fit).mp ⟨text, listed⟩ index below) long

/-- **Assembling undoes disassembling**, wherever the first word is said to stand, as long as
the addresses can be written. If one of them has too many digits there is no listing. -/
theorem assemble_disassemble (whole : wordSize ∣ image.length) (first : Int) :
    ((∀ index : Nat, index < image.length / wordSize → Text.Writable (first + index)) →
      ∃ text, disassemble image first = .ok text ∧ assemble text.toList = .ok image) ∧
    ((∃ index : Nat, index < image.length / wordSize ∧ ¬ Text.Writable (first + index)) →
      disassemble image first = .error .tooManyDigits) := by
  obtain ⟨words, unpacked⟩ := Bytecode.exists_unpack whole
  have fit := Bytecode.fits_of_pack (Bytecode.unpack_eq_ok_iff.mp unpacked)
  rw [Bytecode.count_of_unpack unpacked]
  constructor
  · intro writable
    obtain ⟨text, listed⟩ := (exists_listing?_iff fit).mpr writable
    exact ⟨text, disassemble_of_listing unpacked listed, assemble_listing? unpacked listed⟩
  · rintro ⟨index, below, long⟩
    exact disassemble_of_not_writable unpacked below long

/-- One word of each tag. -/
def taggedWords : Bytes := [0, 0, 0, 3, 0x40, 0, 0, 1, 0x80, 0, 0, 5, 0xff, 0xff, 0xff, 0xff]

theorem assemble_disassemble_of_tags :
    wordSize ∣ taggedWords.length ∧
      ∃ text, disassemble taggedWords (-2) = .ok text ∧
        assemble text.toList = .ok taggedWords := by
  refine ⟨by decide, (assemble_disassemble (by decide) (-2)).1 fun index below => ?_⟩
  have few : index < 4 := below
  exact Text.writable_of_lt (by omega)

/-- Two words of which the second stands at the least address that cannot be written. -/
theorem disassemble_leastUnwritable :
    disassemble [0, 0, 0, 0, 0, 0, 0, 0] (Text.leastUnwritable - 1) = .error .tooManyDigits := by
  have unpacked : Bytecode.unpack [0, 0, 0, 0, 0, 0, 0, 0] = .ok [0, 0] := rfl
  refine disassemble_of_not_writable unpacked (by decide : 1 < 2) ?_
  rw [Int.natCast_one, Int.sub_add_cancel]
  exact Text.not_writable_leastUnwritable

end ReversePolish
