import ReversePolish.Instruction.Bytecode
import ReversePolish.Proofs.Outcome
import ReversePolish.Proofs.Word.Quad

/-! # Words and bytes

The bytes of words are cut back into the same fours (`Bytecode.quads?_eq_some_iff`), so
that unpacking undoes packing and packing undoes unpacking
(`Bytecode.unpack_eq_ok_iff`). Words are refused only for one that does not fit, and bytes
only for a ragged end (`Bytecode.pack_bijection`).
-/

namespace ReversePolish

namespace Bytecode

variable {word : Int} {words : List Int} {bytes : Bytes} {list : List Quad}

theorem packWord_eq_ok_iff :
    packWord word = .ok bytes ↔ ∃ quad : Quad, quad.toWord = word ∧ quad.toBytes = bytes := by
  constructor
  · intro packed
    rw [packWord] at packed
    split at packed
    · next quad found => exact ⟨quad, Quad.toWord_of_ofWord? found, Except.ok.inj packed⟩
    · exact absurd packed (by simp)
  · intro spelled
    obtain ⟨quad, rfl, rfl⟩ := spelled
    rw [packWord, Quad.ofWord?_toWord]

/-- The bytes of words are the bytes of the fours that spell them. -/
theorem pack_eq_ok_iff :
    pack words = .ok bytes ↔
      ∃ list : List Quad, list.map Quad.toWord = words ∧ list.flatMap Quad.toBytes = bytes := by
  rw [pack, map_eq_ok_iff]
  induction words generalizing bytes with
  | nil => simp [pure, Except.pure, eq_comm]
  | cons word rest ih =>
      constructor
      · intro mapped
        obtain ⟨packed, found, rfl⟩ := mapped
        obtain ⟨first, others, packed_first, packed_rest, rfl⟩ := mapM_cons_eq_ok_iff.mp found
        obtain ⟨quad, rfl, rfl⟩ := packWord_eq_ok_iff.mp packed_first
        obtain ⟨list, rfl, flat⟩ := ih.mp ⟨others, packed_rest, rfl⟩
        exact ⟨quad :: list, rfl, by rw [List.flatMap_cons, flat, List.flatten_cons]⟩
      · intro flattened
        obtain ⟨list, spelled, rfl⟩ := flattened
        obtain ⟨quad, others, rfl, rfl, spelled_rest⟩ := List.map_eq_cons_iff.mp spelled
        obtain ⟨packed, packed_rest, flat⟩ := ih.mpr ⟨others, spelled_rest, rfl⟩
        refine ⟨quad.toBytes :: packed, ?_, ?_⟩
        · exact mapM_cons_eq_ok_iff.mpr
            ⟨_, _, packWord_eq_ok_iff.mpr ⟨quad, rfl, rfl⟩, packed_rest, rfl⟩
        · rw [List.flatten_cons, flat, List.flatMap_cons]

/-- The bytes of words that four bytes can hold, most significant first. -/
def spell (words : List Int) : Bytes := words.flatMap fun word => (Quad.ofNat word.toNat).toBytes

theorem spell_append (first second : List Int) :
    spell (first ++ second) = spell first ++ spell second :=
  List.flatMap_append

theorem length_spell (words : List Int) : (spell words).length = wordSize * words.length := by
  induction words with
  | nil => rfl
  | cons word rest ih =>
      rw [spell, List.flatMap_cons, List.length_append, ← spell, ih, List.length_cons, Nat.mul_succ,
        Nat.add_comm]
      rfl

/-- Words that fit are packed into the bytes that spell them. -/
theorem pack_of_fits (fit : ∀ word ∈ words, Word.Fits word) : pack words = .ok (spell words) := by
  refine pack_eq_ok_iff.mpr ⟨words.map fun word => Quad.ofNat word.toNat, ?_, List.flatMap_map ..⟩
  rw [List.map_map]
  refine (List.map_congr_left fun word member => ?_).trans (List.map_id words)
  obtain ⟨nonneg, le⟩ := fit word member
  simp only [wordMask, wordRange] at le
  simp only [Function.comp_apply, Quad.toWord, Quad.toNat_ofNat, wordRange, id_eq]
  omega

theorem fits_of_pack (packed : pack words = .ok bytes) : ∀ word ∈ words, Word.Fits word := by
  obtain ⟨list, rfl, -⟩ := pack_eq_ok_iff.mp packed
  rw [List.forall_mem_map]
  exact fun quad _ => quad.fits_toWord

theorem length_of_pack (packed : pack words = .ok bytes) :
    bytes.length = wordSize * words.length := by
  have spelled := pack_of_fits (fits_of_pack packed)
  rw [packed, Except.ok.injEq] at spelled
  rw [spelled, length_spell]

/-- Packing fails exactly on words of which one does not fit. -/
theorem exists_pack_eq_error_iff :
    (∃ error, pack words = .error error) ↔ ∃ word ∈ words, ¬ Word.Fits word := by
  constructor
  · rintro ⟨error, failed⟩
    rw [pack, map_eq_error_iff] at failed
    obtain ⟨word, member, refused⟩ := exists_of_mapM_eq_error failed
    refine ⟨word, member, fun fits => ?_⟩
    rw [packWord, Quad.ofWord?, if_pos fits] at refused
    cases refused
  · rintro ⟨word, member, unfit⟩
    cases packed : pack words with
    | error error => exact ⟨error, rfl⟩
    | ok bytes => exact absurd (fits_of_pack packed word member) unfit

/-- Lists of words one after another are packed one after another. -/
theorem pack_append (first second : List Int) :
    pack (first ++ second) = do
      let bytes ← pack first
      let more ← pack second
      return bytes ++ more := by
  rw [pack, pack, pack, List.mapM_append]
  cases first.mapM packWord with
  | error error => rfl
  | ok packed =>
      cases second.mapM packWord with
      | error error => rfl
      | ok more => exact congrArg Except.ok List.flatten_append

/-- Bytes are cut into the fours that make them up. -/
theorem quads?_eq_some_iff : quads? bytes = some list ↔ list.flatMap Quad.toBytes = bytes := by
  induction bytes using quads?.induct generalizing list with
  | case1 =>
      rw [quads?, Option.some.injEq]
      constructor
      · rintro rfl
        rfl
      · intro flat
        rcases list with _ | ⟨quad, others⟩
        · rfl
        · exact absurd flat (by simp [Quad.toBytes])
  | case2 first second third fourth rest ih =>
      rw [quads?, Option.map_eq_map, Option.map_eq_some_iff]
      constructor
      · intro tail
        obtain ⟨others, cut, rfl⟩ := tail
        rw [List.flatMap_cons, ih.mp cut]
        rfl
      · intro flat
        rcases list with _ | ⟨quad, others⟩
        · exact absurd flat (by simp)
        · obtain ⟨rfl, rfl, rfl, rfl, flat_rest⟩ : quad.first = first ∧ quad.second = second ∧
              quad.third = third ∧ quad.fourth = fourth ∧ others.flatMap Quad.toBytes = rest := by
            simpa [Quad.toBytes] using flat
          exact ⟨others, ih.mpr flat_rest, rfl⟩
  | case3 bytes nonempty short =>
      rw [quads?]
      · constructor
        · intro cut
          exact absurd cut (by simp)
        · rintro rfl
          rcases list with _ | ⟨quad, others⟩
          · exact absurd rfl nonempty
          · exact absurd rfl (short quad.first quad.second quad.third quad.fourth _)
      · exact nonempty
      · exact short

/-- Bytes that fill up their words are the bytes of fours. -/
theorem exists_quads (whole : wordSize ∣ bytes.length) :
    ∃ list : List Quad, list.flatMap Quad.toBytes = bytes := by
  induction bytes using quads?.induct with
  | case1 => exact ⟨[], rfl⟩
  | case2 first second third fourth rest ih =>
      obtain ⟨list, flat⟩ := ih ((Nat.dvd_add_left (Nat.dvd_refl wordSize)).mp whole)
      exact ⟨⟨first, second, third, fourth⟩ :: list, by rw [List.flatMap_cons, flat]; rfl⟩
  | case3 bytes nonempty short =>
      rcases bytes with _ | ⟨first, _ | ⟨second, _ | ⟨third, _ | ⟨fourth, rest⟩⟩⟩⟩
      · exact absurd rfl nonempty
      · exact absurd whole (by simp [wordSize])
      · exact absurd whole (by simp [wordSize])
      · exact absurd whole (by simp [wordSize])
      · exact absurd rfl (short first second third fourth rest)

theorem quads_eq_ok_iff : quads bytes = .ok list ↔ list.flatMap Quad.toBytes = bytes := by
  rw [← quads?_eq_some_iff, quads]
  cases quads? bytes <;> simp

/-- **Unpacking and packing undo each other.** -/
theorem unpack_eq_ok_iff : unpack bytes = .ok words ↔ pack words = .ok bytes := by
  rw [unpack, map_eq_ok_iff, pack_eq_ok_iff]
  refine exists_congr fun list => ?_
  rw [quads_eq_ok_iff, and_comm]

theorem count_of_unpack (unpacked : unpack bytes = .ok words) :
    bytes.length / wordSize = words.length := by
  rw [length_of_pack (unpack_eq_ok_iff.mp unpacked), Nat.mul_div_cancel_left _ (by decide)]

/-- Bytes that fill up their words have words. -/
theorem exists_unpack (whole : wordSize ∣ bytes.length) : ∃ words, unpack bytes = .ok words := by
  obtain ⟨list, flat⟩ := exists_quads whole
  exact ⟨_, map_eq_ok_iff.mpr ⟨list, quads_eq_ok_iff.mpr flat, rfl⟩⟩

/-- Unpacking fails exactly on bytes that do not fill up their words. -/
theorem unpack_eq_error_iff {error : FormatError} :
    unpack bytes = .error error ↔ ¬ wordSize ∣ bytes.length ∧ error = .ragged bytes.length := by
  constructor
  · intro failed
    constructor
    · intro whole
      obtain ⟨words, unpacked⟩ := exists_unpack whole
      exact absurd (unpacked.symm.trans failed) (by simp)
    · rw [unpack, map_eq_error_iff, quads] at failed
      split at failed
      · cases failed
      · exact (Except.error.inj failed).symm
  · rintro ⟨ragged, rfl⟩
    cases cut : quads? bytes with
    | some list =>
        have packed := unpack_eq_ok_iff.mp (map_eq_ok_iff.mpr
          ⟨list, quads_eq_ok_iff.mpr (quads?_eq_some_iff.mp cut), rfl⟩)
        exact absurd ⟨_, length_of_pack packed⟩ ragged
    | none =>
        rw [unpack, quads, cut]
        rfl

/-- The words of bytes that other bytes follow. -/
theorem unpack_append {more : Bytes} {others : List Int} (unpacked : unpack bytes = .ok words)
    (unpacked_more : unpack more = .ok others) :
    unpack (bytes ++ more) = .ok (words ++ others) := by
  rw [unpack, map_eq_ok_iff] at *
  obtain ⟨list, cut, rfl⟩ := unpacked
  obtain ⟨rest, cut_rest, rfl⟩ := unpacked_more
  rw [quads_eq_ok_iff] at cut cut_rest
  exact ⟨list ++ rest, quads_eq_ok_iff.mpr (by rw [List.flatMap_append, cut, cut_rest]),
    List.map_append⟩

/-- **Words that fit and bytes that fill up words are in bijection.** Packing fails exactly on
words of which one does not fit, and unpacking exactly on bytes with a ragged end. Each undoes
the other: a list of words has four times as many bytes, all words that are unpacked fit, and
lists of words one after another have their bytes one after another. -/
theorem pack_bijection :
    (∀ words, ((∃ error, pack words = .error error) ↔ ∃ word ∈ words, ¬ Word.Fits word) ∧
      ∀ bytes, pack words = .ok bytes →
        unpack bytes = .ok words ∧ bytes.length = wordSize * words.length) ∧
    (∀ bytes,
      (∀ error, unpack bytes = .error error ↔
        ¬ wordSize ∣ bytes.length ∧ error = .ragged bytes.length) ∧
      ∀ words, unpack bytes = .ok words →
        (∀ word ∈ words, Word.Fits word) ∧ pack words = .ok bytes) ∧
    ∀ first second, pack (first ++ second) = do
      let bytes ← pack first
      let more ← pack second
      return bytes ++ more := by
  refine ⟨fun words => ⟨exists_pack_eq_error_iff, fun bytes packed => ?_⟩,
    fun bytes => ⟨fun error => unpack_eq_error_iff, fun words unpacked => ?_⟩, pack_append⟩
  · exact ⟨unpack_eq_ok_iff.mpr packed, length_of_pack packed⟩
  · have packed := unpack_eq_ok_iff.mp unpacked
    exact ⟨fits_of_pack packed, packed⟩

/-- The least word and the largest. -/
theorem pack_bijection_of_extremes :
    pack [0, 0xffffffff] = .ok [0, 0, 0, 0, 0xff, 0xff, 0xff, 0xff] ∧
      unpack [0, 0, 0, 0, 0xff, 0xff, 0xff, 0xff] = .ok [0, 0xffffffff] ∧
      ∀ word ∈ [0, 0xffffffff], Word.Fits word := by
  have packed : pack [0, 0xffffffff] = .ok [0, 0, 0, 0, 0xff, 0xff, 0xff, 0xff] := rfl
  obtain ⟨unpacked, -⟩ := (pack_bijection.1 _).2 _ packed
  exact ⟨packed, unpacked, ((pack_bijection.2.1 _).2 _ unpacked).1⟩

end Bytecode

end ReversePolish
