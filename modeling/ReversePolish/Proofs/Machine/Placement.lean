import ReversePolish.Proofs.Calculation.Execution

/-! # Where a program is placed

A program is accepted exactly if its bytes fill up words and there is room for these from the
origin on. Read in order from there, the words are the program again, and no other word of
memory is touched (`Machine.HoldsOnly`). A compiled source has one word more than it has
tokens, so that it is accepted exactly if its tokens leave room for the halt
(`Machine.load_placement`).
-/

namespace ReversePolish

variable {image : Bytes} {words : List Int} {machine : Machine}

/-- Words that memory has one after another are read one after another. -/
theorem Memory.mapM_readWord_consecutive {memory : Memory} {program : Int → Int} {first : Int}
    (spelled : Spells program first words)
    (stand : ∀ address, first ≤ address → address < first + words.length →
      memory.readWord address = .ok (program address)) :
    (consecutive first words.length).mapM memory.readWord = .ok words := by
  induction words generalizing first with
  | nil => rfl
  | cons word rest ih =>
      obtain ⟨same, later⟩ := spelled
      rw [List.length_cons] at stand
      have found : memory.readWord first = .ok word := by
        rw [stand first (Int.le_refl _) (by omega), same]
      have others := ih later fun address from_next inside => stand address (by omega) (by omega)
      rw [List.length_cons, consecutive_succ]
      exact mapM_cons_eq_ok_iff.mpr ⟨word, rest, found, others, rfl⟩

namespace Machine

/-- A machine that is about to run, with a program in memory from the origin on and zeros
elsewhere. -/
structure HoldsOnly (image : Bytes) (machine : Machine) : Prop where
  size : ∀ address, (∃ word, machine.memory.readWord address = .ok word) ↔
    0 ≤ address ∧ address < memorySize
  program : (consecutive origin (image.length / wordSize)).mapM machine.memory.readWord >>=
    Bytecode.pack = .ok image
  zeros : ∀ address : Int, 0 ≤ address → address < memorySize →
    ¬ (origin ≤ address ∧ address < origin + (image.length / wordSize : Nat)) →
      machine.memory.readWord address = .ok 0
  pc : machine.pc = origin
  sp : machine.sp = origin
  status : machine.status = .running
  fault : machine.fault = none

theorem Loaded.holdsOnly (loaded : Loaded words machine)
    (unpacked : Bytecode.unpack image = .ok words) : HoldsOnly image machine := by
  have count := Bytecode.count_of_unpack unpacked
  refine ⟨fun address => Memory.exists_readWord_iff, ?_, ?_, loaded.pc, loaded.sp, loaded.status,
    loaded.fault⟩
  · have fits := loaded.length
    have read : (consecutive origin words.length).mapM machine.memory.readWord = .ok words :=
      Memory.mapM_readWord_consecutive (spells_programWord [] words) fun address code inside =>
        loaded.code address code (by omega)
    rw [count, read]
    exact Bytecode.unpack_eq_ok_iff.mp unpacked
  · intro address nonneg inside outside
    rw [count] at outside
    by_cases code : origin ≤ address
    · rw [loaded.code address code inside, programWord_of_le (by omega)]
    · exact loaded.room address nonneg (by omega)

theorem load_of_ragged (ragged : ¬ wordSize ∣ image.length) :
    load image = .error (.ragged image.length) := by
  have failed := Bytecode.unpack_eq_error_iff.mpr ⟨ragged, rfl⟩
  rw [Bytecode.unpack, map_eq_error_iff] at failed
  rw [load, failed]
  rfl

/-- Words are refused exactly if there is no room for them from the origin on. -/
theorem exists_load_eq_error_iff_of_unpack (unpacked : Bytecode.unpack image = .ok words) :
    (∃ error, load image = .error error) ↔ memorySize - origin < words.length := by
  have inside : origin ≤ memorySize := by decide
  have loads := load_of_unpack unpacked
  split at loads
  · next fits =>
      obtain ⟨machine, accepted⟩ := loads
      refine iff_of_false ?_ (by omega)
      rintro ⟨error, refused⟩
      exact absurd (accepted.symm.trans refused) (by simp)
  · next large => exact iff_of_true ⟨_, loads⟩ (by omega)

theorem exists_load_eq_error_iff :
    (∃ error, load image = .error error) ↔
      ¬ wordSize ∣ image.length ∨ memorySize - origin < image.length / wordSize := by
  by_cases whole : wordSize ∣ image.length
  · obtain ⟨words, unpacked⟩ := Bytecode.exists_unpack whole
    rw [exists_load_eq_error_iff_of_unpack unpacked, Bytecode.count_of_unpack unpacked,
      or_iff_right (not_not_intro whole)]
  · exact iff_of_true ⟨_, load_of_ragged whole⟩ (.inl whole)

/-- **A program is accepted exactly if it fits, and is placed as it is.** It is refused if its
bytes do not fill up words or there are more of these than from the origin to the end of memory;
if not, the machine holds it and nothing else. A source compiles to a program that is accepted
exactly if its tokens leave room for one word more. -/
theorem load_placement :
    (∀ image,
      ((∃ error, load image = .error error) ↔
        ¬ wordSize ∣ image.length ∨ memorySize - origin < image.length / wordSize) ∧
      ∀ machine, load image = .ok machine → HoldsOnly image machine) ∧
    ∀ text image, compileSource text = .ok image →
      ∃ tokens, allTokens text = .ok tokens ∧
        ((∃ error, load image = .error error) ↔ memorySize - origin - 1 < tokens.length) := by
  refine ⟨fun image => ⟨exists_load_eq_error_iff, fun machine accepted => ?_⟩, ?_⟩
  · obtain ⟨words, unpacked, loaded⟩ := exists_loaded accepted
    exact loaded.holdsOnly unpacked
  · intro text image compiled
    obtain ⟨tokens, entries, lexed, stand, -, unpacked⟩ := compileSource_eq_ok_iff.mp compiled
    refine ⟨tokens, lexed, ?_⟩
    rw [exists_load_eq_error_iff_of_unpack unpacked, length_words, length_entries stand]
    unfold memorySize origin
    omega

/-- A product of two literals is placed in four words. -/
theorem load_placement_of_product :
    ∃ image machine, compileSource ['6', ' ', '7', '*'] = .ok image ∧ load image = .ok machine ∧
      HoldsOnly image machine ∧ image.length / wordSize = 4 ∧
      ∃ tokens, allTokens ['6', ' ', '7', '*'] = .ok tokens ∧ tokens.length = 3 ∧
        ((∃ error, load image = .error error) ↔ memorySize - origin - 1 < tokens.length) := by
  have compiled : compileSource ['6', ' ', '7', '*'] =
      .ok [0, 0, 0, 6, 0, 0, 0, 7, 0x40, 0, 0, 3, 0x40, 0, 0, 0] := rfl
  obtain ⟨accepts, compiles⟩ := load_placement
  obtain ⟨tokens, lexed, refused⟩ := compiles _ _ compiled
  have three : tokens.length = 3 := by
    obtain rfl := Except.ok.inj lexed
    rfl
  exact ⟨_, _, compiled, rfl, (accepts _).2 _ rfl, rfl, tokens, lexed, three, refused⟩

end Machine

end ReversePolish
