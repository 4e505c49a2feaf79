import ReversePolish.Proofs.Machine.Execution

/-! # Where a run halts

A run that tells a result has halted, and a run that has halted did so at one step
(`Cpu.exists_halting_step`). That step found a halt, and behind the words of a program
stand zeros, so that the halt is a word of the program itself (`Cpu.exists_halt`).
-/

namespace ReversePolish

namespace Cpu

open AbstractMachine

variable {image : Bytes} {words : List Int} {machine : Machine} {traced : Bool} {count : Nat}

/-- A program that tells a result has halted. -/
theorem halted_of_execute {result : Option Int} (accepted : Machine.load image = .ok machine)
    (told : (execute image traced).outcome = .ok result) :
    (reached machine traced stepLimit).status = .halted := by
  obtain ⟨words, -, loaded⟩ := Machine.exists_loaded accepted
  have sound := sound_reached loaded traced stepLimit
  have stopped := stopped_reached loaded traced
  -- The last state is named, so that nothing tries to compute it.
  obtain ⟨final, ends⟩ : ∃ final, reached machine traced stepLimit = final := ⟨_, rfl⟩
  rw [ends] at sound stopped ⊢
  obtain ⟨stack, holds⟩ := sound.hasStack
  rw [execute_of_reached accepted ends holds] at told
  cases status : final.status with
  | running => exact absurd status stopped
  | halted => rfl
  | faulted =>
      obtain ⟨fault, present⟩ := Option.isSome_iff_exists.mp (sound.faulted_iff.mp status)
      simp only [present] at told
      exact absurd told (by simp)

/-- A machine that has halted was running before the step that halted it. -/
theorem exists_halting_step (loaded : machine.Loaded words)
    (halted : (reached machine traced count).status = .halted) :
    ∃ earlier < count, (reached machine traced earlier).status = .running ∧
      (reached machine traced (earlier + 1)).status = .halted := by
  induction count with
  | zero =>
      have running : (reached machine traced 0).status = .running := loaded.status
      rw [running] at halted
      cases halted
  | succ count ih =>
      cases before : (reached machine traced count).status with
      | running => exact ⟨count, Nat.lt_succ_self count, before, halted⟩
      | halted =>
          obtain ⟨earlier, lt, running, next⟩ := ih before
          exact ⟨earlier, Nat.lt_succ_of_lt lt, running, next⟩
      | faulted =>
          have stopped : (reached machine traced count).status ≠ .running := by
            rw [before]
            simp
          rw [reached_add_of_stopped stopped 1, before] at halted
          cases halted

/-- What halts is a word of the program. -/
theorem exists_halt_of_decode {address : Int} (code : origin ≤ address)
    (halts : decode (programWord words address) = .ok (.primitive .halt)) :
    ∃ index : Nat, address = origin + index ∧ words[index]? = some haltWord := by
  have inside : address < origin + words.length := by
    by_contra behind
    rw [programWord_of_le (by omega), decode_zero] at halts
    cases halts
  obtain ⟨index, rfl⟩ : ∃ index : Nat, address = origin + index :=
    ⟨(address - origin).toNat, by omega⟩
  refine ⟨index, rfl, ?_⟩
  have found := List.getElem?_eq_getElem (show index < words.length by omega)
  rw [programWord_natCast, List.getD_eq_getElem?_getD, found, Option.getD_some] at halts
  rw [found, haltWord, (toWord_of_decode halts).1]

/-- **A run halts at a halt of its program.** -/
theorem exists_halt (loaded : machine.Loaded words)
    (halted : (reached machine traced count).status = .halted) :
    ∃ earlier index : Nat, earlier < count ∧ (reached machine traced earlier).status = .running ∧
      (reached machine traced earlier).pc = origin + index ∧ words[index]? = some haltWord ∧
      (reached machine traced (earlier + 1)).status = .halted := by
  obtain ⟨earlier, lt, running, next⟩ := exists_halting_step loaded halted
  have sound := sound_reached loaded traced earlier
  obtain ⟨⟨stack, holds⟩, writable⟩ := sound.ready
  have next_status := next
  rw [reached_succ] at next_status
  rcases step_cases holds writable with ⟨stopped, -⟩ |
    ⟨-, instruction, remaining, status, line, after, found, performs, stepped, summary⟩ |
    ⟨-, cause, -, stepped⟩
  · exact absurd running stopped
  · rw [afterStep_of_ok stepped, summary.status_eq] at next_status
    obtain ⟨-, inside⟩ := inside_of_instructionAt found
    have decoded := decode_of_instructionAt found
    rw [wordAt_reached loaded traced earlier inside] at decoded
    cases performs with
    | halt =>
        obtain ⟨index, pc, halt⟩ := exists_halt_of_decode sound.origin_le_pc decoded
        exact ⟨earlier, index, lt, running, pc, halt, next⟩
    | push => cases next_status
    | operate => cases next_status
  · rw [afterStep_of_error stepped] at next_status
    cases next_status

end Cpu

end ReversePolish
