import ReversePolish.Proofs.Machine.Execution

/-! # The loop of a run

A run is a loop of steps that goes on while the processor runs and that a failing step
leaves. `Cpu.Loop` says what such a loop comes to, without any limit on its steps. Each step
that completes takes the processor on by one address, and there are only so many addresses,
so that the loop ends from everywhere (`Cpu.exists_loop`); it takes up the instructions of
one address after another, none of them twice (`Cpu.run_ends`).
-/

namespace ReversePolish

namespace Cpu

open AbstractMachine

/-- What a loop of steps comes to: the addresses at which it takes up instructions, how many
steps it completes, and the processor that it leaves. -/
inductive Loop : Cpu → List Int → Nat → Cpu → Prop where
  | ends {cpu : Cpu} (stopped : cpu.status ≠ .running) : Loop cpu [] 0 cpu
  | fails {cpu after : Cpu} {failure : Failure} (running : cpu.status = .running)
      (failed : step cpu = .error failure after) : Loop cpu [cpu.pc] 0 after
  | goesOn {cpu next final : Cpu} {addresses : List Int} {completed : Nat}
      (running : cpu.status = .running) (stepped : step cpu = .ok () next)
      (rest : Loop next addresses completed final) :
      Loop cpu (cpu.pc :: addresses) (completed + 1) final

theorem nodup_consecutive (first : Int) (count : Nat) : (consecutive first count).Nodup := by
  apply List.Pairwise.map _ _ List.nodup_range
  intro place other different same
  apply different
  have same : first + (place : Int) = first + other := same
  omega

variable {cpu next after final : Cpu} {addresses : List Int} {completed : Nat}

/-- A step that completes takes a running processor on by one address. -/
theorem moved_of_step (ready : Ready cpu) (running : cpu.status = .running)
    (stepped : step cpu = .ok () next) :
    Ready next ∧ next.pc = cpu.pc + 1 ∧ cpu.pc < memorySize := by
  have next_ready := ready.afterStep
  rw [afterStep_of_ok stepped] at next_ready
  obtain ⟨⟨stack, holds⟩, writable⟩ := ready
  rcases step_cases holds writable with ⟨stopped, -⟩ |
    ⟨-, _, _, _, _, after, found, -, completed, summary⟩ | ⟨-, cause, -, failed⟩
  · exact absurd running stopped
  · rw [completed] at stepped
    cases stepped
    exact ⟨next_ready, summary.pc, (inside_of_instructionAt found).2⟩
  · rw [failed] at stepped
    cases stepped

/-- A step that fails stops the processor where it is. -/
theorem stopped_of_step {failure : Failure} (ready : Ready cpu)
    (failed : step cpu = .error failure after) :
    after.status ≠ .running ∧ after.pc = cpu.pc := by
  obtain ⟨⟨stack, holds⟩, writable⟩ := ready
  rcases step_cases holds writable with ⟨-, stepped⟩ | ⟨-, _, _, _, _, _, -, -, stepped, -⟩ |
    ⟨-, cause, -, faulted_here⟩
  · rw [stepped] at failed
    cases failed
  · rw [stepped] at failed
    cases failed
  · rw [faulted_here] at failed
    cases failed
    exact ⟨by simp [faulted], rfl⟩

/-- **From everywhere in memory the loop ends**, after one step more than there are addresses
left. -/
theorem exists_loop {left : Nat} (ready : Ready cpu) (pc : cpu.pc + left = memorySize) :
    ∃ addresses completed final, Loop cpu addresses completed final ∧
      addresses.length ≤ left + 1 := by
  induction left generalizing cpu with
  | zero =>
      by_cases running : cpu.status = .running
      · cases stepped : step cpu with
        | ok result next =>
            have inside := (moved_of_step ready running stepped).2.2
            omega
        | error failure after => exact ⟨_, _, _, .fails running stepped, Nat.le_refl _⟩
      · exact ⟨_, _, _, .ends running, Nat.zero_le _⟩
  | succ left ih =>
      by_cases running : cpu.status = .running
      · cases stepped : step cpu with
        | ok result next =>
            obtain ⟨next_ready, moved, -⟩ := moved_of_step ready running stepped
            obtain ⟨addresses, completed, final, loop, le⟩ := ih next_ready (by omega)
            refine ⟨_, _, _, .goesOn running stepped loop, ?_⟩
            rw [List.length_cons]
            omega
        | error failure after =>
            refine ⟨_, _, _, .fails running stepped, ?_⟩
            rw [List.length_singleton]
            omega
      · exact ⟨_, _, _, .ends running, Nat.zero_le _⟩

namespace Loop

/-- The addresses of a loop follow one another, and the processor has moved on by one for each
step that completed. -/
theorem moves (loop : Loop cpu addresses completed final) (ready : Ready cpu) :
    addresses = consecutive cpu.pc addresses.length ∧ final.pc = cpu.pc + completed ∧
      final.status ≠ .running := by
  induction loop with
  | ends stopped => exact ⟨rfl, (Int.add_zero _).symm, stopped⟩
  | @fails cpu after failure running failed =>
      obtain ⟨stopped, pc⟩ := stopped_of_step ready failed
      exact ⟨(consecutive_succ cpu.pc 0).symm, pc.trans (Int.add_zero _).symm, stopped⟩
  | @goesOn cpu next final addresses completed running stepped rest ih =>
      obtain ⟨next_ready, moved, -⟩ := moved_of_step ready running stepped
      obtain ⟨addresses_eq, pc, stopped⟩ := ih next_ready
      refine ⟨?_, by omega, stopped⟩
      rw [List.length_cons, consecutive_succ, ← moved, ← addresses_eq]

/-- Steps regardless lead where the loop ends. -/
theorem iterate_eq (loop : Loop cpu addresses completed final) (ready : Ready cpu)
    {count : Nat} (enough : addresses.length ≤ count) : afterStep^[count] cpu = final := by
  induction loop generalizing count with
  | ends stopped => exact afterStep_iterate_of_stopped stopped count
  | @fails cpu after failure running failed =>
      rw [List.length_singleton] at enough
      obtain ⟨count, rfl⟩ := Nat.exists_eq_succ_of_ne_zero (by omega : count ≠ 0)
      rw [Function.iterate_succ_apply, afterStep_of_error failed]
      exact afterStep_iterate_of_stopped (stopped_of_step ready failed).1 count
  | @goesOn cpu next final addresses completed running stepped rest ih =>
      rw [List.length_cons] at enough
      obtain ⟨count, rfl⟩ := Nat.exists_eq_succ_of_ne_zero (by omega : count ≠ 0)
      rw [Function.iterate_succ_apply, afterStep_of_ok stepped]
      exact ih (moved_of_step ready running stepped).1 (by omega)

end Loop

/-- What is known of a loop that ends within a number of steps. -/
structure Ending (cpu : Cpu) (bound : Int) (addresses : List Int) (completed : Nat)
    (final : Cpu) : Prop where
  loop : Loop cpu addresses completed final
  stopped : final.status ≠ .running
  length_le : addresses.length ≤ bound
  /-- One address is taken up after another, from the first on. -/
  addresses_eq : addresses = consecutive cpu.pc addresses.length
  once : addresses.Nodup
  completed_eq : completed = final.pc - cpu.pc
  /-- It is what a run ends with. -/
  run_eq : (∃ result, run cpu = .ok result final) ∨ ∃ fault, run cpu = .error (.fault fault) final

theorem exists_ending (ready : Ready cpu) (nonneg : 0 ≤ cpu.pc)
    (le : cpu.pc ≤ memorySize) :
    ∃ addresses completed final,
      Ending cpu (memorySize + 1 - cpu.pc) addresses completed final := by
  obtain ⟨left, left_eq⟩ : ∃ left : Nat, cpu.pc + left = memorySize :=
    ⟨(memorySize - cpu.pc).toNat, by omega⟩
  obtain ⟨addresses, completed, final, loop, length_le⟩ := exists_loop ready left_eq
  obtain ⟨addresses_eq, pc, stopped⟩ := loop.moves ready
  have enough : addresses.length ≤ stepLimit := by
    unfold stepLimit
    omega
  have ends := loop.iterate_eq ready enough
  obtain ⟨stack, holds⟩ : HasStack final := ends ▸ (ready.iterate stepLimit).hasStack
  refine ⟨addresses, completed, final, loop, stopped, by omega, addresses_eq, ?_, by omega, ?_⟩
  · rw [addresses_eq]
    exact nodup_consecutive _ _
  · rw [run_apply ready ends holds]
    cases final.fault with
    | none => exact .inl ⟨_, rfl⟩
    | some fault => exact .inr ⟨fault, rfl⟩

/-- **Every run ends**, and takes up no address twice: it takes up one address after another,
completes as many instructions as it has moved on by, and makes one attempt more than there
are addresses left in memory at most. -/
theorem run_ends :
    (∀ cpu : Cpu, cpu.status = .running → 0 ≤ cpu.sp → cpu.sp ≤ origin → 0 ≤ cpu.pc →
      cpu.pc ≤ memorySize → ∃ addresses completed final,
        Ending cpu (memorySize + 1 - cpu.pc) addresses completed final) ∧
    ∀ image machine, Machine.load image = .ok machine → ∀ traced,
      ∃ addresses completed final,
        Ending (starting machine traced) (memorySize + 1 - origin) addresses completed final := by
  constructor
  · intro cpu _ sp_nonneg sp_le nonneg le
    exact exists_ending (.of_pc (hasStack_iff.mpr ⟨sp_nonneg, sp_le⟩) nonneg le) nonneg le
  · intro image machine accepted traced
    obtain ⟨words, -, loaded⟩ := Machine.exists_loaded accepted
    have sound := sound_starting loaded traced
    have pc : (starting machine traced).pc = origin := loaded.pc
    have nonneg : 0 ≤ (starting machine traced).pc := by omega
    rw [← pc]
    exact exists_ending sound.ready nonneg sound.pc_le

/-- A processor about to run off the end of memory. -/
def atEnd : Cpu := { Machine.ofQuads [] with pc := memorySize }

/-- One attempt at the end of memory, and a run of the empty program. -/
theorem run_ends_of_empty :
    (∃ addresses completed final, Ending atEnd 1 addresses completed final) ∧
      ∃ machine, Machine.load [] = .ok machine ∧ ∃ addresses completed final,
        Ending (starting machine true) 3997 addresses completed final :=
  ⟨run_ends.1 atEnd rfl (by decide) (by decide) (by decide) (by decide),
    Machine.ofQuads [], rfl, run_ends.2 [] (Machine.ofQuads []) rfl true⟩

end Cpu

end ReversePolish
