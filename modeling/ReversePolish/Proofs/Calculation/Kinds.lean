import Mathlib.Data.Nat.Find
import ReversePolish.Proofs.Calculation.Depth
import ReversePolish.Proofs.Calculation.Execution
import ReversePolish.Proofs.Machine.Halt

/-! # What the kinds of tokens foretell

The machine that carries a calculation out has, at each entry, as many values on its stack
as there are numbers less operators before the entry (`Calculation.exists_carriesOut`). So
the kinds of its tokens foretell how a compiled source stops, divisions by zero apart
(`execute_compiled_foretold`).
-/

namespace ReversePolish

open AbstractMachine

variable {entry : Entry} {entries others : List Entry} {index : Nat}

namespace Calculation

/-- A machine that carries a calculation out has come to one of its entries, or to the halt
behind them, or has stopped behind that halt. -/
structure CarriesOut (entries : List Entry) (index : Nat) (machine : AbstractMachine) :
    Prop where
  pc : machine.pc = origin + index
  depth : (machine.stack.length : Int) = depth (entries.take index)
  le : index ≤ entries.length + 1
  halted_iff : machine.status = .halted ↔ index = entries.length + 1

/-- The words of a calculation and the halt behind them. -/
def program (entries : List Entry) : Int → Int := programWord (words entries ++ [haltWord])

theorem program_entry (found : entries[index]? = some entry) :
    program entries (origin + index) = entry.instruction.toWord := by
  have inside := (List.getElem?_eq_some_iff.mp found).1
  rw [program, programWord_natCast, List.getD_eq_getElem?_getD,
    List.getElem?_append_left (by rwa [words, List.length_map]), words, List.getElem?_map, found]
  rfl

theorem program_halt (entries : List Entry) :
    program entries (origin + entries.length) = haltWord := by
  have length_eq : entries.length = (words entries).length := by rw [words, List.length_map]
  rw [program, programWord_natCast, length_eq, List.getD_eq_getElem?_getD,
    List.getElem?_concat_length]
  rfl

variable {machine : AbstractMachine}

/-- At an entry a machine goes on to the next one, or faults where it is. -/
theorem CarriesOut.step_of_entry (carries : CarriesOut entries index machine)
    (running : machine.status = .running) (found : entries[index]? = some entry)
    (encodable : entry.instruction.Encodable) (room : origin + entries.length < memorySize) :
    ∃ next, CarriesOut entries next (machine.step (program entries)) := by
  have inside := (List.getElem?_eq_some_iff.mp found).1
  have pc := carries.pc
  have performed : performAt (program entries) machine.pc machine.stack =
      (·, .running) <$> entry.eval machine.stack := by
    refine performAt_entry ?_ encodable (by omega) (by omega)
    rw [pc, program_entry found]
  cases evaluated : entry.eval machine.stack with
  | error cause =>
      rw [evaluated] at performed
      rw [step_of_failed running performed]
      exact ⟨index, pc, carries.depth, carries.le, by simp; omega⟩
  | ok next =>
      rw [evaluated] at performed
      rw [step_of_performAt running performed]
      refine ⟨index + 1, ?_, ?_, by omega, by simp; omega⟩
      · rw [pc, Int.natCast_succ, Int.add_assoc]
      · rw [(Entry.length_of_eval evaluated).1, carries.depth, depth_take_succ found]

/-- Behind its entries a machine halts. -/
theorem CarriesOut.step_of_halt (carries : CarriesOut entries entries.length machine)
    (running : machine.status = .running) (room : origin + entries.length < memorySize) :
    CarriesOut entries (entries.length + 1) (machine.step (program entries)) := by
  have pc := carries.pc
  have halts : performAt (program entries) machine.pc machine.stack =
      .ok (machine.stack, .halted) := by
    refine performAt_halt ?_ (by omega) (by omega)
    rw [pc, program_halt]
  rw [step_of_performAt running halts]
  refine ⟨?_, ?_, Nat.le_refl _, by simp⟩
  · rw [pc, Int.natCast_succ, Int.add_assoc]
  · rw [List.take_of_length_le (Nat.le_succ _), carries.depth, List.take_length]

/-- A step takes a machine on to the next entry, or leaves it where it is. -/
theorem CarriesOut.step (carries : CarriesOut entries index machine)
    (encodable : ∀ entry ∈ entries, entry.instruction.Encodable)
    (room : origin + entries.length < memorySize) :
    ∃ next, CarriesOut entries next (machine.step (program entries)) := by
  by_cases running : machine.status = .running
  · have notHalted : index ≠ entries.length + 1 := by
      rw [Ne, ← carries.halted_iff, running]
      simp
    have le := carries.le
    rcases Nat.lt_or_eq_of_le (show index ≤ entries.length by omega) with inside | rfl
    · exact carries.step_of_entry running (List.getElem?_eq_getElem inside)
        (encodable _ (List.getElem_mem inside)) room
    · exact ⟨_, carries.step_of_halt running room⟩
  · rw [AbstractMachine.step_of_stopped running]
    exact ⟨index, carries⟩

/-- **The machine keeps to the depth** of the calculation that it carries out. -/
theorem exists_carriesOut (encodable : ∀ entry ∈ entries, entry.instruction.Encodable)
    (room : origin + entries.length < memorySize) (count : Nat) :
    ∃ index, CarriesOut entries index (steps (program entries) count {}) := by
  induction count with
  | zero => exact ⟨0, rfl, rfl, by omega, by simp [steps]⟩
  | succ count ih =>
      obtain ⟨index, carries⟩ := ih
      rw [steps_succ]
      exact carries.step encodable room

/-- The processor that a calculation's words have reached has the depth of an entry. -/
theorem depth_reached {machine : Machine} (loaded : machine.Loaded (words entries ++ [haltWord]))
    (encodable : ∀ entry ∈ entries, entry.instruction.Encodable)
    (room : origin + entries.length < memorySize) (traced : Bool) (count : Nat) :
    ∃ index : Nat, (Cpu.reached machine traced count).pc = origin + index ∧
      (Cpu.reached machine traced count).depth = depth (entries.take index) ∧
      ((Cpu.reached machine traced count).status = .halted ↔ index = entries.length + 1) := by
  have corresponds := Cpu.corresponds_reached loaded traced count
  obtain ⟨index, carries⟩ := exists_carriesOut encodable room count
  refine ⟨index, corresponds.pc.trans carries.pc, ?_, ?_⟩
  · rw [Cpu.depth_eq corresponds.stack]
    exact carries.depth
  · rw [corresponds.status]
    exact carries.halted_iff

end Calculation

section Compiled

variable {text : List Char} {image : Bytes} {traced : Bool}

/-- A program faults at one of its words. -/
def FaultsAt (image : Bytes) (traced : Bool) (index : Nat) (cause : FaultCause) : Prop :=
  (execute image traced).outcome = .error (.fault { cause, pc := some (origin + index) })

/-- A program halts, with a number of values on its stack. -/
structure HaltsWith (image : Bytes) (machine : Machine) (traced : Bool) (depth : Int) :
    Prop where
  told : ∃ result, (execute image traced).outcome = .ok result
  status : (Cpu.reached machine traced Cpu.stepLimit).status = .halted
  depth_eq : (Cpu.reached machine traced Cpu.stepLimit).depth = depth

/-- Two programs stop alike: both halt, or both fault at one address by one kind of fault. -/
inductive StopAlike : Except Failure (Option Int) → Except Failure (Option Int) → Prop where
  | halted (result other : Option Int) : StopAlike (.ok result) (.ok other)
  | faulted {cause other : FaultCause} (kind : cause.kind = other.kind) (pc : Option Int) :
      StopAlike (.error (.fault { cause, pc })) (.error (.fault { cause := other, pc }))

namespace Calculation

/-- Without a division the kinds of entries decide how a calculation ends. -/
theorem stopAlike_told (undivided : .operator .div ∉ entries)
    (others_undivided : .operator .div ∉ others)
    (same : entries.map Entry.isNumber = others.map Entry.isNumber) :
    StopAlike (told (eval entries)) (told (eval others)) := by
  classical
  by_cases some_blocked : ∃ index, Blocked entries index
  · obtain ⟨index, blocked, first⟩ : ∃ index, Blocked entries index ∧
        ∀ earlier < index, ¬ Blocked entries earlier :=
      ⟨Nat.find some_blocked, Nat.find_spec some_blocked, fun _ => Nat.find_min some_blocked⟩
    have others_first : ∀ earlier < index, ¬ Blocked others earlier :=
      fun earlier before blocked => first earlier before (blocked_of_same same.symm blocked)
    obtain ⟨entry, found, failed⟩ := eval_of_blocked_of_undivided undivided blocked first
    obtain ⟨other, other_found, others_failed⟩ :=
      eval_of_blocked_of_undivided others_undivided (blocked_of_same same blocked) others_first
    have kinds : entry.isNumber = other.isNumber := by
      have kinds := congrArg (·[index]?) same
      simpa only [List.getElem?_map, found, other_found, Option.map_some, Option.some.injEq]
        using kinds
    have depths : depth (entries.take index) = depth (others.take index) :=
      depth_congr (by rw [List.map_take, List.map_take, same])
    rw [failed, others_failed, ← depths]
    exact .faulted (Entry.blocked_congr kinds).2 _
  · have admitted : ∀ index, ¬ Blocked entries index := not_exists.mp some_blocked
    have others_admitted : ∀ index, ¬ Blocked others index :=
      fun index blocked => admitted index (blocked_of_same same.symm blocked)
    obtain ⟨stack, evaluated⟩ := eval_of_admitted_of_undivided undivided admitted
    obtain ⟨other, others_evaluated⟩ :=
      eval_of_admitted_of_undivided others_undivided others_admitted
    rw [evaluated, others_evaluated]
    exact .halted _ _

end Calculation

/-- The words that a compiled source has room for are those of its tokens and a halt. -/
theorem exists_entries_of_room {words : List Int} (compiled : compileSource text = .ok image)
    (unpacked : Bytecode.unpack image = .ok words) (room : words.length ≤ memorySize - origin) :
    ∃ tokens entries machine, allTokens text = .ok tokens ∧
      tokens.mapM Token.entry? = some entries ∧ Machine.load image = .ok machine ∧
      machine.Loaded (Calculation.words entries ++ [haltWord]) ∧
      (∀ entry ∈ entries, entry.instruction.Encodable) ∧ origin + entries.length < memorySize ∧
      ∀ traced, (execute image traced).outcome = Calculation.told (Calculation.eval entries) := by
  obtain ⟨tokens, entries, lexed, stand, encodable, unpacked'⟩ :=
    compileSource_eq_ok_iff.mp compiled
  obtain rfl := Except.ok.inj (unpacked'.symm.trans unpacked)
  rw [length_words] at room
  have fits : origin + entries.length < memorySize := by
    unfold memorySize origin at *
    omega
  have loads := Machine.load_of_unpack unpacked
  rw [length_words, if_pos (by omega)] at loads
  obtain ⟨machine, accepted⟩ := loads
  obtain ⟨found, unpacked', loaded⟩ := Machine.exists_loaded accepted
  obtain rfl := Except.ok.inj (unpacked'.symm.trans unpacked)
  exact ⟨tokens, entries, machine, lexed, stand, accepted, loaded, encodable, fits,
    fun _ => execute_words_of_room unpacked encodable fits⟩

/-- A program halts as its calculation ends, with as many values on its stack. -/
theorem haltsWith_of_eval {machine : Machine} {stack : List Int}
    (accepted : Machine.load image = .ok machine)
    (loaded : machine.Loaded (Calculation.words entries ++ [haltWord]))
    (encodable : ∀ entry ∈ entries, entry.instruction.Encodable)
    (fits : origin + entries.length < memorySize)
    (outcome_eq : (execute image traced).outcome = Calculation.told (Calculation.eval entries))
    (evaluated : Calculation.eval entries = .ok stack) :
    HaltsWith image machine traced (Calculation.depth entries) := by
  have told : (execute image traced).outcome = .ok stack.head? := by
    rw [outcome_eq, evaluated]
    rfl
  have halted := Cpu.halted_of_execute accepted told
  obtain ⟨index, -, depth_eq, halted_iff⟩ :=
    Calculation.depth_reached loaded encodable fits traced Cpu.stepLimit
  rw [halted_iff.mp halted, List.take_of_length_le (Nat.le_succ _)] at depth_eq
  exact ⟨⟨_, told⟩, halted, depth_eq⟩

/-- A program faults where its calculation fails. -/
theorem faultsAt_of_eval {cause : FaultCause}
    (outcome_eq : (execute image traced).outcome = Calculation.told (Calculation.eval entries))
    (failed : Calculation.eval entries = .error (index, cause)) :
    FaultsAt image traced index cause := by
  rw [FaultsAt, outcome_eq, failed]
  rfl

/-- **The kinds of tokens foretell how a source stops.** Wherever its program comes to a word,
the depth of the stack is that of the tokens before it. If that depth blocks no token, the
program halts with the depth of all of them; otherwise it faults at the first one that is
blocked, as that one's kind says. Only a division by zero may come before. So without
divisions neither values nor operators matter to how a program stops. -/
theorem execute_compiled_foretold {words : List Int} (compiled : compileSource text = .ok image)
    (unpacked : Bytecode.unpack image = .ok words) (room : words.length ≤ memorySize - origin)
    (traced : Bool) :
    ∃ tokens entries machine, allTokens text = .ok tokens ∧
      tokens.mapM Token.entry? = some entries ∧ Machine.load image = .ok machine ∧
      (∀ (count index : Nat), index ≤ entries.length →
        (Cpu.reached machine traced count).pc = origin + index →
        (Cpu.reached machine traced count).depth = Calculation.depth (entries.take index)) ∧
      ((∀ index, ¬ Calculation.Blocked entries index) →
        HaltsWith image machine traced (Calculation.depth entries) ∨
          ∃ index, entries[index]? = some (.operator .div) ∧
            FaultsAt image traced index .divisionByZero) ∧
      (∀ index, Calculation.Blocked entries index →
        (∀ earlier < index, ¬ Calculation.Blocked entries earlier) →
        (∃ earlier < index, entries[earlier]? = some (.operator .div) ∧
            FaultsAt image traced earlier .divisionByZero) ∨
          ∃ entry, entries[index]? = some entry ∧
            FaultsAt image traced index
              (entry.blockage (Calculation.depth (entries.take index)))) ∧
      (.operator .div ∉ entries →
        ∀ other otherImage otherTokens others, compileSource other = .ok otherImage →
          allTokens other = .ok otherTokens → otherTokens.mapM Token.entry? = some others →
          .operator .div ∉ others → entries.map Entry.isNumber = others.map Entry.isNumber →
          ∀ otherTraced, StopAlike (execute image traced).outcome
            (execute otherImage otherTraced).outcome) := by
  obtain ⟨tokens, entries, machine, lexed, stand, accepted, loaded, encodable, fits, outcome_eq⟩ :=
    exists_entries_of_room compiled unpacked room
  refine ⟨tokens, entries, machine, lexed, stand, accepted, ?_, ?_, ?_, ?_⟩
  · intro count index le pc
    obtain ⟨found, found_pc, depth_eq, -⟩ :=
      Calculation.depth_reached loaded encodable fits traced count
    obtain rfl : found = index := by omega
    exact depth_eq
  · intro admitted
    rcases Calculation.eval_of_admitted admitted with ⟨stack, evaluated, -⟩ | ⟨index, found, failed⟩
    · exact .inl (haltsWith_of_eval accepted loaded encodable fits (outcome_eq traced) evaluated)
    · exact .inr ⟨index, found, faultsAt_of_eval (outcome_eq traced) failed⟩
  · intro index blocked first
    rcases Calculation.eval_of_blocked blocked first with
      ⟨earlier, before, found, failed⟩ | ⟨entry, found, failed⟩
    · exact .inl ⟨earlier, before, found, faultsAt_of_eval (outcome_eq traced) failed⟩
    · exact .inr ⟨entry, found, faultsAt_of_eval (outcome_eq traced) failed⟩
  · intro undivided other otherImage otherTokens others otherCompiled otherLexed otherStand
      others_undivided same otherTraced
    obtain ⟨tokens', entries', lexed', stand', encodable', unpacked'⟩ :=
      compileSource_eq_ok_iff.mp otherCompiled
    obtain rfl := Except.ok.inj (lexed'.symm.trans otherLexed)
    obtain rfl := Option.some.inj (stand'.symm.trans otherStand)
    have lengths : entries.length = entries'.length := by
      simpa only [List.length_map] using congrArg List.length same
    rw [outcome_eq, execute_words_of_room unpacked' encodable' (lengths ▸ fits)]
    exact Calculation.stopAlike_told undivided others_undivided same

/-- A number and an addition, which finds a value too few. -/
theorem execute_compiled_foretold_of_underflow :
    ∃ image, compileSource ['1', ' ', '+'] = .ok image ∧
      FaultsAt image false 1 (.stackUnderflow "add" 1) := by
  have compiled : compileSource ['1', ' ', '+'] =
      .ok [0, 0, 0, 1, 0x40, 0, 0, 1, 0x40, 0, 0, 0] := rfl
  have unpacked : Bytecode.unpack [0, 0, 0, 1, 0x40, 0, 0, 1, 0x40, 0, 0, 0] =
      .ok [1, 0x40000001, 0x40000000] := rfl
  obtain ⟨tokens, entries, machine, lexed, stand, -, -, -, blocked_faults, -⟩ :=
    execute_compiled_foretold compiled unpacked (by decide) false
  obtain rfl := Except.ok.inj lexed
  obtain rfl := Option.some.inj stand
  have blocked : Calculation.Blocked [.number 1, .operator .add] 1 :=
    ⟨.operator .add, rfl, show (1 : Int) < 2 by decide⟩
  have first : ∀ earlier < 1, ¬ Calculation.Blocked [.number 1, .operator .add] earlier := by
    rintro earlier before ⟨entry, found, full⟩
    obtain rfl : earlier = 0 := by omega
    obtain rfl := Option.some.inj found
    exact absurd full (show ¬ (0 : Int) = origin by decide)
  rcases blocked_faults 1 blocked first with ⟨earlier, before, found, -⟩ | ⟨entry, found, faults⟩
  · obtain rfl : earlier = 0 := by omega
    cases found
  · obtain rfl := Option.some.inj found
    exact ⟨_, compiled, faults⟩

end Compiled

end ReversePolish
