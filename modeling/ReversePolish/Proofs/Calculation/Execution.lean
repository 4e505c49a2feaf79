import ReversePolish.Proofs.Machine.Execution
import ReversePolish.Proofs.Source.Encoding

/-! # Calculations on the machine

The words of a calculation, followed by a halt, make the machine without memory do what
the calculation does, entry by entry (`Calculation.outcome_steps`): it halts with the
stack of the calculation, or faults at the address of the entry that fails. So a
compiled source tells what its calculation comes to (`execute_compiled`).
-/

namespace ReversePolish

open AbstractMachine

variable {program : Int → Int} {address : Int} {stack : List Int} {done count : Nat}
  {entry : Entry} {entries : List Entry}

/-- A program has the given words one after another from an address on. -/
def Spells (program : Int → Int) (address : Int) : List Int → Prop
  | [] => True
  | word :: rest => program address = word ∧ Spells program (address + 1) rest

theorem spells_programWord (before rest : List Int) :
    Spells (programWord (before ++ rest)) (origin + before.length) rest := by
  induction rest generalizing before with
  | nil => trivial
  | cons word rest ih =>
      have offset : ((origin + before.length : Int) - origin).toNat = before.length := by omega
      have later := ih (before ++ [word])
      rw [List.append_assoc, List.singleton_append, List.length_append, List.length_singleton,
        Int.natCast_add, ← Int.add_assoc] at later
      refine ⟨?_, later⟩
      rw [programWord, offset, List.getD_eq_getElem?_getD,
        List.getElem?_append_right (Nat.le_refl _), Nat.sub_self]
      rfl

theorem Entry.perform_instruction (entry : Entry) (stack : List Int) :
    perform stack entry.instruction = (·, .running) <$> entry.eval stack := by
  cases entry <;> rfl

/-- The word of an entry makes of a stack what the entry makes of it. -/
theorem performAt_entry (spelled : program address = entry.instruction.toWord)
    (encodable : entry.instruction.Encodable) (nonneg : 0 ≤ address)
    (inside : address < memorySize) :
    performAt program address stack = (·, .running) <$> entry.eval stack := by
  have decoded : decode (program address) = .ok entry.instruction := by
    rw [spelled, decode_toWord encodable]
  rw [performAt, instructionAt_of_decode nonneg inside decoded]
  exact entry.perform_instruction stack

theorem performAt_halt (spelled : program address = haltWord) (nonneg : 0 ≤ address)
    (inside : address < memorySize) : performAt program address stack = .ok (stack, .halted) := by
  have decoded : decode (program address) = .ok (.primitive .halt) := by
    rw [spelled, haltWord, decode_toWord (Instruction.encodable_primitive .halt)]
  rw [performAt, instructionAt_of_decode nonneg inside decoded]
  rfl

namespace Calculation

/-- What is told of a calculation: the top of the stack it leaves, or the cause and the
address of the entry that fails. -/
def told : Except (Nat × FaultCause) (List Int) → Except Failure (Option Int)
  | .ok stack => .ok stack.head?
  | .error (index, cause) => .error (.fault { cause, pc := some (origin + index) })

/-- The kinds of fault that blame the words of a program, not its values. -/
def codeFaults : List String := ["IllegalInstruction", "ReservedInstruction", "PcOutOfBounds"]

theorem kind_of_eval {cause : FaultCause} (failed : entry.eval stack = .error cause) :
    cause.kind ∉ codeFaults := by
  cases entry with
  | number value =>
      obtain ⟨-, rfl⟩ := Stack.push_eq_error_iff.mp failed
      simp [FaultCause.kind, codeFaults]
  | operator applied =>
      rcases Stack.operate_eq_error_iff.mp failed with ⟨-, rfl⟩ | ⟨-, -, rfl⟩
      · simp [FaultCause.kind, codeFaults]
      · simp [FaultCause.kind, codeFaults]

/-- No calculation fails for want of a word. -/
theorem kind_of_evalFrom {index : Nat} {cause : FaultCause}
    (failed : evalFrom done stack entries = .error (index, cause)) : cause.kind ∉ codeFaults := by
  induction entries generalizing done stack with
  | nil => exact absurd failed (by simp [evalFrom])
  | cons entry rest ih =>
      rw [evalFrom] at failed
      cases evaluated : entry.eval stack with
      | ok next =>
          rw [evaluated] at failed
          exact ih failed
      | error reason =>
          rw [evaluated] at failed
          obtain ⟨rfl, rfl⟩ := Prod.mk.inj (Except.error.inj failed)
          exact kind_of_eval evaluated

theorem kind_of_told {fault : Fault} (failed : told (eval entries) = .error (.fault fault)) :
    fault.cause.kind ∉ codeFaults := by
  cases evaluated : eval entries with
  | ok stack =>
      rw [evaluated] at failed
      exact absurd failed (by simp [told])
  | error failure =>
      obtain ⟨index, cause⟩ := failure
      rw [evaluated] at failed
      obtain rfl := Failure.fault.inj (Except.error.inj failed)
      exact kind_of_evalFrom evaluated

/-- **The machine carries out a calculation**, given enough steps for all its entries and
the halt. -/
theorem outcome_steps {machine : AbstractMachine}
    (spelled : Spells program machine.pc (words entries ++ [haltWord]))
    (encodable : ∀ entry ∈ entries, entry.instruction.Encodable)
    (running : machine.status = .running) (unfaulted : machine.fault = none)
    (pc : machine.pc = origin + done) (fits : origin + done + entries.length < memorySize)
    (enough : entries.length < count) :
    (steps program count machine).outcome = told (evalFrom done machine.stack entries) := by
  induction entries generalizing done machine count with
  | nil =>
      obtain ⟨count, rfl⟩ := Nat.exists_eq_succ_of_ne_zero (by omega : count ≠ 0)
      have halts : performAt program machine.pc machine.stack = .ok (machine.stack, .halted) :=
        performAt_halt spelled.1 (by omega) (by omega)
      rw [steps, step_of_performAt running halts, steps_of_stopped (by simp), outcome, unfaulted]
      rfl
  | cons entry rest ih =>
      obtain ⟨count, rfl⟩ := Nat.exists_eq_succ_of_ne_zero (by omega : count ≠ 0)
      obtain ⟨first, later⟩ := spelled
      obtain ⟨encodable_first, encodable_rest⟩ := List.forall_mem_cons.mp encodable
      rw [List.length_cons] at fits enough
      have performed : performAt program machine.pc machine.stack =
          (·, .running) <$> entry.eval machine.stack :=
        performAt_entry first encodable_first (by omega) (by omega)
      rw [evalFrom, steps]
      cases evaluated : entry.eval machine.stack with
      | error cause =>
          rw [evaluated] at performed
          rw [step_of_failed running performed, steps_of_stopped (by simp), outcome, pc]
          rfl
      | ok next =>
          rw [evaluated] at performed
          rw [step_of_performAt running performed]
          have moved : machine.pc + 1 = origin + (done + 1 : Nat) := by omega
          exact ih later encodable_rest rfl unfaulted moved (by omega) (by omega)

end Calculation

section Compiled

variable {text : List Char} {image : Bytes} {traced : Bool}

theorem length_entries {tokens : List Token}
    (stand : tokens.mapM Token.entry? = some entries) : entries.length = tokens.length := by
  induction tokens generalizing entries with
  | nil =>
      obtain rfl := Option.some.inj stand
      rfl
  | cons token rest ih =>
      obtain ⟨entry, others, -, stand_rest, rfl⟩ := mapM_cons_eq_some_iff.mp stand
      rw [List.length_cons, List.length_cons, ih stand_rest]

theorem length_words (entries : List Entry) :
    (Calculation.words entries ++ [haltWord]).length = entries.length + 1 := by
  rw [List.length_append, Calculation.words, List.length_map, List.length_singleton]

/-- The words of a calculation and a halt run as the calculation does, if there is room
for them. -/
theorem execute_words_of_room
    (unpacked : Bytecode.unpack image = .ok (Calculation.words entries ++ [haltWord]))
    (encodable : ∀ entry ∈ entries, entry.instruction.Encodable)
    (room : origin + entries.length < memorySize) :
    (execute image traced).outcome = Calculation.told (Calculation.eval entries) := by
  have loads := Machine.load_of_unpack unpacked
  rw [length_words, if_pos (by omega)] at loads
  obtain ⟨machine, accepted⟩ := loads
  obtain ⟨words, unpacked', loaded⟩ := Machine.exists_loaded accepted
  obtain rfl := Except.ok.inj (unpacked'.symm.trans unpacked)
  have enough : entries.length < Cpu.stepLimit := by
    unfold Cpu.stepLimit
    omega
  rw [execute_outcome accepted loaded, Calculation.eval]
  exact Calculation.outcome_steps (spells_programWord [] _) encodable rfl rfl rfl
    (by omega) enough

/-- Words that leave no room for a halt are refused. -/
theorem execute_words_of_large
    (unpacked : Bytecode.unpack image = .ok (Calculation.words entries ++ [haltWord]))
    (large : ¬ origin + entries.length < memorySize) :
    (execute image traced).outcome = .error (.format (.tooManyWords (entries.length + 1))) := by
  have loads := Machine.load_of_unpack unpacked
  rw [length_words, if_neg (by omega)] at loads
  rw [execute_of_refused loads]

/-- **A compiled source tells what its calculation comes to.** Its tokens are carried out
from left to right: what it tells is the top of the stack they leave, or the fault of the
first that fails, at the address of its word. Only a source of too many tokens is refused,
and no fault blames the code. -/
theorem execute_compiled (compiled : compileSource text = .ok image) (traced : Bool) :
    ∃ tokens entries, allTokens text = .ok tokens ∧ tokens.mapM Token.entry? = some entries ∧
      (execute image traced).outcome =
        (if tokens.length ≤ memorySize - origin - 1 then
          Calculation.told (Calculation.eval entries)
        else .error (.format (.tooManyWords (tokens.length + 1)))) ∧
      ∀ fault, (execute image traced).outcome = .error (.fault fault) →
        fault.cause.kind ∉ Calculation.codeFaults := by
  obtain ⟨tokens, entries, lexed, stand, encodable, unpacked⟩ :=
    compileSource_eq_ok_iff.mp compiled
  have outcome_eq : (execute image traced).outcome =
      if tokens.length ≤ memorySize - origin - 1 then
        Calculation.told (Calculation.eval entries)
      else .error (.format (.tooManyWords (tokens.length + 1))) := by
    have room_iff : entries.length ≤ memorySize - origin - 1 ↔
        origin + entries.length < memorySize := by
      unfold memorySize origin
      omega
    rw [← length_entries stand]
    by_cases room : origin + entries.length < memorySize
    · rw [if_pos (room_iff.mpr room)]
      exact execute_words_of_room unpacked encodable room
    · rw [if_neg (room_iff.not.mpr room)]
      exact execute_words_of_large unpacked room
  refine ⟨tokens, entries, lexed, stand, outcome_eq, ?_⟩
  intro fault failed
  rw [outcome_eq] at failed
  split at failed
  · exact Calculation.kind_of_told failed
  · exact absurd failed (by simp)

/-- One operator after another: a difference, a sum and a product, and a quotient that is not
exact; each is carried out on what the one before it left. -/
theorem execute_compiled_of_operators :
    (∃ image, compileSource "2 9 -".toList = .ok image ∧
      (execute image true).outcome = .ok (some (-7))) ∧
    (∃ image, compileSource "2 9 - 5 +".toList = .ok image ∧
      (execute image true).outcome = .ok (some (-2))) ∧
    (∃ image, compileSource "2 9 - 5 + 3 *".toList = .ok image ∧
      (execute image true).outcome = .ok (some (-6))) ∧
    ∃ image, compileSource "2 9 - 5 + 3 * 4 /".toList = .ok image ∧
      (execute image true).outcome = .ok (some (-1)) := by
  have told {text : List Char} {image : Bytes} {tokens : List Token} {entries : List Entry}
      {value : Int} (compiled : compileSource text = .ok image)
      (lexed : allTokens text = .ok tokens) (stand : tokens.mapM Token.entry? = some entries)
      (few : tokens.length ≤ memorySize - origin - 1)
      (evaluated : Calculation.told (Calculation.eval entries) = .ok (some value)) :
      ∃ image, compileSource text = .ok image ∧
        (execute image true).outcome = .ok (some value) := by
    obtain ⟨found, others, lexed', stand', outcome_eq, -⟩ := execute_compiled compiled true
    obtain rfl := Except.ok.inj (lexed'.symm.trans lexed)
    obtain rfl := Option.some.inj (stand'.symm.trans stand)
    rw [if_pos few, evaluated] at outcome_eq
    exact ⟨image, compiled, outcome_eq⟩
  exact ⟨told rfl rfl rfl (by decide) rfl, told rfl rfl rfl (by decide) rfl,
    told rfl rfl rfl (by decide) rfl, told rfl rfl rfl (by decide) rfl⟩

end Compiled

end ReversePolish
