import Mathlib.Data.List.Induction
import ReversePolish.Calculation
import ReversePolish.Proofs.Machine.Stack

/-! # How deep the stack of a calculation is

Numbers and operators alone, whatever they are, tell how many values stand on the stack
before an entry, and whether that is too few or too many for it
(`Calculation.Blocked`). The first entry that is blocked fails, unless a division by zero
comes before it (`Calculation.eval_of_blocked`); if none is blocked, nothing but a division
by zero fails (`Calculation.eval_of_admitted`).
-/

namespace ReversePolish

variable {entry : Entry} {entries others later : List Entry} {stack after : List Int}
  {index : Nat}

/-! ## Entries on a stack of a depth -/

namespace Entry

/-- Whether an entry is a number. -/
def isNumber : Entry → Bool
  | number _ => true
  | operator _ => false

/-- An entry that no stack of a depth admits: a number on a full stack, or an operator on
fewer than two values. -/
def Blocked (depth : Int) : Entry → Prop
  | number _ => depth = origin
  | operator _ => depth < 2

/-- The cause of the fault of an entry that is blocked. -/
def blockage (depth : Int) : Entry → FaultCause
  | number _ => .stackOverflow depth
  | operator applied => .stackUnderflow applied.mnemonic depth

theorem eval_of_blocked (blocked : entry.Blocked stack.length) :
    entry.eval stack = .error (entry.blockage stack.length) := by
  cases entry with
  | number value =>
      have full : (stack.length : Int) = origin := blocked
      exact Stack.push_eq_error_iff.mpr ⟨by omega, rfl⟩
  | operator applied =>
      have few : (stack.length : Int) < 2 := blocked
      exact Stack.operate_of_few (by omega)

/-- An entry that can be carried out changes the depth by its kind, and never makes the stack
too deep. -/
theorem length_of_eval (evaluated : entry.eval stack = .ok after) :
    (after.length : Int) = stack.length + entry.depthChange ∧
      (stack.length ≤ origin → after.length ≤ origin) := by
  cases entry with
  | number value =>
      obtain ⟨room, rfl⟩ := Stack.push_eq_ok_iff.mp evaluated
      rw [List.length_cons, depthChange]
      omega
  | operator applied =>
      obtain ⟨top, second, rest, result, rfl, -, rfl⟩ := Stack.operate_eq_ok_iff.mp evaluated
      simp only [List.length_cons, depthChange]
      omega

/-- An entry that is not blocked is carried out, unless it divides by zero. -/
theorem eval_of_not_blocked (le : stack.length ≤ origin)
    (admitted : ¬ entry.Blocked stack.length) :
    (∃ after, entry.eval stack = .ok after) ∨
      entry = .operator .div ∧ entry.eval stack = .error .divisionByZero := by
  cases evaluated : entry.eval stack with
  | ok after => exact .inl ⟨after, rfl⟩
  | error cause =>
      cases entry with
      | number value =>
          have room : (stack.length : Int) ≠ origin := admitted
          obtain ⟨full, -⟩ := Stack.push_eq_error_iff.mp evaluated
          omega
      | operator applied =>
          have enough : ¬ (stack.length : Int) < 2 := admitted
          rcases Stack.operate_eq_error_iff.mp evaluated with ⟨few, -⟩ | ⟨-, rfl, rfl⟩
          · omega
          · exact .inr ⟨rfl, rfl⟩

/-- Entries of one kind are blocked together, by faults of one kind. -/
theorem blocked_congr {other : Entry} {depth : Int} (same : entry.isNumber = other.isNumber) :
    (entry.Blocked depth ↔ other.Blocked depth) ∧
      (entry.blockage depth).kind = (other.blockage depth).kind := by
  cases entry <;> cases other <;> first | exact ⟨Iff.rfl, rfl⟩ | cases same

end Entry

namespace Calculation

/-! ## Calculations whose entries are blocked or not -/

theorem depth_append (entries later : List Entry) :
    depth (entries ++ later) = depth entries + depth later := by
  induction entries with
  | nil => simp [depth]
  | cons entry rest ih =>
      rw [List.cons_append, depth, depth, ih]
      omega

theorem depth_singleton (entry : Entry) : depth [entry] = entry.depthChange := by
  simp [depth]

theorem depth_take_succ (found : entries[index]? = some entry) :
    depth (entries.take (index + 1)) = depth (entries.take index) + entry.depthChange := by
  rw [List.take_add_one, found, Option.toList_some, depth_append, depth_singleton]

/-- Kinds alone decide the depth. -/
theorem depth_congr (same : entries.map Entry.isNumber = others.map Entry.isNumber) :
    depth entries = depth others := by
  induction entries generalizing others with
  | nil =>
      obtain rfl := List.map_eq_nil_iff.mp same.symm
      rfl
  | cons entry rest ih =>
      obtain ⟨other, tail, rfl, kind, same⟩ := List.map_eq_cons_iff.mp same.symm
      rw [depth, depth, ih same.symm]
      cases entry <;> cases other <;> first | rfl | cases kind

/-- An entry that the depth before it blocks. -/
def Blocked (entries : List Entry) (index : Nat) : Prop :=
  ∃ entry, entries[index]? = some entry ∧ entry.Blocked (depth (entries.take index))

theorem Blocked.lt_length (blocked : Blocked entries index) : index < entries.length := by
  obtain ⟨entry, found, -⟩ := blocked
  exact (List.getElem?_eq_some_iff.mp found).1

/-- What comes after an entry does not matter to it. -/
theorem blocked_append_iff (inside : index < entries.length) :
    Blocked (entries ++ later) index ↔ Blocked entries index := by
  rw [Blocked, Blocked, List.getElem?_append_left inside,
    List.take_append_of_le_length (Nat.le_of_lt inside)]

theorem blocked_append_singleton_iff (entries : List Entry) (entry : Entry) :
    Blocked (entries ++ [entry]) entries.length ↔ entry.Blocked (depth entries) := by
  rw [Blocked, List.getElem?_concat_length, List.take_left' rfl]
  simp

/-- Kinds alone decide which entries are blocked. -/
theorem blocked_of_same (same : entries.map Entry.isNumber = others.map Entry.isNumber)
    (blocked : Blocked entries index) : Blocked others index := by
  obtain ⟨entry, found, blocked⟩ := blocked
  have kinds : (entries[index]?).map Entry.isNumber = (others[index]?).map Entry.isNumber := by
    rw [← List.getElem?_map, ← List.getElem?_map, same]
  rw [found] at kinds
  obtain ⟨other, other_found, kind⟩ := Option.map_eq_some_iff.mp kinds.symm
  have depths : depth (entries.take index) = depth (others.take index) :=
    depth_congr (by rw [List.map_take, List.map_take, same])
  rw [depths] at blocked
  exact ⟨other, other_found, (Entry.blocked_congr kind.symm).1.mp blocked⟩

theorem evalFrom_append (entries later : List Entry) (done : Nat) (stack : List Int) :
    evalFrom done stack (entries ++ later) =
      evalFrom done stack entries >>= fun next => evalFrom (done + entries.length) next later := by
  induction entries generalizing done stack with
  | nil => rfl
  | cons entry rest ih =>
      rw [List.cons_append, evalFrom, evalFrom, List.length_cons]
      cases entry.eval stack with
      | error cause => rfl
      | ok next =>
          have count : done + (rest.length + 1) = done + 1 + rest.length := by omega
          rw [count]
          exact ih (done + 1) next

/-- A calculation divides by zero at an entry. -/
def DividesByZero (entries : List Entry) (index : Nat) : Prop :=
  entries[index]? = some (.operator .div) ∧ eval entries = .error (index, .divisionByZero)

theorem dividesByZero_append (divides : DividesByZero entries index) (later : List Entry) :
    DividesByZero (entries ++ later) index := by
  obtain ⟨found, failed⟩ := divides
  refine ⟨?_, ?_⟩
  · rw [List.getElem?_append_left (List.getElem?_eq_some_iff.mp found).1, found]
  · rw [eval, evalFrom_append, ← eval, failed]
    rfl

/-- **A calculation none of whose entries is blocked** is carried out to a stack of its depth,
unless it divides by zero. -/
theorem eval_of_admitted (admitted : ∀ index, ¬ Blocked entries index) :
    (∃ stack, eval entries = .ok stack ∧ (stack.length : Int) = depth entries ∧
        stack.length ≤ origin) ∨
      ∃ index, DividesByZero entries index := by
  induction entries using List.reverseRecOn with
  | nil => exact .inl ⟨[], rfl, rfl, Nat.zero_le _⟩
  | append_singleton entries entry ih =>
      have earlier : ∀ index, ¬ Blocked entries index := fun index blocked =>
        admitted index ((blocked_append_iff blocked.lt_length).mpr blocked)
      rcases ih earlier with ⟨stack, evaluated, length_eq, le⟩ | ⟨index, divides⟩
      · have last : eval (entries ++ [entry]) = evalFrom entries.length stack [entry] := by
          rw [eval, evalFrom_append, ← eval, evaluated, Nat.zero_add]
          rfl
        have entry_admitted : ¬ entry.Blocked stack.length := by
          rw [length_eq, ← blocked_append_singleton_iff]
          exact admitted entries.length
        rcases Entry.eval_of_not_blocked le entry_admitted with
          ⟨after, entry_evaluated⟩ | ⟨rfl, failed⟩
        · obtain ⟨changed, kept⟩ := Entry.length_of_eval entry_evaluated
          refine .inl ⟨after, ?_, ?_, kept le⟩
          · rw [last, evalFrom, entry_evaluated]
            rfl
          · rw [changed, length_eq, depth_append, depth_singleton]
        · refine .inr ⟨entries.length, List.getElem?_concat_length, ?_⟩
          rw [last, evalFrom, failed]
      · exact .inr ⟨index, dividesByZero_append divides [entry]⟩

/-- **The first entry that is blocked fails**, unless a division by zero comes before it. -/
theorem eval_of_blocked (blocked : Blocked entries index)
    (first : ∀ earlier < index, ¬ Blocked entries earlier) :
    (∃ earlier < index, DividesByZero entries earlier) ∨
      ∃ entry, entries[index]? = some entry ∧
        eval entries = .error (index, entry.blockage (depth (entries.take index))) := by
  have inside := blocked.lt_length
  obtain ⟨entry, found, entry_blocked⟩ := blocked
  obtain ⟨before, later, rfl, rfl⟩ : ∃ before later,
      entries = before ++ entry :: later ∧ before.length = index := by
    obtain ⟨_, rfl⟩ := List.getElem?_eq_some_iff.mp found
    refine ⟨entries.take index, entries.drop (index + 1), ?_, ?_⟩
    · rw [List.getElem_cons_drop, List.take_append_drop]
    · exact List.length_take_of_le (Nat.le_of_lt inside)
  have earlier : ∀ index, ¬ Blocked before index := fun index blocked =>
    first index blocked.lt_length ((blocked_append_iff blocked.lt_length).mpr blocked)
  rw [List.take_left' rfl] at entry_blocked ⊢
  rcases eval_of_admitted earlier with ⟨stack, evaluated, length_eq, -⟩ | ⟨index, divides⟩
  · refine .inr ⟨entry, found, ?_⟩
    rw [← length_eq] at entry_blocked ⊢
    rw [eval, evalFrom_append, ← eval, evaluated, Nat.zero_add]
    show evalFrom before.length stack (entry :: later) = _
    rw [evalFrom, Entry.eval_of_blocked entry_blocked]
  · exact .inl ⟨index, (List.getElem?_eq_some_iff.mp divides.1).1,
      dividesByZero_append divides _⟩

theorem not_dividesByZero (undivided : .operator .div ∉ entries) :
    ¬ DividesByZero entries index :=
  fun divides => undivided (List.mem_of_getElem? divides.1)

theorem eval_of_admitted_of_undivided (undivided : .operator .div ∉ entries)
    (admitted : ∀ index, ¬ Blocked entries index) : ∃ stack, eval entries = .ok stack := by
  rcases eval_of_admitted admitted with ⟨stack, evaluated, -⟩ | ⟨index, divides⟩
  · exact ⟨stack, evaluated⟩
  · exact absurd divides (not_dividesByZero undivided)

theorem eval_of_blocked_of_undivided (undivided : .operator .div ∉ entries)
    (blocked : Blocked entries index) (first : ∀ earlier < index, ¬ Blocked entries earlier) :
    ∃ entry, entries[index]? = some entry ∧
      eval entries = .error (index, entry.blockage (depth (entries.take index))) := by
  rcases eval_of_blocked blocked first with ⟨earlier, -, divides⟩ | failed
  · exact absurd divides (not_dividesByZero undivided)
  · exact failed

end Calculation

end ReversePolish
