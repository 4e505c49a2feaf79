import ReversePolish.Proofs.Calculation.Execution

/-! # Wrapping once is enough

A sum, a difference and a product of wrapped values are, wrapped again, what the values
themselves come to (`Operator.wrap_combine`). So a calculation without division keeps a
stack whose values are those of the calculation on integers of any size, each wrapped
(`Calculation.exact_of_evalFrom`), and a compiled source tells the one value in range
that is congruent to what its tokens come to when nothing is ever wrapped
(`execute_compiled_wraps_exact`).
-/

namespace ReversePolish

variable {entry : Entry} {entries : List Entry} {stack after : List Int} {done : Nat}

/-- A number is wrapped to the one value in range that is congruent to it. -/
theorem eq_wrap_iff {number value : Int} :
    value = wrap number ↔ FitsValue value ∧ value % wordRange = number % wordRange := by
  constructor
  · rintro rfl
    exact ⟨fitsValue_wrap number, Int.bmod_emod⟩
  · intro representative
    obtain ⟨fits, congruent⟩ := representative
    calc value = wrap value := (wrap_of_fitsValue fits).symm
      _ = Int.bmod (value % wordRange) wordRange := (Int.emod_bmod value wordRange).symm
      _ = Int.bmod (number % wordRange) wordRange := by rw [congruent]
      _ = wrap number := Int.emod_bmod number wordRange

/-- What a sum, a difference or a product is wrapped to depends on its operands only as
far as they are wrapped. -/
theorem Operator.wrap_combine {operator : Operator} (undivided : operator ≠ .div)
    (second top : Int) :
    ∃ exact wrapped, operator.combine second top = some exact ∧
      operator.combine (wrap second) (wrap top) = some wrapped ∧ wrap wrapped = wrap exact := by
  cases operator with
  | add => exact ⟨_, _, rfl, rfl, by simp only [wrap, Int.bmod_add_bmod, Int.add_bmod_bmod]⟩
  | sub => exact ⟨_, _, rfl, rfl, by simp only [wrap, Int.bmod_sub_bmod, Int.sub_bmod_bmod]⟩
  | mul => exact ⟨_, _, rfl, rfl, by simp only [wrap, Int.bmod_mul_bmod, Int.mul_bmod_bmod]⟩
  | div => exact absurd rfl undivided

/-- An entry makes of wrapped values what it makes of the values, wrapped. -/
theorem Entry.exact_of_eval (undivided : entry ≠ .operator .div)
    (encodable : entry.instruction.Encodable)
    (evaluated : entry.eval (stack.map wrap) = .ok after) :
    ∃ exact, entry.exact stack = some exact ∧ after = exact.map wrap := by
  cases entry with
  | number value =>
      obtain ⟨-, rfl⟩ := Stack.push_eq_ok_iff.mp evaluated
      have fits : FitsValue value := fitsValue_of_decode_push (decode_toWord encodable)
      exact ⟨value :: stack, rfl, by rw [List.map_cons, wrap_of_fitsValue fits]⟩
  | operator applied =>
      obtain ⟨_, _, _, result, operands, combined, rfl⟩ := Stack.operate_eq_ok_iff.mp evaluated
      obtain ⟨top, others, rfl, rfl, popped⟩ := List.map_eq_cons_iff.mp operands
      obtain ⟨second, rest, rfl, rfl, rfl⟩ := List.map_eq_cons_iff.mp popped
      have applied_ne : applied ≠ .div := fun division => undivided (by rw [division])
      obtain ⟨exact, wrapped, found, found_wrapped, same⟩ :=
        Operator.wrap_combine applied_ne second top
      obtain rfl : wrapped = result := Option.some.inj (found_wrapped.symm.trans combined)
      refine ⟨exact :: rest, ?_, by rw [List.map_cons, same]⟩
      rw [Entry.exact, Operator.result?_eq_combine, found]
      rfl

namespace Calculation

/-- A calculation without division makes of wrapped values what it makes of the values
when none is ever wrapped, each wrapped at last. -/
theorem exact_of_evalFrom (undivided : .operator .div ∉ entries)
    (encodable : ∀ entry ∈ entries, entry.instruction.Encodable)
    (evaluated : evalFrom done (stack.map wrap) entries = .ok after) :
    ∃ exact, entries.foldlM Entry.exact stack = some exact ∧ after = exact.map wrap := by
  induction entries generalizing done stack with
  | nil =>
      obtain rfl := Except.ok.inj evaluated
      exact ⟨stack, rfl, rfl⟩
  | cons entry rest ih =>
      obtain ⟨undivided_first, undivided_rest⟩ := not_or.mp (mt List.mem_cons.mpr undivided)
      obtain ⟨encodable_first, encodable_rest⟩ := List.forall_mem_cons.mp encodable
      rw [evalFrom] at evaluated
      cases found : entry.eval (stack.map wrap) with
      | error cause =>
          rw [found] at evaluated
          exact absurd evaluated (by simp)
      | ok next =>
          rw [found] at evaluated
          obtain ⟨exact, exact_found, rfl⟩ :=
            Entry.exact_of_eval (Ne.symm undivided_first) encodable_first found
          obtain ⟨last, rest_found, same⟩ := ih undivided_rest encodable_rest evaluated
          exact ⟨last, by rw [List.foldlM_cons, exact_found]; exact rest_found, same⟩

/-- A calculation that tells a number has left it on top of its stack. -/
theorem told_eq_some_iff {evaluated : Except (Nat × FaultCause) (List Int)} {value : Int} :
    told evaluated = .ok (some value) ↔ ∃ rest, evaluated = .ok (value :: rest) := by
  rcases evaluated with ⟨index, cause⟩ | (_ | ⟨top, rest⟩)
  · simp [told]
  · simp [told]
  · simp [told]

end Calculation

section Compiled

variable {text : List Char} {image : Bytes} {tokens : List Token}

/-- The operators of tokens are those that their symbols stand for. -/
theorem exists_symbol_of_mem {applied : Operator} (stand : tokens.mapM Token.entry? = some entries)
    (member : .operator applied ∈ entries) :
    ∃ symbol position, .operator symbol position ∈ tokens ∧
      Operator.ofSymbol? symbol = some applied := by
  induction tokens generalizing entries with
  | nil =>
      obtain rfl := Option.some.inj stand
      exact absurd member (by simp)
  | cons token rest ih =>
      obtain ⟨entry, others, stands, stand_rest, rfl⟩ := mapM_cons_eq_some_iff.mp stand
      rcases List.mem_cons.mp member with rfl | later
      · cases token with
        | number value position => cases stands
        | operator symbol position =>
            rw [Token.entry?_operator] at stands
            obtain ⟨found, meaning, same⟩ := Option.map_eq_some_iff.mp stands
            obtain rfl := Entry.operator.inj same
            exact ⟨symbol, position, List.mem_cons_self .., meaning⟩
      · obtain ⟨symbol, position, inRest, meaning⟩ := ih stand_rest later
        exact ⟨symbol, position, List.mem_cons_of_mem _ inRest, meaning⟩

/-- **Wrapping after every operation is wrapping once at the end.** A source that adds,
subtracts and multiplies tells a number only if its tokens come to a value on integers of
any size, and then it tells the one value in range that is congruent to it. -/
theorem execute_compiled_wraps_exact (compiled : compileSource text = .ok image)
    (lexed : allTokens text = .ok tokens)
    (undivided : ∀ symbol position, .operator symbol position ∈ tokens →
      symbol ∈ ["+", "-", "*"])
    {traced : Bool} {result : Int}
    (told : (execute image traced).outcome = .ok (some result)) :
    ∃ entries value rest, tokens.mapM Token.entry? = some entries ∧
      Calculation.exact entries = some (value :: rest) ∧ result = wrap value ∧
      ∀ other, other = result ↔ FitsValue other ∧ other % wordRange = value % wordRange := by
  obtain ⟨found, entries, lexed', stand, encodable, unpacked⟩ :=
    compileSource_eq_ok_iff.mp compiled
  obtain rfl : found = tokens := Except.ok.inj (lexed'.symm.trans lexed)
  have undivided_entries : .operator .div ∉ entries := by
    intro member
    obtain ⟨symbol, position, inTokens, meaning⟩ := exists_symbol_of_mem stand member
    have known := undivided symbol position inTokens
    simp only [List.mem_cons, List.not_mem_nil, or_false] at known
    rcases known with rfl | rfl | rfl <;> exact absurd meaning (by decide)
  by_cases room : origin + entries.length < memorySize
  · rw [execute_words_of_room unpacked encodable room, Calculation.told_eq_some_iff] at told
    obtain ⟨rest, evaluated⟩ := told
    have from_empty : Calculation.evalFrom 0 (([] : List Int).map wrap) entries =
        .ok (result :: rest) := evaluated
    obtain ⟨exact, found, same⟩ :=
      Calculation.exact_of_evalFrom undivided_entries encodable from_empty
    obtain ⟨value, others, rfl, rfl, -⟩ := List.map_eq_cons_iff.mp same.symm
    exact ⟨entries, value, others, stand, found, rfl, fun _ => eq_wrap_iff⟩
  · rw [execute_words_of_large unpacked room] at told
    exact absurd told (by simp)

/-- The square of a number just too large for a halfword, less one: four bytes of ones. -/
theorem execute_compiled_wraps_exact_of_square :
    ∃ image value rest,
      compileSource ['6', '5', '5', '3', '6', ' ', '6', '5', '5', '3', '6', '*', '1', '-'] =
        .ok image ∧
      (execute image false).outcome = .ok (some (-1)) ∧
      Calculation.exact [.number 65536, .number 65536, .operator .mul, .number 1, .operator .sub] =
        some (value :: rest) ∧ -1 = wrap value := by
  have compiled : compileSource
      ['6', '5', '5', '3', '6', ' ', '6', '5', '5', '3', '6', '*', '1', '-'] =
      .ok [0, 1, 0, 0, 0, 1, 0, 0, 0x40, 0, 0, 3, 0, 0, 0, 1, 0x40, 0, 0, 2, 0x40, 0, 0, 0] := rfl
  have read : allTokens
      ['6', '5', '5', '3', '6', ' ', '6', '5', '5', '3', '6', '*', '1', '-'] =
      .ok [.number 65536 (some ⟨0, 1, 1⟩), .number 65536 (some ⟨6, 1, 7⟩),
        .operator "*" (some ⟨11, 1, 12⟩), .number 1 (some ⟨12, 1, 13⟩),
        .operator "-" (some ⟨13, 1, 14⟩)] := rfl
  obtain ⟨tokens, entries, lexed, stand, encodable, unpacked⟩ :=
    compileSource_eq_ok_iff.mp compiled
  obtain rfl := Except.ok.inj (read.symm.trans lexed)
  obtain rfl := Option.some.inj stand
  have told : (execute _ false).outcome = _ :=
    execute_words_of_room unpacked encodable (by decide)
  obtain ⟨entries, value, rest, stand', exact, wrapped, -⟩ :=
    execute_compiled_wraps_exact compiled lexed (by grind) told
  obtain rfl := Option.some.inj stand'
  exact ⟨_, value, rest, compiled, told, exact, wrapped⟩

end Compiled

end ReversePolish
