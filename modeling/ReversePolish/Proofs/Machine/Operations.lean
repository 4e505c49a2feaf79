import ReversePolish.Proofs.Action
import ReversePolish.Proofs.Machine.Stack
import ReversePolish.Proofs.Machine.StackRegion

/-! # The operations of a processor on a stack

Each operation is described for a processor whose memory holds a stack: what it
returns, the processor it leaves, and when it fails. An instruction that succeeds
is described by `Cpu.Performed`, and succeeds exactly when the machine without
memory can perform it (`Cpu.dispatch_of_performed`); one that fails changes nothing
(`Cpu.dispatch_of_failed`).
-/

namespace ReversePolish

namespace Cpu

variable {α : Type} {cpu after : Cpu} {stack rest remaining : List Int}
  {second top result value : Int} {status : Status} {cause : FaultCause}

theorem raise_of_writable (cause : FaultCause) (writable : cause.Writable) (cpu : Cpu) :
    (raise cause : Action α) cpu = .error (.fault { cause }) cpu := by
  rw [raise, if_pos writable]
  rfl

/-- Instead of a fault whose text cannot be written there is another failure. -/
theorem raise_of_not_writable (cause : FaultCause) (long : ¬ cause.Writable) (cpu : Cpu) :
    (raise cause : Action α) cpu = .error .tooManyDigits cpu := by
  rw [raise, if_neg long]
  rfl

@[simp] theorem access_ok (outcome : α) : access (.ok outcome) = pure outcome := rfl

/-- A processor that has told a line, if it is traced. -/
def tell (cpu : Cpu) (line : TraceLine) : Cpu :=
  if cpu.traced then { cpu with trace := cpu.trace.push line } else cpu

theorem emit_apply (line : TraceLine) (cpu : Cpu) : emit line cpu = .ok () (cpu.tell line) := rfl

@[simp] theorem tell_memory (cpu : Cpu) (line : TraceLine) :
    (cpu.tell line).memory = cpu.memory := by
  unfold tell
  split <;> rfl

@[simp] theorem tell_pc (cpu : Cpu) (line : TraceLine) : (cpu.tell line).pc = cpu.pc := by
  unfold tell
  split <;> rfl

@[simp] theorem tell_sp (cpu : Cpu) (line : TraceLine) : (cpu.tell line).sp = cpu.sp := by
  unfold tell
  split <;> rfl

@[simp] theorem tell_status (cpu : Cpu) (line : TraceLine) :
    (cpu.tell line).status = cpu.status := by
  unfold tell
  split <;> rfl

@[simp] theorem tell_fault (cpu : Cpu) (line : TraceLine) : (cpu.tell line).fault = cpu.fault := by
  unfold tell
  split <;> rfl

@[simp] theorem tell_traced (cpu : Cpu) (line : TraceLine) :
    (cpu.tell line).traced = cpu.traced := by
  unfold tell
  split <;> rfl

/-- The depth of a processor is the number of values on its stack. -/
theorem depth_eq (holds : cpu.memory.Holds cpu.sp stack) : cpu.depth = stack.length := by
  have eq := holds.sp_eq
  rw [depth]
  omega

/-- The depth of a stack is soon written. -/
theorem writable_length {memory : Memory} {sp : Int} (holds : memory.Holds sp stack) :
    Text.Writable stack.length := by
  have le := holds.length_le
  simp only [origin] at le
  exact Text.writable_of_lt (by omega)

theorem top?_apply (holds : cpu.memory.Holds cpu.sp stack) : top? cpu = .ok stack.head? cpu := by
  rw [top?, bind_of_ok (get_apply cpu), depth_eq holds]
  cases stack with
  | nil => rfl
  | cons value rest =>
      rw [if_neg (by rw [List.length_cons]; omega), (Memory.holds_cons_iff.mp holds).1]
      rfl

theorem emitTop_apply (holds : cpu.memory.Holds cpu.sp stack) :
    emitTop cpu = .ok () (cpu.tell (.topOfStack stack.head?)) := by
  rw [emitTop, bind_of_ok (top?_apply holds), emit_apply]

/-- An instruction ends by telling a line and then the top of the stack. -/
theorem emit_emitTop_apply (line : TraceLine) (holds : cpu.memory.Holds cpu.sp stack) :
    (emit line >>= fun _ => emitTop) cpu =
      .ok () ((cpu.tell line).tell (.topOfStack stack.head?)) := by
  rw [bind_of_ok (emit_apply line cpu)]
  exact emitTop_apply (by rwa [tell_memory, tell_sp])

theorem fetch_apply {word : Int} (read : cpu.memory.readWord cpu.pc = .ok word) :
    fetch cpu = .ok word { cpu with pc := cpu.pc + 1 } := by
  obtain ⟨place, at_place, -⟩ := Memory.exists_of_readWord read
  have inside : 0 ≤ cpu.pc ∧ cpu.pc < memorySize := by
    have := place.isLt
    omega
  rw [fetch, bind_of_ok (get_apply cpu), if_pos inside, read]
  rfl

theorem fetch_of_outside (outside : ¬ (0 ≤ cpu.pc ∧ cpu.pc < memorySize))
    (writable : Text.Writable cpu.pc) :
    fetch cpu = .error (.fault { cause := .pcOutOfBounds cpu.pc }) cpu := by
  rw [fetch, bind_of_ok (get_apply cpu), if_neg outside]
  exact raise_of_writable (.pcOutOfBounds _) writable cpu

/-- An address in memory, or the end of it, is soon written. -/
theorem writable_address {address : Int} (nonneg : 0 ≤ address) (le : address ≤ memorySize) :
    Text.Writable address := by
  simp only [memorySize] at le
  exact Text.writable_of_lt (by omega)

theorem fetch_of_not_writable (long : ¬ Text.Writable cpu.pc) :
    fetch cpu = .error .tooManyDigits cpu := by
  have outside : ¬ (0 ≤ cpu.pc ∧ cpu.pc < memorySize) :=
    fun inside => long (writable_address inside.1 (Int.le_of_lt inside.2))
  rw [fetch, bind_of_ok (get_apply cpu), if_neg outside]
  exact raise_of_not_writable (.pcOutOfBounds _) long cpu

/-- A processor whose stack has its top at an address, where a value is stored. -/
def withTop (cpu : Cpu) (sp value : Int) : Cpu :=
  { cpu with sp, memory := cpu.memory.withValue sp value }

theorem holds_withTop {sp : Int} (holds : cpu.memory.Holds (sp + 1) rest)
    (room : rest.length < origin) (fits : FitsValue value) :
    (cpu.withTop sp value).memory.Holds (cpu.withTop sp value).sp (value :: rest) :=
  holds.withValue room fits

theorem pushValue_apply (holds : cpu.memory.Holds cpu.sp stack) (room : stack.length < origin)
    (fits : FitsValue value) : pushValue value cpu = .ok () (cpu.withTop (cpu.sp - 1) value) := by
  have eq := holds.sp_eq
  have below : 0 ≤ cpu.sp - 1 ∧ cpu.sp - 1 < origin := by omega
  have written := cpu.memory.writeValue_eq_withValue below.1
    (by simp only [origin, memorySize] at *; omega) fits
  rw [pushValue, bind_of_ok (get_apply cpu), if_pos below, bind_of_ok (set_apply _ _), written]
  rfl

theorem pushValue_of_full (holds : cpu.memory.Holds cpu.sp stack)
    (full : ¬ stack.length < origin) :
    pushValue value cpu = .error (.fault { cause := .stackOverflow stack.length }) cpu := by
  have eq := holds.sp_eq
  rw [pushValue, bind_of_ok (get_apply cpu), if_neg (by omega), depth_eq holds]
  exact raise_of_writable (.stackOverflow _) (writable_length holds) cpu

theorem popValue_apply (holds : cpu.memory.Holds cpu.sp (value :: rest)) :
    popValue cpu = .ok value { cpu with sp := cpu.sp + 1 } := by
  rw [popValue, bind_of_ok (get_apply cpu), (Memory.holds_cons_iff.mp holds).1]
  rfl

theorem operands_apply (needed : String) (holds : cpu.memory.Holds cpu.sp (top :: second :: rest)) :
    operands needed cpu = .ok (second, top) cpu := by
  obtain ⟨top_read, others⟩ := Memory.holds_cons_iff.mp holds
  obtain ⟨second_read, -⟩ := Memory.holds_cons_iff.mp others
  rw [operands, bind_of_ok (get_apply cpu), depth_eq holds,
    if_neg (by simp only [List.length_cons]; omega), top_read, second_read]
  rfl

theorem operands_of_few (needed : String) (holds : cpu.memory.Holds cpu.sp stack)
    (few : stack.length < 2) :
    operands needed cpu = .error (.fault { cause := .stackUnderflow needed stack.length }) cpu := by
  rw [operands, bind_of_ok (get_apply cpu), depth_eq holds, if_pos (by omega)]
  exact raise_of_writable (.stackUnderflow needed _) (writable_length holds) cpu

theorem combine_apply {operator : Operator}
    (holds : cpu.memory.Holds cpu.sp (top :: second :: rest))
    (combined : operator.combine second top = some result) :
    combine operator cpu = .ok () (((cpu.withTop (cpu.sp + 1) (wrap result)).tell
      (.operation operator second top)).tell (.topOfStack (some (wrap result)))) := by
  obtain ⟨-, others⟩ := Memory.holds_cons_iff.mp holds
  obtain ⟨remaining, room⟩ := holds.below_operands
  have popped : popValue { cpu with sp := cpu.sp + 1 } =
      .ok second { cpu with sp := cpu.sp + 1 + 1 } := popValue_apply others
  have pushed : pushValue (wrap result) { cpu with sp := cpu.sp + 1 + 1 } =
      .ok () (cpu.withTop (cpu.sp + 1) (wrap result)) := by
    rw [pushValue_apply remaining room (fitsValue_wrap result), Int.add_sub_cancel]
    rfl
  rw [combine, bind_of_ok (operands_apply _ holds)]
  simp only [combined]
  rw [bind_of_ok (popValue_apply holds), bind_of_ok popped, bind_of_ok pushed]
  exact emit_emitTop_apply _ (holds_withTop remaining room (fitsValue_wrap result))

theorem combine_of_few {operator : Operator} (holds : cpu.memory.Holds cpu.sp stack)
    (few : stack.length < 2) :
    combine operator cpu =
      .error (.fault { cause := .stackUnderflow operator.mnemonic stack.length }) cpu := by
  rw [combine, bind_of_error (operands_of_few _ holds few)]

/-- An operator that can be carried out on the stack is. -/
theorem operate_apply {operator : Operator}
    (holds : cpu.memory.Holds cpu.sp (top :: second :: rest))
    (combined : operator.combine second top = some result) :
    operate operator cpu = .ok () (((cpu.withTop (cpu.sp + 1) (wrap result)).tell
      (.operation operator second top)).tell (.topOfStack (some (wrap result)))) := by
  cases operator with
  | div =>
      have nonzero : top ≠ 0 := by
        intro zero
        subst zero
        simp [Operator.combine, truncatedQuotient] at combined
      rw [operate, divide, bind_of_ok (operands_apply _ holds)]
      simp only [if_neg nonzero]
      exact combine_apply holds combined
  | _ => exact combine_apply holds combined

/-- An operator that cannot be carried out on the stack leaves the processor as it
is. -/
theorem operate_of_failed {operator : Operator} (holds : cpu.memory.Holds cpu.sp stack)
    (failed : Stack.operate operator stack = .error cause) :
    operate operator cpu = .error (.fault { cause }) cpu := by
  rcases Stack.operate_eq_error_iff.mp failed with
    ⟨few, rfl⟩ | ⟨⟨second, rest, rfl⟩, rfl, rfl⟩
  · cases operator with
    | div => rw [operate, divide, bind_of_error (operands_of_few _ holds few)]
    | _ => exact combine_of_few holds few
  · rw [operate, divide, bind_of_ok (operands_apply _ holds)]
    exact raise_of_writable .divisionByZero trivial cpu

theorem push_apply (holds : cpu.memory.Holds cpu.sp stack) (room : stack.length < origin)
    (fits : FitsValue value) :
    push value cpu = .ok () (((cpu.withTop (cpu.sp - 1) value).tell (.push value)).tell
      (.topOfStack (some value))) := by
  have below : cpu.memory.Holds (cpu.sp - 1 + 1) stack := by rwa [Int.sub_add_cancel]
  rw [push, bind_of_ok (pushValue_apply holds room fits)]
  exact emit_emitTop_apply _ (holds_withTop below room fits)

theorem push_of_full (holds : cpu.memory.Holds cpu.sp stack) (full : ¬ stack.length < origin) :
    push value cpu = .error (.fault { cause := .stackOverflow stack.length }) cpu := by
  rw [push, bind_of_error (pushValue_of_full holds full)]

theorem halt_apply (holds : cpu.memory.Holds cpu.sp stack) :
    halt cpu = .ok () ((({ cpu with status := .halted } : Cpu).tell .halt).tell
      (.topOfStack stack.head?)) := by
  have stopped : (modify fun cpu => { cpu with status := .halted } : Action Unit) cpu =
      .ok () { cpu with status := .halted } := rfl
  rw [halt, bind_of_ok stopped]
  exact emit_emitTop_apply _ holds

/-- What an instruction that succeeds makes of a processor: it leaves a stack and a
status, tells a line and the top of that stack, and changes no word but the one at
the new stack address, and none from the origin on. -/
structure Performed (before after : Cpu) (stack : List Int) (status : Status)
    (line : TraceLine) : Prop where
  holds : after.memory.Holds after.sp stack
  pc : after.pc = before.pc
  status_eq : after.status = status
  fault : after.fault = before.fault
  traced : after.traced = before.traced
  trace : after.trace =
    if before.traced then (before.trace.push line).push (.topOfStack stack.head?)
    else before.trace
  frame : ∀ address, address ≠ after.sp ∨ origin ≤ address →
    after.memory.readWord address = before.memory.readWord address

/-- A processor that settles on a stack and then tells what it did. -/
theorem performed_tell {memory : Memory} {sp : Int} {line : TraceLine}
    (holds : memory.Holds sp stack)
    (frame : ∀ address, address ≠ sp ∨ origin ≤ address →
      memory.readWord address = cpu.memory.readWord address) :
    Performed cpu ((({ cpu with memory, sp, status } : Cpu).tell line).tell
      (.topOfStack stack.head?)) stack status line where
  holds := by simpa only [tell_memory, tell_sp] using holds
  pc := by simp only [tell_pc]
  status_eq := by simp only [tell_status]
  fault := by simp only [tell_fault]
  traced := by simp only [tell_traced]
  trace := by
    by_cases traced : cpu.traced <;> simp [tell, traced]
  frame := by simpa only [tell_memory, tell_sp] using frame

/-- Storing a value on top of the rest of a stack touches no other word. -/
theorem withTop_frame {sp : Int} (holds : cpu.memory.Holds (sp + 1) rest)
    {address : Int} (outside : address ≠ sp ∨ origin ≤ address) :
    (cpu.memory.withValue sp value).readWord address = cpu.memory.readWord address := by
  have le := holds.sp_le
  exact Memory.readWord_withValue_of_ne _ _ (by omega)

/-- **Instructions that succeed.** What can be carried out on the stack is, by a
running processor. -/
theorem dispatch_of_performs (cpu : Cpu) {instruction : Instruction} {line : TraceLine}
    (running : cpu.status = .running) (holds : cpu.memory.Holds cpu.sp stack)
    (fits : ∀ value, instruction = .push value → FitsValue value)
    (performs : AbstractMachine.Performs stack instruction remaining status line) :
    ∃ after, dispatch instruction cpu = .ok () after ∧
      Performed cpu after remaining status line := by
  cases performs with
  | @push _ value room =>
      have below : cpu.memory.Holds (cpu.sp - 1 + 1) stack := by rwa [Int.sub_add_cancel]
      refine ⟨_, push_apply holds room (fits value rfl), ?_⟩
      rw [withTop, ← running]
      exact performed_tell (below.withValue room (fits value rfl))
        fun _ outside => withTop_frame below outside
  | halt =>
      exact ⟨_, halt_apply holds, performed_tell holds fun _ _ => rfl⟩
  | @operate operator top second result rest combined =>
      obtain ⟨below, room⟩ := holds.below_operands
      refine ⟨_, operate_apply holds combined, ?_⟩
      rw [withTop, ← running]
      exact performed_tell (below.withValue room (fitsValue_wrap result))
        fun _ outside => withTop_frame below outside

/-- **Instructions that fail.** What cannot be carried out on the stack faults and
changes nothing. -/
theorem dispatch_of_failed {instruction : Instruction} (holds : cpu.memory.Holds cpu.sp stack)
    (failed : AbstractMachine.perform stack instruction = .error cause) :
    dispatch instruction cpu = .error (.fault { cause }) cpu := by
  rcases instruction with value | (_ | operator) | payload
  · obtain ⟨full, rfl⟩ := Stack.push_eq_error_iff.mp (map_eq_error_iff.mp failed)
    exact push_of_full holds full
  · exact absurd failed (by simp [AbstractMachine.perform])
  · exact operate_of_failed holds (map_eq_error_iff.mp failed)
  · obtain rfl := Except.error.inj failed
    exact raise_of_writable (.reserved payload) trivial cpu

end Cpu

end ReversePolish
