import Mathlib.Tactic.ByContra
import ReversePolish.Proofs.Outcome
import ReversePolish.Proofs.Machine.WordStore

/-! # The stack as a region of memory

The stack of a machine stands in memory from the stack address up to the origin,
its top first. `Memory.valuesFrom` reads that region, and `Memory.Holds` says that
it holds a given stack. A stack address from zero to the origin always names a
stack (`Memory.exists_holds`), of as many values as there are words up to the
origin (`Memory.Holds.sp_eq`), and nothing below the stack address matters to it
(`Memory.Holds.congr`).
-/

namespace ReversePolish

/-- Addresses one after another. -/
def consecutive (first : Int) (count : Nat) : List Int :=
  (List.range count).map fun (place : Nat) => first + place

theorem consecutive_succ (first : Int) (count : Nat) :
    consecutive first (count + 1) = first :: consecutive (first + 1) count := by
  rw [consecutive, List.range_succ_eq_map, List.map_cons, List.map_map, consecutive]
  congr 1
  · exact Int.add_zero first
  · apply List.map_congr_left
    intro place _
    simp only [Function.comp_apply]
    omega

/-- The addresses of a stack whose top is at `sp`. -/
def stackAddresses (sp : Int) : List Int :=
  (List.range (origin - sp).toNat).map fun (place : Nat) => sp + place

theorem stackAddresses_of_origin_le {sp : Int} (empty : origin ≤ sp) : stackAddresses sp = [] := by
  have none : ((origin : Int) - sp).toNat = 0 := by omega
  rw [stackAddresses, none]
  rfl

theorem stackAddresses_of_lt_origin {sp : Int} (some : sp < origin) :
    stackAddresses sp = sp :: stackAddresses (sp + 1) := by
  have more : ((origin : Int) - sp).toNat = ((origin : Int) - (sp + 1)).toNat + 1 := by omega
  rw [stackAddresses, more]
  exact consecutive_succ sp _

namespace Memory

/-- The values that stand in memory from an address up to the origin. -/
def valuesFrom (memory : Memory) (sp : Int) : Except StorageError (List Int) :=
  (stackAddresses sp).mapM memory.readValue

/-- The words from an address up to the origin hold the values of a stack, its top
first. -/
structure Holds (memory : Memory) (sp : Int) (stack : List Int) : Prop where
  sp_le : sp ≤ origin
  values : memory.valuesFrom sp = .ok stack

variable {memory after : Memory} {sp value : Int} {stack rest : List Int}

theorem holds_nil_iff : memory.Holds sp [] ↔ sp = origin := by
  constructor
  · intro holds
    obtain ⟨le, values⟩ := holds
    by_contra different
    rw [valuesFrom, stackAddresses_of_lt_origin (by omega), mapM_cons_eq_ok_iff] at values
    obtain ⟨value, rest, -, -, nonempty⟩ := values
    exact absurd nonempty (by simp)
  · rintro rfl
    refine ⟨Int.le_refl _, ?_⟩
    rw [valuesFrom, stackAddresses_of_origin_le (Int.le_refl _)]
    rfl

theorem holds_cons_iff :
    memory.Holds sp (value :: rest) ↔
      memory.readValue sp = .ok value ∧ memory.Holds (sp + 1) rest := by
  constructor
  · intro holds
    obtain ⟨le, values⟩ := holds
    have some : sp < origin := by
      by_contra empty
      rw [valuesFrom, stackAddresses_of_origin_le (by omega)] at values
      exact absurd (Except.ok.inj values) (by simp)
    rw [valuesFrom, stackAddresses_of_lt_origin some, mapM_cons_eq_ok_iff] at values
    obtain ⟨first, others, found, more, same⟩ := values
    obtain ⟨rfl, rfl⟩ := List.cons.inj same
    exact ⟨found, by omega, more⟩
  · intro parts
    obtain ⟨found, le, others⟩ := parts
    refine ⟨by omega, ?_⟩
    rw [valuesFrom, stackAddresses_of_lt_origin (by omega), mapM_cons_eq_ok_iff]
    exact ⟨value, rest, found, others, rfl⟩

namespace Holds

/-- The stack address tells the number of values. -/
theorem sp_eq (holds : memory.Holds sp stack) : sp = origin - stack.length := by
  induction stack generalizing sp with
  | nil =>
      rw [holds_nil_iff] at holds
      simp [holds]
  | cons value rest ih =>
      have rest_eq := ih (holds_cons_iff.mp holds).2
      rw [List.length_cons]
      omega

theorem sp_nonneg (holds : memory.Holds sp stack) : 0 ≤ sp := by
  cases stack with
  | nil =>
      rw [holds_nil_iff] at holds
      omega
  | cons value rest =>
      obtain ⟨place, rfl, -⟩ := exists_of_readValue (holds_cons_iff.mp holds).1
      omega

/-- A stack never holds more values than there are words below the origin. -/
theorem length_le (holds : memory.Holds sp stack) : stack.length ≤ origin := by
  have eq := holds.sp_eq
  have nonneg := holds.sp_nonneg
  omega

/-- Below two operands is a stack that has room for their result. -/
theorem below_operands {top second : Int} (holds : memory.Holds sp (top :: second :: rest)) :
    memory.Holds (sp + 1 + 1) rest ∧ rest.length < origin := by
  have length_le := holds.length_le
  rw [List.length_cons, List.length_cons] at length_le
  obtain ⟨-, others⟩ := holds_cons_iff.mp holds
  obtain ⟨-, remaining⟩ := holds_cons_iff.mp others
  exact ⟨remaining, by omega⟩

/-- Every value on a stack is a signed value of four bytes. -/
theorem fitsValue (holds : memory.Holds sp stack) {value : Int} (member : value ∈ stack) :
    FitsValue value := by
  induction stack generalizing sp with
  | nil => exact absurd member (by simp)
  | cons first rest ih =>
      obtain ⟨found, others⟩ := holds_cons_iff.mp holds
      rcases List.mem_cons.mp member with rfl | later
      · exact fitsValue_of_readValue found
      · exact ih others later

/-- Only the words from the stack address up matter to a stack. -/
theorem congr (holds : memory.Holds sp stack)
    (same : ∀ address, sp ≤ address → after.readWord address = memory.readWord address) :
    after.Holds sp stack := by
  induction stack generalizing sp with
  | nil => exact holds_nil_iff.mpr (holds_nil_iff.mp holds)
  | cons value rest ih =>
      obtain ⟨found, others⟩ := holds_cons_iff.mp holds
      refine holds_cons_iff.mpr ⟨?_, ih others fun address le => same address (by omega)⟩
      rw [readValue_eq_map_readWord, same sp (Int.le_refl _), ← readValue_eq_map_readWord, found]

/-- A value stored right below a stack is on top of it. -/
theorem withValue (holds : memory.Holds (sp + 1) rest) (room : rest.length < origin)
    (fits : FitsValue value) : (memory.withValue sp value).Holds sp (value :: rest) := by
  have eq := holds.sp_eq
  refine holds_cons_iff.mpr ⟨?_, ?_⟩
  · apply readValue_withValue_self memory _ _ fits
    · omega
    · simp only [origin, memorySize] at *
      omega
  · refine holds.congr fun address le => ?_
    exact readWord_withValue_of_ne memory value (by omega)

end Holds

/-- Every stack address from zero to the origin names a stack. -/
theorem exists_holds (memory : Memory) (nonneg : 0 ≤ sp) (le : sp ≤ origin) :
    ∃ stack, memory.Holds sp stack := by
  obtain ⟨depth, eq⟩ : ∃ depth : Nat, (origin : Int) - sp = depth := ⟨(origin - sp).toNat, by omega⟩
  induction depth generalizing sp with
  | zero => exact ⟨[], holds_nil_iff.mpr (by omega)⟩
  | succ depth ih =>
      obtain ⟨rest, others⟩ : ∃ rest, memory.Holds (sp + 1) rest :=
        ih (by omega) (by omega) (by omega)
      obtain ⟨place, rfl⟩ := exists_address nonneg (by simp only [origin, memorySize] at *; omega)
      exact ⟨_, holds_cons_iff.mpr ⟨readValue_natCast memory place, others⟩⟩

end Memory

end ReversePolish
