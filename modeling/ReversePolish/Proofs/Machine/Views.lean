import ReversePolish.Machine.View
import ReversePolish.Proofs.Machine.Load
import ReversePolish.Proofs.Machine.Operations

/-! # The laws of memory in both views

A number that fits a view is stored in the four bytes that spell it in two's complement, so
that what is read there afterwards is this number, and in the other view the one that agrees
with it modulo `wordRange` (`View.ofQuad_ofValue`). Every other word stays as it is, and a number
that does not fit is refused before a byte has changed (`Cpu.store_laws`).
-/

namespace ReversePolish

namespace View

variable {view : View} {number : Int} {quad : Quad}

/-- The numbers that four bytes can be seen as. -/
def Fits : View → Int → Prop
  | word => Word.Fits
  | value => FitsValue

instance : (view : View) → (number : Int) → Decidable (view.Fits number)
  | word, number => inferInstanceAs (Decidable (Word.Fits number))
  | value, number => inferInstanceAs (Decidable (FitsValue number))

/-- The number that fits a view and agrees with the given one modulo `wordRange`. -/
def reading : View → Int → Int
  | word, number => number % wordRange
  | value, number => wrap number

/-- The number that four bytes are seen as. -/
def ofQuad : View → Quad → Int
  | word => Quad.toWord
  | value => Quad.toValue

/-- How a number that does not fit is refused. -/
def refusal : View → Int → StorageError
  | word => .wordTooWide
  | value => .valueTooWide

theorem reading_of_fits (fits : view.Fits number) : view.reading number = number := by
  cases view with
  | word =>
      obtain ⟨nonneg, le⟩ := fits
      exact Int.emod_eq_of_lt nonneg (Int.lt_of_le_of_lt le (by decide))
  | value => exact wrap_of_fitsValue fits

theorem fits_ofQuad (view : View) (quad : Quad) : view.Fits (view.ofQuad quad) := by
  cases view with
  | word => exact quad.fits_toWord
  | value => exact quad.fitsValue_toValue

theorem ofQuad_injective {other : Quad} (same : view.ofQuad quad = view.ofQuad other) :
    quad = other := by
  cases view with
  | word => exact Quad.toWord_injective same
  | value => exact Quad.toValue_injective same

/-- The bytes of a number in two's complement are seen as what each view makes of it. -/
theorem ofQuad_ofValue (view : View) (number : Int) :
    view.ofQuad (Quad.ofValue number) = view.reading number := by
  cases view with
  | word =>
      simp only [ofQuad, reading, Quad.toWord, Quad.ofValue, Quad.toNat_ofNat, wordRange]
      omega
  | value =>
      simp only [ofQuad, reading, Quad.toValue, Quad.ofValue, Quad.toNat_ofNat, wrap,
        Int.bmod_def, wordRange]
      omega

/-- Four bytes spell the number that they are seen as. -/
theorem ofValue_ofQuad (view : View) (quad : Quad) : Quad.ofValue (view.ofQuad quad) = quad := by
  apply @ofQuad_injective view
  rw [ofQuad_ofValue, reading_of_fits (view.fits_ofQuad quad)]

end View

namespace Memory

variable {memory : Memory} {view : View} {place : Address} {number : Int}

theorem read_natCast (memory : Memory) (view : View) (place : Address) :
    memory.read view (place.val : Int) = .ok (view.ofQuad (memory.quad place)) := by
  cases view with
  | word => exact readWord_natCast memory place
  | value => exact readValue_natCast memory place

theorem write_of_fits (memory : Memory) (place : Address) (fits : view.Fits number) :
    memory.write view (place.val : Int) number = .ok (memory.set place (Quad.ofValue number)) := by
  cases view with
  | word =>
      rw [write, writeWord, Address.ofInt_natCast, Quad.ofWord?_eq_some fits]
      rfl
  | value => exact writeValue_natCast memory place fits

theorem write_of_not_fits (memory : Memory) (place : Address) (unfit : ¬ view.Fits number) :
    memory.write view (place.val : Int) number = .error (view.refusal number) := by
  cases view with
  | word =>
      have refused : Quad.ofWord? number = none := if_neg unfit
      rw [write, writeWord, Address.ofInt_natCast, refused]
      rfl
  | value =>
      have refused : Quad.ofValue? number = none := if_neg unfit
      rw [write, writeValue, Address.ofInt_natCast, refused]
      rfl

/-- Bytes that are put where they stand change nothing. -/
theorem set_quad (memory : Memory) (place : Address) :
    memory.set place (memory.quad place) = memory := by
  apply eq_of_readWord
  intro address
  by_cases here : address = place.val
  · rw [here, readWord_natCast, readWord_natCast, quad_set_self]
  · exact readWord_set_of_ne memory place _ here

/-- Memory with a number stored at an address, and as it was at any other. -/
structure Stored (memory : Memory) (view : View) (place : Address) (number : Int)
    (after : Memory) : Prop where
  same : after.read view place.val = .ok number
  seen : ∀ other : View, after.read other place.val = .ok (other.reading number)
  others : ∀ (other : View) (address : Int), address ≠ place.val →
    after.read other address = memory.read other address
  size : ∀ (other : View) (address : Int),
    (∃ found, after.read other address = .ok found) ↔ 0 ≤ address ∧ address < memorySize

theorem read_congr {after : Memory} {address : Int}
    (same : after.readWord address = memory.readWord address) (view : View) :
    after.read view address = memory.read view address := by
  cases view with
  | word => exact same
  | value =>
      rw [read, read, readValue_eq_map_readWord, readValue_eq_map_readWord, same]

/-- Exactly the addresses inside memory can be read, in either view. -/
theorem exists_read_iff {address : Int} :
    (∃ found, memory.read view address = .ok found) ↔ 0 ≤ address ∧ address < memorySize := by
  cases view with
  | word => exact exists_readWord_iff
  | value =>
      rw [read, readValue_eq_map_readWord, ← @exists_readWord_iff address memory]
      cases memory.readWord address <;> simp [Functor.map, Except.map]

theorem stored_set (memory : Memory) (place : Address) (fits : view.Fits number) :
    memory.Stored view place number (memory.set place (Quad.ofValue number)) where
  same := by
    rw [read_natCast, quad_set_self, View.ofQuad_ofValue, View.reading_of_fits fits]
  seen other := by rw [read_natCast, quad_set_self, View.ofQuad_ofValue]
  others other address different := read_congr (readWord_set_of_ne memory place _ different) other
  size other address := exists_read_iff

end Memory

namespace Cpu

theorem store_of_write {cpu : Cpu} {view : View} {address number : Int} {after : Memory}
    (written : cpu.memory.write view address number = .ok after) :
    store view address number cpu = .ok () { cpu with memory := after } := by
  rw [store, bind_of_ok (get_apply cpu), written]
  rfl

/-- **Memory is a store of words in both views.** A number that fits a view is stored at an
address: it is read there in this view, and in each view what that makes of it; at every other
address nothing changes, and no address is added or lost. Storing what is read there already
changes nothing at all, and neither does a number that does not fit, which is refused. -/
theorem store_laws (cpu : Cpu) (view : View) (place : Address) :
    (∀ number, view.Fits number → ∃ after,
      store view place.val number cpu = .ok () { cpu with memory := after } ∧
        cpu.memory.Stored view place number after) ∧
    (∀ number, cpu.memory.read view place.val = .ok number →
      store view place.val number cpu = .ok () cpu) ∧
    ∀ number, ¬ view.Fits number →
      store view place.val number cpu = .error (.storage (view.refusal number)) cpu := by
  refine ⟨fun number fits => ?_, fun number found => ?_, fun number unfit => ?_⟩
  · exact ⟨_, store_of_write (cpu.memory.write_of_fits place fits),
      cpu.memory.stored_set place fits⟩
  · rw [Memory.read_natCast, Except.ok.injEq] at found
    subst found
    have written := cpu.memory.write_of_fits place (view.fits_ofQuad (cpu.memory.quad place))
    rw [View.ofValue_ofQuad, Memory.set_quad] at written
    exact store_of_write written
  · rw [store, bind_of_ok (get_apply cpu), cpu.memory.write_of_not_fits place unfit]
    rfl

/-- The value minus one is the largest word, and one more than the largest value is refused. -/
theorem store_laws_of_extremes :
    (∃ after,
      store .value 99 (-1) ({ } : Cpu) = .ok () { memory := after } ∧
        after.read .value 99 = .ok (-1) ∧ after.read .word 99 = .ok 0xffffffff ∧
        after.read .word 100 = .ok 0) ∧
    store .value 99 0 ({ } : Cpu) = .ok () ({ } : Cpu) ∧
    store .value 99 0x80000000 ({ } : Cpu) =
      .error (.storage (.valueTooWide 0x80000000)) ({ } : Cpu) := by
  obtain ⟨stores, writesBack, refuses⟩ := store_laws ({ } : Cpu) .value ⟨99, by decide⟩
  have zero (view : View) (place : Address) :
      Memory.zero.read view place.val = .ok (view.ofQuad .zero) := by
    rw [Memory.read_natCast, Memory.quad_zero]
  have value : View.value.ofQuad .zero = 0 := by decide
  have before : Memory.zero.read .value 99 = .ok 0 := value ▸ zero .value ⟨99, by decide⟩
  refine ⟨?_, writesBack 0 before, refuses 0x80000000 (by decide)⟩
  obtain ⟨after, stored, holds⟩ := stores (-1) (by decide)
  have apart := holds.others .word 100 (by decide)
  exact ⟨after, stored, holds.same, holds.seen .word, apart.trans (zero .word ⟨100, by decide⟩)⟩

end Cpu

end ReversePolish
