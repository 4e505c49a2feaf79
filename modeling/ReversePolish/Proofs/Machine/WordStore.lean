import ReversePolish.Machine.Memory
import ReversePolish.Proofs.Word.Quad

/-! # Memory as a store of words

Addresses are integers, and an access outside memory fails. A value that fits is
stored by `Memory.withValue`: it is read back at its address
(`Memory.readValue_withValue_self`), and every other word stays
(`Memory.readWord_withValue_of_ne`). The signed reading of a word is its unsigned
reading, wrapped (`Memory.readValue_eq_map_readWord`), and memory is known by its words
(`Memory.eq_of_readWord`).
-/

namespace ReversePolish

/-- An integer inside memory is an address. -/
theorem exists_address {address : Int} (nonneg : 0 ≤ address) (inside : address < memorySize) :
    ∃ place : Address, address = (place.val : Int) :=
  ⟨⟨address.toNat, by omega⟩, by simp only; omega⟩

@[simp] theorem Address.ofInt_natCast (place : Address) :
    Address.ofInt (place.val : Int) = .ok place := by
  have inside := place.isLt
  rw [Address.ofInt, dif_pos ⟨by omega, by omega⟩]
  simp only [Int.toNat_natCast, Fin.eta]

theorem Address.eq_of_ofInt {address : Int} {place : Address}
    (found : Address.ofInt address = .ok place) : address = (place.val : Int) := by
  by_cases valid : 0 ≤ address ∧ address < memorySize
  · rw [Address.ofInt, dif_pos valid, Except.ok.injEq] at found
    subst found
    simp only
    omega
  · rw [Address.ofInt, dif_neg valid] at found
    exact absurd found (by simp)

namespace Memory

variable {memory : Memory} {address other word value : Int}

@[simp] theorem readWord_natCast (memory : Memory) (place : Address) :
    memory.readWord (place.val : Int) = .ok (memory.quad place).toWord := by
  rw [readWord, Address.ofInt_natCast]
  rfl

@[simp] theorem readValue_natCast (memory : Memory) (place : Address) :
    memory.readValue (place.val : Int) = .ok (memory.quad place).toValue := by
  rw [readValue, Address.ofInt_natCast]
  rfl

theorem readValue_eq_map_readWord (memory : Memory) (address : Int) :
    memory.readValue address = wrap <$> memory.readWord address := by
  rw [readValue, readWord]
  cases Address.ofInt address <;> rfl

/-- A word that is read stands at an address inside memory. -/
theorem exists_of_readWord (read : memory.readWord address = .ok word) :
    ∃ place : Address, address = (place.val : Int) ∧ word = (memory.quad place).toWord := by
  cases found : Address.ofInt address with
  | error error =>
      rw [readWord, found] at read
      exact absurd read (by simp [bind, Except.bind])
  | ok place =>
      obtain rfl := Address.eq_of_ofInt found
      rw [readWord_natCast, Except.ok.injEq] at read
      exact ⟨place, rfl, read.symm⟩

/-- A value that is read stands at an address inside memory. -/
theorem exists_of_readValue (read : memory.readValue address = .ok value) :
    ∃ place : Address, address = (place.val : Int) ∧ value = (memory.quad place).toValue := by
  cases found : memory.readWord address with
  | error error =>
      rw [readValue_eq_map_readWord, found] at read
      exact absurd read (by simp [Functor.map, Except.map])
  | ok word =>
      obtain ⟨place, rfl, -⟩ := exists_of_readWord found
      rw [readValue_natCast, Except.ok.injEq] at read
      exact ⟨place, rfl, read.symm⟩

theorem fits_of_readWord (read : memory.readWord address = .ok word) : Word.Fits word := by
  obtain ⟨place, -, rfl⟩ := exists_of_readWord read
  exact Quad.fits_toWord _

theorem fitsValue_of_readValue (read : memory.readValue address = .ok value) :
    FitsValue value := by
  obtain ⟨place, -, found⟩ := exists_of_readValue read
  rw [found]
  exact Quad.fitsValue_toValue _

/-- Reading fails only outside memory. -/
theorem exists_readWord (memory : Memory) (nonneg : 0 ≤ address)
    (inside : address < memorySize) : ∃ word, memory.readWord address = .ok word := by
  obtain ⟨place, rfl⟩ := exists_address nonneg inside
  exact ⟨_, readWord_natCast memory place⟩

theorem readWord_of_outside {memory : Memory} (outside : ¬ (0 ≤ address ∧ address < memorySize)) :
    memory.readWord address = .error (.noSuchAddress address) := by
  rw [readWord, Address.ofInt, dif_neg outside]
  rfl

/-- Exactly the addresses from zero up to the size of memory can be read. -/
theorem exists_readWord_iff {memory : Memory} :
    (∃ word, memory.readWord address = .ok word) ↔ 0 ≤ address ∧ address < memorySize := by
  constructor
  · intro found
    obtain ⟨word, read⟩ := found
    obtain ⟨place, rfl, -⟩ := exists_of_readWord read
    have := place.isLt
    omega
  · intro valid
    obtain ⟨nonneg, inside⟩ := valid
    exact exists_readWord memory nonneg inside

/-- Memory with a value stored at an address. A value that does not fit, or an
address outside memory, leaves it as it is. -/
def withValue (memory : Memory) (address value : Int) : Memory :=
  match memory.writeValue address value with
  | .ok after => after
  | .error _ => memory

theorem writeValue_natCast (memory : Memory) (place : Address) (fits : FitsValue value) :
    memory.writeValue (place.val : Int) value = .ok (memory.set place (Quad.ofValue value)) := by
  rw [writeValue, Address.ofInt_natCast, Quad.ofValue?_eq_some fits]
  rfl

theorem writeValue_eq_withValue (memory : Memory) (nonneg : 0 ≤ address)
    (inside : address < memorySize) (fits : FitsValue value) :
    memory.writeValue address value = .ok (memory.withValue address value) := by
  obtain ⟨place, rfl⟩ := exists_address nonneg inside
  rw [withValue, writeValue_natCast memory place fits]

theorem readValue_withValue_self (memory : Memory) (nonneg : 0 ≤ address)
    (inside : address < memorySize) (fits : FitsValue value) :
    (memory.withValue address value).readValue address = .ok value := by
  obtain ⟨place, rfl⟩ := exists_address nonneg inside
  rw [withValue, writeValue_natCast memory place fits]
  simp only [readValue_natCast, quad_set_self, Quad.toValue_ofValue fits]

/-- Storing a word changes no other. -/
theorem readWord_set_of_ne (memory : Memory) (place : Address) (quad : Quad)
    (different : other ≠ (place.val : Int)) :
    (memory.set place quad).readWord other = memory.readWord other := by
  cases found : Address.ofInt other with
  | error error =>
      rw [readWord, readWord, found]
      simp only [bind, Except.bind]
  | ok otherPlace =>
      obtain rfl := Address.eq_of_ofInt found
      have apart : place ≠ otherPlace := fun same => different (by rw [same])
      rw [readWord_natCast, readWord_natCast, quad_set_of_ne memory quad apart]

theorem readWord_withValue_of_ne (memory : Memory) (value : Int) (different : other ≠ address) :
    (memory.withValue address value).readWord other = memory.readWord other := by
  cases found : Address.ofInt address with
  | error error =>
      have failed : memory.writeValue address value = .error error := by
        rw [writeValue, found]
        rfl
      rw [withValue, failed]
  | ok place =>
      obtain rfl := Address.eq_of_ofInt found
      by_cases fits : FitsValue value
      · rw [withValue, writeValue_natCast memory place fits]
        exact readWord_set_of_ne memory place _ different
      · have failed : memory.writeValue (place.val : Int) value = .error (.valueTooWide value) := by
          rw [writeValue, Address.ofInt_natCast, Quad.ofValue?, if_neg fits]
          rfl
        rw [withValue, failed]

/-- Memories that have the same words are the same. -/
theorem eq_of_readWord {left right : Memory}
    (same : ∀ address, left.readWord address = right.readWord address) : left = right := by
  have quads (address : Address) : left.quad address = right.quad address := by
    have words := same address.val
    rw [readWord_natCast, readWord_natCast, Except.ok.injEq] at words
    exact Quad.toWord_injective words
  have bytes : left.bytes = right.bytes := by
    apply Vector.ext
    intro index inside
    have place : index % wordSize < wordSize := Nat.mod_lt _ (by decide)
    have address_lt : index / wordSize < memorySize := Nat.div_lt_of_lt_mul (by
      rwa [Nat.mul_comm])
    have whole : index / wordSize * wordSize + index % wordSize = index :=
      Nat.div_add_mod' index wordSize
    have same_bytes : left.byte ⟨index / wordSize, address_lt⟩ (index % wordSize) place =
        right.byte ⟨index / wordSize, address_lt⟩ (index % wordSize) place := by
      have fields := Quad.mk.inj (quads ⟨index / wordSize, address_lt⟩)
      generalize index % wordSize = offset at place ⊢
      match offset, place with
      | 0, _ => exact fields.1
      | 1, _ => exact fields.2.1
      | 2, _ => exact fields.2.2.1
      | 3, _ => exact fields.2.2.2
    simpa only [byte, whole] using same_bytes
  cases left
  cases right
  exact congrArg Memory.mk bytes

/-- Words that have the same signed reading are the same. -/
theorem readWord_eq_of_readValue {left right : Memory} {address value : Int}
    (left_read : left.readValue address = .ok value)
    (right_read : right.readValue address = .ok value) :
    left.readWord address = right.readWord address := by
  obtain ⟨place, rfl, -⟩ := exists_of_readValue left_read
  rw [readValue_natCast, Except.ok.injEq] at left_read right_read
  rw [readWord_natCast, readWord_natCast,
    Quad.toValue_injective (left_read.trans right_read.symm)]

end Memory

end ReversePolish
