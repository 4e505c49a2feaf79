import ReversePolish.Machine.Abstract
import ReversePolish.Proofs.Machine.WordStore
import ReversePolish.Proofs.Outcome

/-! # The machine that a program makes

A program that fits is placed word by word from the origin on
(`Machine.readWord_ofQuads`), in memory that is zero otherwise. A program is
refused only when its bytes do not make words or its words do not fit
(`Machine.load_of_unpack`).
-/

namespace ReversePolish

namespace Memory

@[simp] theorem quad_zero (address : Address) : zero.quad address = Quad.zero := by
  simp only [quad, byte, zero, Vector.getElem_replicate, Quad.zero]

/-- A word that is placed stands at its place; every other word stays. -/
theorem quad_place (memory : Memory) (first : Nat) (quads : List Quad) (address : Address) :
    (memory.place first quads).quad address =
      if first ≤ address then quads[address - first]?.getD (memory.quad address)
      else memory.quad address := by
  induction quads generalizing memory first with
  | nil => simp [place]
  | cons quad rest ih =>
      have address_lt := address.isLt
      by_cases inside : first < memorySize
      · rw [place, dif_pos inside, ih]
        rcases Nat.lt_trichotomy address first with before | here | later
        · have apart : (⟨first, inside⟩ : Address) ≠ address := by
            rw [Ne, Fin.ext_iff]
            simp only
            omega
          rw [if_neg (by omega), if_neg (by omega), quad_set_of_ne memory quad apart]
        · obtain rfl : (⟨first, inside⟩ : Address) = address := Fin.ext here.symm
          rw [if_neg (by simp only; omega), if_pos (by simp), quad_set_self]
          simp
        · have apart : (⟨first, inside⟩ : Address) ≠ address := by
            rw [Ne, Fin.ext_iff]
            simp only
            omega
          obtain ⟨gap, gap_eq⟩ : ∃ gap, address - first = gap + 1 := ⟨address - first - 1, by omega⟩
          rw [if_pos (by omega), if_pos (by omega), quad_set_of_ne memory quad apart, gap_eq,
            List.getElem?_cons_succ, show address - (first + 1) = gap by omega]
      · rw [place, dif_neg inside, if_neg (by omega)]

end Memory

namespace Machine

variable {image : Bytes} {machine : Machine} {quads : List Quad} {words : List Int} {address : Int}

/-- Below the origin memory is zero at first, and from the origin on it holds the
program. -/
theorem readWord_ofQuads (quads : List Quad) (nonneg : 0 ≤ address)
    (inside : address < memorySize) :
    (ofQuads quads).memory.readWord address =
      .ok (if origin ≤ address then programWord (quads.map Quad.toWord) address else 0) := by
  obtain ⟨place, rfl⟩ := exists_address nonneg inside
  rw [Memory.readWord_natCast, ofQuads, Memory.quad_place, Memory.quad_zero]
  by_cases code : origin ≤ place.val
  · have offset : ((place.val : Int) - origin).toNat = place.val - origin := by omega
    rw [if_pos code, if_pos (by omega), programWord, offset, List.getD_eq_getElem?_getD,
      List.getElem?_map]
    cases quads[place.val - origin]? <;> rfl
  · rw [if_neg code, if_neg (by omega)]
    rfl

/-- The machine of a program is known by the words of the program. -/
theorem load_eq_ok_iff :
    load image = .ok machine ↔
      ∃ quads, Bytecode.quads image = .ok quads ∧ origin + quads.length ≤ memorySize ∧
        machine = ofQuads quads := by
  rw [load, bind_eq_ok_iff]
  refine exists_congr fun quads => and_congr_right fun _ => ?_
  by_cases fits : origin + quads.length ≤ memorySize
  · simp [fits, pure, Except.pure, eq_comm]
  · simp [fits, throw, throwThe, MonadExceptOf.throw]

theorem unpack_of_quads (cut : Bytecode.quads image = .ok quads) :
    Bytecode.unpack image = .ok (quads.map Quad.toWord) :=
  map_eq_ok_iff.mpr ⟨quads, cut, rfl⟩

/-- What a machine looks like that a program has just made. -/
structure Loaded (words : List Int) (machine : Machine) : Prop where
  pc : machine.pc = origin
  sp : machine.sp = origin
  status : machine.status = .running
  fault : machine.fault = none
  length : origin + words.length ≤ memorySize
  code : ∀ address : Int, origin ≤ address → address < memorySize →
    machine.memory.readWord address = .ok (programWord words address)
  room : ∀ address : Int, 0 ≤ address → address < origin → machine.memory.readWord address = .ok 0

theorem loaded_ofQuads (fits : origin + quads.length ≤ memorySize) :
    Loaded (quads.map Quad.toWord) (ofQuads quads) where
  pc := rfl
  sp := rfl
  status := rfl
  fault := rfl
  length := by rwa [List.length_map]
  code address code inside := by
    rw [readWord_ofQuads quads (by omega) inside, if_pos code]
  room address nonneg below := by
    rw [readWord_ofQuads quads nonneg (by simp only [origin, memorySize] at *; omega),
      if_neg (by omega)]

/-- A program that is accepted has words, and its machine holds them. -/
theorem exists_loaded (accepted : load image = .ok machine) :
    ∃ words, Bytecode.unpack image = .ok words ∧ Loaded words machine := by
  obtain ⟨quads, cut, fits, rfl⟩ := load_eq_ok_iff.mp accepted
  exact ⟨_, unpack_of_quads cut, loaded_ofQuads fits⟩

/-- Bytes that make words are accepted exactly when the words fit. -/
theorem load_of_unpack (unpacked : Bytecode.unpack image = .ok words) :
    if origin + words.length ≤ memorySize then ∃ machine, load image = .ok machine
    else load image = .error (.tooManyWords words.length) := by
  obtain ⟨quads, cut, rfl⟩ := map_eq_ok_iff.mp unpacked
  rw [List.length_map]
  split
  · next fits => exact ⟨_, load_eq_ok_iff.mpr ⟨quads, cut, fits, rfl⟩⟩
  · next large =>
      rw [load, cut]
      exact if_neg large

end Machine

end ReversePolish
