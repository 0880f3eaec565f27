import Mathlib.Tactic

set_option autoImplicit false

/-!
# Bytes at addresses

A memory has a byte at some addresses. What has been stored is read back, a reading elsewhere is
not changed by it, and a reading that touches an address without a byte finds nothing.
-/
namespace PProfessor.ByteMemory

abbrev Memory := ℕ → Option UInt8

namespace Memory

/-- All of the bytes, or nothing. -/
def read (memory : Memory) : ℕ → ℕ → Option (List UInt8)
  | _, 0 => some []
  | address, length + 1 => do
    let byte ← memory address
    let bytes ← read memory (address + 1) length
    return byte :: bytes

def store (memory : Memory) (address : ℕ) (bytes : List UInt8) : Memory := fun place =>
  if address ≤ place ∧ place < address + bytes.length then bytes[place - address]?
  else memory place

theorem read_eq_some_iff {memory : Memory} {address length : ℕ} {bytes : List UInt8} :
    memory.read address length = some bytes ↔
      bytes.length = length ∧ ∀ i < length, memory (address + i) = bytes[i]? := by
  induction length generalizing address bytes with
  | zero =>
    rw [read, Option.some_inj]
    constructor
    · rintro rfl
      exact ⟨rfl, fun i hi => absurd hi (Nat.not_lt_zero i)⟩
    · exact fun h => (List.length_eq_zero_iff.mp h.1).symm
  | succ length ih =>
    simp only [read, bind, Option.bind_eq_some_iff, pure, Option.some_inj]
    constructor
    · rintro ⟨byte, hbyte, rest, hrest, rfl⟩
      obtain ⟨hlength, hat⟩ := ih.mp hrest
      refine ⟨by rw [List.length_cons, hlength], fun i hi => ?_⟩
      cases i with
      | zero => exact hbyte
      | succ i =>
        rw [List.getElem?_cons_succ, ← hat i (by omega), Nat.add_right_comm, Nat.add_assoc]
    · rintro ⟨hlength, hat⟩
      cases bytes with
      | nil => exact absurd hlength (by simp)
      | cons byte rest =>
        refine ⟨byte, hat 0 (Nat.succ_pos length), rest, ih.mpr ⟨by simpa using hlength, ?_⟩, rfl⟩
        intro i hi
        have hnext := hat (i + 1) (by omega)
        rw [List.getElem?_cons_succ] at hnext
        rw [← hnext, Nat.add_assoc, Nat.add_comm 1 i]

theorem length_of_read {memory : Memory} {address length : ℕ} {bytes : List UInt8}
    (h : memory.read address length = some bytes) : bytes.length = length :=
  (read_eq_some_iff.mp h).1

theorem read_congr {before after : Memory} {address length : ℕ}
    (h : ∀ i < length, before (address + i) = after (address + i)) :
    before.read address length = after.read address length := by
  refine Option.ext fun bytes => ?_
  rw [read_eq_some_iff, read_eq_some_iff]
  exact and_congr_right fun _ => forall₂_congr fun i hi => by rw [h i hi]

theorem read_store (memory : Memory) (address : ℕ) (bytes : List UInt8) :
    (memory.store address bytes).read address bytes.length = some bytes := by
  refine read_eq_some_iff.mpr ⟨rfl, fun i hi => ?_⟩
  rw [store, if_pos (by omega), Nat.add_sub_cancel_left]

theorem read_store_of_disjoint (memory : Memory) {address place length : ℕ} {bytes : List UInt8}
    (h : place + length ≤ address ∨ address + bytes.length ≤ place) :
    (memory.store address bytes).read place length = memory.read place length :=
  read_congr fun i hi => by rw [store, if_neg (by omega)]

end Memory

end PProfessor.ByteMemory
