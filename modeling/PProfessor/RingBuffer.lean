import Mathlib.Tactic

set_option autoImplicit false

/-!
# A ring of cells

Positions count upwards for ever, and a position stands in the cell of its remainder. A stretch
of cells holds a list at a position; storing behind it lengthens the list, as long as the ring
has room for all of it.
-/
namespace PProfessor.RingBuffer

variable {α : Type}

def store (cells : List α) (position : ℕ) : List α → List α
  | [] => cells
  | x :: xs => store (cells.set (position % cells.length) x) (position + 1) xs

def Holds (cells : List α) (position : ℕ) (xs : List α) : Prop :=
  ∀ i, i < xs.length → cells[(position + i) % cells.length]? = xs[i]?

@[simp] theorem length_store (cells : List α) (position : ℕ) (xs : List α) :
    (store cells position xs).length = cells.length := by
  induction xs generalizing cells position with
  | nil => rfl
  | cons x xs ih => rw [store, ih, List.length_set]

theorem holds_nil (cells : List α) (position : ℕ) : Holds cells position [] :=
  fun _ hi => absurd hi (Nat.not_lt_zero _)

theorem Holds.left {cells xs ys : List α} {position : ℕ} (h : Holds cells position (xs ++ ys)) :
    Holds cells position xs := by
  intro i hi
  rw [h i (by rw [List.length_append]; omega), List.getElem?_append_left hi]

theorem Holds.right {cells xs ys : List α} {position : ℕ} (h : Holds cells position (xs ++ ys)) :
    Holds cells (position + xs.length) ys := by
  intro i hi
  rw [Nat.add_assoc, h (xs.length + i) (by rw [List.length_append]; omega),
    List.getElem?_append_right (Nat.le_add_right _ _), Nat.add_sub_cancel_left]

theorem cell_ne {position i j n : ℕ} (hij : i < j) (hj : j < n) :
    (position + i) % n ≠ (position + j) % n := by
  intro h
  have hdvd : n ∣ j - i := by
    have hmod := (Nat.modEq_iff_dvd' (Nat.add_le_add_left hij.le position)).mp h
    rwa [Nat.add_sub_add_left] at hmod
  have hle := Nat.le_of_dvd (by omega) hdvd
  omega

theorem Holds.set {cells xs : List α} {position : ℕ} (h : Holds cells position xs)
    (hroom : xs.length < cells.length) (x : α) :
    Holds (cells.set ((position + xs.length) % cells.length) x) position (xs ++ [x]) := by
  intro i hi
  rw [List.length_append, List.length_singleton] at hi
  rw [List.length_set]
  rcases Nat.lt_succ_iff_lt_or_eq.mp hi with hlt | rfl
  · rw [List.getElem?_append_left hlt, ← h i hlt, List.getElem?_set_ne]
    exact (cell_ne hlt hroom).symm
  · rw [List.getElem?_concat_length, List.getElem?_set_self]
    exact Nat.mod_lt _ (by omega)

theorem Holds.store {cells xs ys : List α} {position : ℕ} (h : Holds cells position xs)
    (hroom : xs.length + ys.length ≤ cells.length) :
    Holds (store cells (position + xs.length) ys) position (xs ++ ys) := by
  induction ys generalizing cells xs with
  | nil =>
    rw [List.append_nil]
    exact h
  | cons y ys ih =>
    rw [List.length_cons] at hroom
    have hnext := ih (h.set (by omega) y)
    rw [List.length_append, List.length_singleton, List.length_set, List.append_assoc] at hnext
    exact hnext (by omega)

theorem Holds.straight {cells xs : List α} {position : ℕ} (h : Holds cells position xs)
    (hfits : position % cells.length + xs.length ≤ cells.length) :
    (cells.drop (position % cells.length)).take xs.length = xs := by
  refine List.ext_getElem? fun i => ?_
  by_cases hi : i < xs.length
  · have hcell : (position + i) % cells.length = position % cells.length + i := by
      have hsmall : i % cells.length = i := Nat.mod_eq_of_lt (by omega)
      rw [Nat.add_mod, hsmall, Nat.mod_eq_of_lt (by omega)]
    rw [List.getElem?_take_of_lt hi, List.getElem?_drop, ← h i hi, hcell]
  · have hlength : ((cells.drop (position % cells.length)).take xs.length).length = xs.length := by
      rw [List.length_take, List.length_drop]
      omega
    rw [List.getElem?_eq_none (by omega), List.getElem?_eq_none (by omega)]

theorem Holds.around {cells xs ys : List α} {position : ℕ} (h : Holds cells position (xs ++ ys))
    (hxs : position % cells.length + xs.length = cells.length) (hys : ys.length ≤ cells.length) :
    cells.take ys.length = ys := by
  have hstart : (position + xs.length) % cells.length = 0 := by
    have hsplit := Nat.div_add_mod position cells.length
    refine Nat.mod_eq_zero_of_dvd ⟨position / cells.length + 1, ?_⟩
    rw [Nat.mul_succ]
    omega
  have hright := h.right.straight (by omega)
  rwa [hstart, List.drop_zero] at hright

end PProfessor.RingBuffer
