import PProfessor.BigEndian

set_option autoImplicit false

/-!
# Integers in either byte order

Reading an integer undoes writing it in the same order. `cut` takes the bytes of a field out of
a buffer, and in a buffer that is several parts one after the other it takes the part.
-/
namespace PProfessor.ByteOrder
open BigEndian

inductive Order where
  | little
  | big
  deriving DecidableEq, Repr

namespace Order

def arrange : Order → List UInt8 → List UInt8
  | little, bytes => bytes.reverse
  | big, bytes => bytes

def write (order : Order) (width number : ℕ) : List UInt8 :=
  order.arrange (toBytes width number)

def read (order : Order) (bytes : List UInt8) : ℕ := value (order.arrange bytes)

theorem arrange_arrange (order : Order) (bytes : List UInt8) :
    order.arrange (order.arrange bytes) = bytes := by
  cases order with
  | little => exact List.reverse_reverse bytes
  | big => rfl

@[simp] theorem length_write (order : Order) (width number : ℕ) :
    (order.write width number).length = width := by
  cases order with
  | little => exact List.length_reverse.trans (length_toBytes width number)
  | big => exact length_toBytes width number

theorem read_write (order : Order) {width number : ℕ} (h : number < 256 ^ width) :
    order.read (order.write width number) = number := by
  rw [read, write, arrange_arrange, value_toBytes_of_lt h]

theorem write_read (order : Order) (bytes : List UInt8) :
    order.write bytes.length (order.read bytes) = bytes := by
  have hlength : (order.arrange bytes).length = bytes.length := by
    cases order with
    | little => exact List.length_reverse
    | big => rfl
  rw [write, read, ← hlength, toBytes_value, arrange_arrange]

theorem read_lt (order : Order) (bytes : List UInt8) : order.read bytes < 256 ^ bytes.length := by
  have hvalue : ∀ bytes : List UInt8, value bytes < 256 ^ bytes.length := by
    intro bytes
    induction bytes using List.reverseRecOn with
    | nil => exact Nat.one_pos
    | append_singleton bytes byte ih =>
      have hbyte := byte.toNat_lt
      have hlast : value (bytes ++ [byte]) = value bytes * 256 + byte.toNat := by
        rw [value, List.foldl_append]
        rfl
      rw [hlast, List.length_append, List.length_singleton, pow_succ]
      omega
  cases order with
  | little =>
    rw [← List.length_reverse]
    exact hvalue _
  | big => exact hvalue _

end Order

/-- `bytes[start..start + length]`. -/
def cut (bytes : List UInt8) (start length : ℕ) : List UInt8 := (bytes.drop start).take length

theorem length_cut {bytes : List UInt8} {start length : ℕ} (h : start + length ≤ bytes.length) :
    (cut bytes start length).length = length := by
  rw [cut, List.length_take, List.length_drop]
  omega

theorem cut_append_left {before after : List UInt8} {start length : ℕ}
    (h : start + length ≤ before.length) :
    cut (before ++ after) start length = cut before start length := by
  rw [cut, cut, List.drop_append_of_le_length (by omega), List.take_append_of_le_length]
  rw [List.length_drop]
  omega

theorem cut_append_right {before after : List UInt8} {start length : ℕ} :
    cut (before ++ after) (before.length + start) length = cut after start length := by
  rw [cut, cut, List.drop_append, List.drop_of_length_le (by omega), List.nil_append,
    Nat.add_sub_cancel_left]

theorem cut_self (bytes : List UInt8) : cut bytes 0 bytes.length = bytes := List.take_length

theorem cut_cut {bytes : List UInt8} {start length offset width : ℕ} (h : offset + width ≤ length) :
    cut (cut bytes start length) offset width = cut bytes (start + offset) width := by
  rw [cut, cut, cut, List.drop_take, List.take_take, List.drop_drop, min_eq_left (by omega)]

variable {α : Type} (encode : α → List UInt8) {width : ℕ} {xs : List α}

theorem length_flatMap (hwidth : ∀ x ∈ xs, (encode x).length = width) :
    (xs.flatMap encode).length = width * xs.length := by
  induction xs with
  | nil => rfl
  | cons x xs ih =>
    rw [List.flatMap_cons, List.length_append, hwidth x List.mem_cons_self,
      ih fun y hy => hwidth y (List.mem_cons_of_mem _ hy), List.length_cons, Nat.mul_succ,
      Nat.add_comm]

theorem cut_flatMap (hwidth : ∀ x ∈ xs, (encode x).length = width) (more : List UInt8) {i : ℕ}
    {x : α} (hx : xs[i]? = some x) :
    cut (xs.flatMap encode ++ more) (width * i) width = encode x := by
  induction xs generalizing i with
  | nil => cases hx
  | cons y ys ih =>
    have hy : (encode y).length = width := hwidth y List.mem_cons_self
    rw [List.flatMap_cons, List.append_assoc]
    cases i with
    | zero =>
      cases hx
      rw [Nat.mul_zero, cut_append_left (by rw [hy, Nat.zero_add]), ← hy]
      exact cut_self _
    | succ i =>
      rw [Nat.mul_succ, Nat.add_comm, ← hy, cut_append_right, hy]
      exact ih (fun z hz => hwidth z (List.mem_cons_of_mem _ hz)) hx

end PProfessor.ByteOrder
