import Mathlib.Tactic

set_option autoImplicit false

/-!
# Big-endian integers

The bytes of a number, most significant first, and two ways of reading them
back: by value, and by shifting each byte into a machine word.
-/
namespace PProfessor.BigEndian

/-- The last `width` base-256 digits of a number, most significant first. -/
def toBytes : ℕ → ℕ → List UInt8
  | 0, _ => []
  | width + 1, value => UInt8.ofNat (value / 256 ^ width) :: toBytes width value

def value (bytes : List UInt8) : ℕ :=
  bytes.foldl (fun total byte => total * 256 + byte.toNat) 0

/-- Each byte is shifted into a word of `width` bits. -/
def shiftIn (width : ℕ) (bytes : List UInt8) : BitVec width :=
  bytes.foldl (fun word byte => word <<< 8 ||| byte.toBitVec.setWidth width) 0

@[simp] theorem length_toBytes (width number : ℕ) : (toBytes width number).length = width := by
  induction width with
  | zero => rfl
  | succ width ih => rw [toBytes, List.length_cons, ih]

theorem foldl_toBytes (width number total : ℕ) :
    (toBytes width number).foldl (fun total byte => total * 256 + byte.toNat) total =
      total * 256 ^ width + number % 256 ^ width := by
  induction width generalizing total with
  | zero => simp [toBytes, Nat.mod_one]
  | succ width ih =>
    have hdigit : (UInt8.ofNat (number / 256 ^ width)).toNat = number / 256 ^ width % 256 := by
      simp
    have hsplit : number % 256 ^ (width + 1) =
        number % 256 ^ width + 256 ^ width * (number / 256 ^ width % 256) := by
      rw [pow_succ, Nat.mod_mul]
    rw [toBytes, List.foldl_cons, ih, hdigit, hsplit]
    ring

theorem value_toBytes (width number : ℕ) :
    value (toBytes width number) = number % 256 ^ width := by
  rw [value, foldl_toBytes, Nat.zero_mul, Nat.zero_add]

theorem value_toBytes_of_lt {width number : ℕ} (h : number < 256 ^ width) :
    value (toBytes width number) = number := by
  rw [value_toBytes, Nat.mod_eq_of_lt h]

theorem toBytes_succ (width number : ℕ) :
    toBytes (width + 1) number = toBytes width (number / 256) ++ [UInt8.ofNat number] := by
  induction width with
  | zero => rw [toBytes, toBytes, toBytes, pow_zero, Nat.div_one, List.nil_append]
  | succ width ih =>
    rw [toBytes, ih, toBytes, List.cons_append, Nat.div_div_eq_div_mul, ← pow_succ']

theorem toBytes_value (bytes : List UInt8) : toBytes bytes.length (value bytes) = bytes := by
  induction bytes using List.reverseRecOn with
  | nil => rfl
  | append_singleton bytes byte ih =>
    have hbyte := byte.toNat_lt
    have hlast : value (bytes ++ [byte]) = value bytes * 256 + byte.toNat := by
      rw [value, List.foldl_append]
      rfl
    have hdigit : UInt8.ofNat (value bytes * 256 + byte.toNat) = byte := by
      refine UInt8.toNat_inj.mp ?_
      rw [UInt8.toNat_ofNat']
      omega
    have hrest : (value bytes * 256 + byte.toNat) / 256 = value bytes := by omega
    rw [List.length_append, List.length_singleton, toBytes_succ, hlast, hdigit, hrest, ih]

theorem toNat_shift_or (width : ℕ) (word : BitVec width) (byte : UInt8) :
    (word <<< 8 ||| byte.toBitVec.setWidth width).toNat =
      (word.toNat * 256 + byte.toNat) % 2 ^ width := by
  have hbyte : byte.toNat < 2 ^ 8 := byte.toNat_lt
  have hor : word.toNat <<< 8 ||| byte.toNat = word.toNat * 256 + byte.toNat := by
    rw [← Nat.shiftLeft_add_eq_or_of_lt hbyte, Nat.shiftLeft_eq]
  rw [BitVec.toNat_or, BitVec.toNat_shiftLeft, BitVec.toNat_setWidth, ← hor, Nat.or_mod_two_pow]
  rfl

theorem toNat_shiftIn (width : ℕ) (bytes : List UInt8) :
    (shiftIn width bytes).toNat = value bytes % 2 ^ width := by
  induction bytes using List.reverseRecOn with
  | nil => simp [shiftIn, value]
  | append_singleton bytes byte ih =>
    have hword : shiftIn width (bytes ++ [byte]) =
        shiftIn width bytes <<< 8 ||| byte.toBitVec.setWidth width := by
      rw [shiftIn, List.foldl_append]
      rfl
    have hvalue : value (bytes ++ [byte]) = value bytes * 256 + byte.toNat := by
      rw [value, List.foldl_append]
      rfl
    rw [hword, toNat_shift_or, ih, hvalue, Nat.add_mod, Nat.mod_mul_mod, ← Nat.add_mod]

end PProfessor.BigEndian
