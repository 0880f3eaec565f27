import Mathlib.Tactic

set_option autoImplicit false

/-!
# Checked and saturating machine arithmetic

The standard library's checked operations on 64-bit integers, each with the
equation over ℕ or ℤ that decides whether it succeeds.
-/
namespace PProfessor.CheckedArith

/-- `u64::checked_add`. -/
def addU64 (a b : UInt64) : Option UInt64 :=
  if a.toNat + b.toNat < 2 ^ 64 then some (a + b) else none

/-- `u64::checked_sub`. -/
def subU64 (a b : UInt64) : Option UInt64 := if b ≤ a then some (a - b) else none

/-- `u64::saturating_add`. -/
def saturatingAddU64 (a b : UInt64) : UInt64 :=
  (addU64 a b).getD 0xFFFFFFFFFFFFFFFF

/-- `u64::saturating_sub`. -/
def saturatingSubU64 (a b : UInt64) : UInt64 := if b ≤ a then a - b else 0

/-- `u64::saturating_mul`. -/
def saturatingMulU64 (a b : UInt64) : UInt64 :=
  if a.toNat * b.toNat < 2 ^ 64 then a * b else 0xFFFFFFFFFFFFFFFF

def InI64 (i : ℤ) : Prop := -2 ^ 63 ≤ i ∧ i < 2 ^ 63

instance (i : ℤ) : Decidable (InI64 i) := inferInstanceAs (Decidable (_ ∧ _))

/-- `i64::checked_add`. -/
def addI64 (a b : Int64) : Option Int64 :=
  if InI64 (a.toInt + b.toInt) then some (a + b) else none

/-- `i64::checked_sub`. -/
def subI64 (a b : Int64) : Option Int64 :=
  if InI64 (a.toInt - b.toInt) then some (a - b) else none

/-- `i64::checked_neg`. -/
def negI64 (a : Int64) : Option Int64 :=
  if InI64 (-a.toInt) then some (-a) else none

/-- `i64::saturating_mul`. -/
def saturatingMulI64 (a b : Int64) : Int64 :=
  if InI64 (a.toInt * b.toInt) then a * b
  else if 0 < a.toInt * b.toInt then 0x7FFFFFFFFFFFFFFF else -0x8000000000000000

theorem addU64_eq_some_iff (a b c : UInt64) :
    addU64 a b = some c ↔ c.toNat = a.toNat + b.toNat := by
  unfold addU64
  split_ifs with h
  · rw [Option.some.injEq, ← UInt64.toNat_inj, UInt64.toNat_add, Nat.mod_eq_of_lt h]
    exact eq_comm
  · have hc := c.toNat_lt
    constructor
    · intro hn
      cases hn
    · intro hn
      omega

/-- `Iterator::sum` of `u64`s, while it does not overflow. -/
def sumU64 (xs : List UInt64) : Option UInt64 := xs.foldlM addU64 0

theorem foldlM_addU64_eq_some_iff (xs : List UInt64) (init sum : UInt64) :
    xs.foldlM addU64 init = some sum ↔ sum.toNat = init.toNat + (xs.map UInt64.toNat).sum := by
  induction xs generalizing init with
  | nil =>
    rw [List.foldlM_nil, List.map_nil, List.sum_nil, add_zero, UInt64.toNat_inj]
    exact Option.some_inj.trans eq_comm
  | cons x xs ih =>
    rw [List.foldlM_cons, List.map_cons, List.sum_cons, ← add_assoc]
    change (addU64 init x).bind (fun s => xs.foldlM addU64 s) = some sum ↔ _
    rw [Option.bind_eq_some_iff]
    constructor
    · rintro ⟨next, hnext, hrest⟩
      rw [(ih next).mp hrest, (addU64_eq_some_iff init x next).mp hnext]
    · intro hsum
      have hlt := sum.toNat_lt
      have hnext : (init + x).toNat = init.toNat + x.toNat := by
        rw [UInt64.toNat_add, Nat.mod_eq_of_lt (by omega)]
      refine ⟨init + x, (addU64_eq_some_iff init x _).mpr hnext, (ih _).mpr ?_⟩
      rw [hnext, hsum]

theorem sumU64_eq_some_iff (xs : List UInt64) (sum : UInt64) :
    sumU64 xs = some sum ↔ sum.toNat = (xs.map UInt64.toNat).sum := by
  unfold sumU64
  rw [foldlM_addU64_eq_some_iff]
  change _ = 0 + _ ↔ _
  rw [zero_add]

theorem lt_saturatingAddU64_iff (a b c : UInt64) :
    c < saturatingAddU64 a b ↔ c.toNat < min (a.toNat + b.toNat) (2 ^ 64 - 1) := by
  unfold saturatingAddU64
  rw [UInt64.lt_iff_toNat_lt]
  cases h : addU64 a b with
  | some sum =>
    have hsum := (addU64_eq_some_iff a b sum).mp h
    have hlt := sum.toNat_lt
    rw [Option.getD_some, hsum, min_eq_left (by omega)]
  | none =>
    have hbig : ¬ a.toNat + b.toNat < 2 ^ 64 := by
      intro hlt
      rw [addU64, if_pos hlt] at h
      cases h
    rw [Option.getD_none, min_eq_right (by omega)]
    rfl

theorem saturatingMulU64_toNat (a b : UInt64) :
    (saturatingMulU64 a b).toNat = min (a.toNat * b.toNat) (2 ^ 64 - 1) := by
  unfold saturatingMulU64
  split_ifs with h
  · rw [UInt64.toNat_mul, Nat.mod_eq_of_lt h, min_eq_left (Nat.le_sub_one_of_lt h)]
  · rw [min_eq_right (by omega)]
    rfl

theorem toInt_inI64 (a : Int64) : InI64 a.toInt := ⟨a.le_toInt, a.toInt_lt⟩

theorem bmod_eq_self {i : ℤ} (h : InI64 i) : i.bmod (2 ^ 64) = i := by
  obtain ⟨hl, hu⟩ := h
  apply Int.bmod_eq_of_le
  · norm_num
    omega
  · norm_num
    omega

/-- A checked operation that agrees with its mathematical result modulo 2^64
succeeds exactly when that result is an `i64`. -/
theorem checked_eq_some_iff {i : ℤ} {r : Int64} (hr : r.toInt = i.bmod (2 ^ 64)) (c : Int64) :
    (if InI64 i then some r else none) = some c ↔ c.toInt = i := by
  split_ifs with h
  · rw [Option.some.injEq, ← Int64.toInt_inj, hr, bmod_eq_self h]
    exact eq_comm
  · constructor
    · intro hn
      cases hn
    · rintro rfl
      exact absurd (toInt_inI64 c) h

theorem addI64_eq_some_iff (a b c : Int64) :
    addI64 a b = some c ↔ c.toInt = a.toInt + b.toInt :=
  checked_eq_some_iff (Int64.toInt_add a b) c

theorem subI64_eq_some_iff (a b c : Int64) :
    subI64 a b = some c ↔ c.toInt = a.toInt - b.toInt :=
  checked_eq_some_iff (Int64.toInt_sub a b) c

theorem negI64_eq_some_iff (a c : Int64) : negI64 a = some c ↔ c.toInt = -a.toInt :=
  checked_eq_some_iff (Int64.toInt_neg a) c

theorem saturatingMulI64_toInt {a b : Int64} (h : InI64 (a.toInt * b.toInt)) :
    (saturatingMulI64 a b).toInt = a.toInt * b.toInt := by
  rw [saturatingMulI64, if_pos h, Int64.toInt_mul, bmod_eq_self h]

end PProfessor.CheckedArith
