import Mathlib.Data.String.Basic
import Std.Data.ExtHashMap

set_option autoImplicit false

/-!
# Keys of maps

Keys of hash maps are compared by decidable equality, alone, in lists, or as a key with a list of
keys. Texts are sorted by their linear order.
-/
namespace PProfessor.Keys

section
variable {κ : Type} [DecidableEq κ]

instance (priority := high) equivBEq : EquivBEq κ := inferInstance

instance (priority := high) lawfulHashable [Hashable κ] : LawfulHashable κ := inferInstance

instance (priority := high) equivBEqList : EquivBEq (List κ) := inferInstance

instance (priority := high) lawfulHashableList [Hashable κ] : LawfulHashable (List κ) :=
  inferInstance

instance (priority := high) equivBEqProdList : EquivBEq (κ × List κ) := inferInstance

instance (priority := high) lawfulHashableProdList [Hashable κ] : LawfulHashable (κ × List κ) :=
  inferInstance

end

instance (priority := high) isTransString : IsTrans String (· ≤ ·) := inferInstance

instance (priority := high) antisymmString : Std.Antisymm (α := String) (· ≤ ·) := inferInstance

instance (priority := high) totalString : Std.Total (α := String) (· ≤ ·) := inferInstance

end PProfessor.Keys
