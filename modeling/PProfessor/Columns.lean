import Mathlib.Tactic

set_option autoImplicit false

/-!
# Rows of 64-bit values

The columns of a row, read as integers; a row that is too short has zeros there.
-/
namespace PProfessor.Columns

/-- Column `j` of a row of values, zero where the row is too short. -/
def cell (values : List Int64) (j : ℕ) : ℤ := (values[j]?.map Int64.toInt).getD 0

@[simp] theorem cell_nil (j : ℕ) : cell [] j = 0 := rfl

@[simp] theorem cell_cons_zero (v : Int64) (vs : List Int64) : cell (v :: vs) 0 = v.toInt := rfl

@[simp] theorem cell_cons_succ (v : Int64) (vs : List Int64) (j : ℕ) :
    cell (v :: vs) (j + 1) = cell vs j := rfl

theorem cell_of_length_le {values : List Int64} {j : ℕ} (h : values.length ≤ j) :
    cell values j = 0 := by
  simp [cell, List.getElem?_eq_none h]

theorem cell_of_zeros {values : List Int64} (h : ∀ v ∈ values, v = 0) (j : ℕ) :
    cell values j = 0 := by
  unfold cell
  cases hv : values[j]? with
  | none => rfl
  | some v =>
    rw [h v (List.mem_of_getElem? hv)]
    rfl

theorem cell_append_zeros (values : List Int64) (n j : ℕ) :
    cell (values ++ List.replicate n 0) j = cell values j := by
  induction values generalizing j with
  | nil => exact cell_of_zeros (fun v hv => (List.mem_replicate.mp hv).2) j
  | cons v values ih =>
    cases j with
    | zero => rfl
    | succ j => exact ih j

@[ext] structure Row where
  cells : List ℤ
  deriving DecidableEq

/-- Column by column, the shorter list padded with zeros. -/
def addCells : List ℤ → List ℤ → List ℤ
  | [], ys => ys
  | x :: xs, [] => x :: xs
  | x :: xs, y :: ys => (x + y) :: addCells xs ys

theorem addCells_nil (xs : List ℤ) : addCells xs [] = xs := by
  cases xs <;> rfl

theorem addCells_comm (xs ys : List ℤ) : addCells xs ys = addCells ys xs := by
  induction xs generalizing ys with
  | nil => rw [addCells_nil, addCells]
  | cons x xs ih =>
    cases ys with
    | nil => rfl
    | cons y ys => rw [addCells, addCells, add_comm x y, ih]

theorem addCells_assoc (xs ys zs : List ℤ) :
    addCells (addCells xs ys) zs = addCells xs (addCells ys zs) := by
  induction xs generalizing ys zs with
  | nil => rfl
  | cons x xs ih =>
    cases ys with
    | nil => rfl
    | cons y ys =>
      cases zs with
      | nil => rfl
      | cons z zs =>
        change (x + y + z) :: addCells (addCells xs ys) zs =
          (x + (y + z)) :: addCells xs (addCells ys zs)
        rw [ih, add_assoc]

namespace Row

instance : Zero Row := ⟨⟨[]⟩⟩
instance : Add Row := ⟨fun a b => ⟨addCells a.cells b.cells⟩⟩

instance : AddCommMonoid Row where
  add_assoc a b c := Row.ext (addCells_assoc a.cells b.cells c.cells)
  zero_add _ := rfl
  add_zero a := Row.ext (addCells_nil a.cells)
  add_comm a b := Row.ext (addCells_comm a.cells b.cells)
  nsmul := nsmulRec

def ofValues (values : List Int64) : Row := ⟨values.map Int64.toInt⟩

theorem add_cells (a b : Row) : (a + b).cells = addCells a.cells b.cells := rfl

/-- Column `j`, zero where the row is too short. -/
def column (a : Row) (j : ℕ) : ℤ := a.cells.getD j 0

theorem column_add (a b : Row) (j : ℕ) : (a + b).column j = a.column j + b.column j := by
  obtain ⟨xs⟩ := a
  obtain ⟨ys⟩ := b
  change (addCells xs ys).getD j 0 = xs.getD j 0 + ys.getD j 0
  induction xs generalizing ys j with
  | nil => simp [addCells]
  | cons x xs ih =>
    cases ys with
    | nil => simp [addCells]
    | cons y ys =>
      cases j with
      | zero => rfl
      | succ j => simpa [addCells] using ih j ys

def col (j : ℕ) : Row →+ ℤ where
  toFun a := a.column j
  map_zero' := rfl
  map_add' a b := column_add a b j

theorem col_ofValues (values : List Int64) (j : ℕ) : col j (ofValues values) = cell values j := by
  change (values.map Int64.toInt).getD j 0 = _
  rw [cell, List.getD_eq_getElem?_getD, List.getElem?_map]

end Row

end PProfessor.Columns
