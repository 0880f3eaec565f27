import Mathlib.Tactic

set_option autoImplicit false

/-!
# Tables numbered from one

Tables whose entry at position `i` has the 64-bit id `i + 1`, and the lookup of an
entry by its id.
-/
namespace PProfessor.NumberedTable

variable {α : Type} (id : α → UInt64)

def Numbered (xs : List α) : Prop := ∀ (i : ℕ) (x : α), xs[i]? = some x → (id x).toNat = i + 1

/-- The first entry with the given id. -/
def lookup (xs : List α) (k : UInt64) : Option α := xs.find? fun x => id x = k

theorem lookup_of_extension {xs ys : List α} (h : xs <+: ys) {k : UInt64} {x : α}
    (hx : lookup id xs k = some x) : lookup id ys k = some x := by
  obtain ⟨rest, rfl⟩ := h
  unfold lookup at hx ⊢
  rw [List.find?_append, hx]
  rfl

theorem lookup_eq_some {xs : List α} {k : UInt64} {x : α} (h : lookup id xs k = some x) :
    x ∈ xs ∧ id x = k :=
  ⟨List.mem_of_find?_eq_some h, by simpa using List.find?_some h⟩

def lastWins (xs : List α) : List α :=
  xs.foldl (fun kept x => (kept.filter fun y => id y ≠ id x) ++ [x]) []

theorem lastWins_concat (xs : List α) (x : α) :
    lastWins id (xs ++ [x]) = ((lastWins id xs).filter fun y => id y ≠ id x) ++ [x] := by
  rw [lastWins, List.foldl_append]
  rfl

theorem lastWins_of_nodup {xs : List α} (h : (xs.map id).Nodup) : lastWins id xs = xs := by
  induction xs using List.reverseRecOn with
  | nil => rfl
  | append_singleton xs x ih =>
    rw [List.map_append, List.nodup_append] at h
    rw [lastWins_concat, ih h.1, List.filter_eq_self.mpr]
    intro y hy
    exact decide_eq_true (h.2.2 _ (List.mem_map_of_mem hy) _ List.mem_cons_self)

theorem numbered_nil : Numbered id [] := by
  intro i x hx
  simp at hx

variable {id}

theorem Numbered.concat {xs : List α} (h : Numbered id xs) {x : α}
    (hx : (id x).toNat = xs.length + 1) : Numbered id (xs ++ [x]) := by
  intro i y hy
  rcases Nat.lt_trichotomy i xs.length with hi | rfl | hi
  · rw [List.getElem?_append_left hi] at hy
    exact h i y hy
  · rw [List.getElem?_concat_length, Option.some.injEq] at hy
    rw [← hy]
    exact hx
  · rw [List.getElem?_eq_none (by simp; omega)] at hy
    cases hy

theorem Numbered.le_length {xs : List α} (h : Numbered id xs) {x : α} (hx : x ∈ xs) :
    0 < (id x).toNat ∧ (id x).toNat ≤ xs.length := by
  obtain ⟨i, hi⟩ := List.mem_iff_getElem?.mp hx
  have hlt := (List.getElem?_eq_some_iff.mp hi).choose
  rw [h i x hi]
  omega

theorem Numbered.ne_zero {xs : List α} (h : Numbered id xs) {x : α} (hx : x ∈ xs) : id x ≠ 0 := by
  intro hz
  have hpos := (h.le_length hx).1
  rw [hz] at hpos
  exact absurd hpos (Nat.lt_irrefl 0)

theorem Numbered.inj {xs : List α} (h : Numbered id xs) {x y : α} (hx : x ∈ xs) (hy : y ∈ xs)
    (hxy : id x = id y) : x = y := by
  obtain ⟨i, hi⟩ := List.mem_iff_getElem?.mp hx
  obtain ⟨j, hj⟩ := List.mem_iff_getElem?.mp hy
  have hij : i = j := by
    have := h i x hi
    rw [hxy, h j y hj] at this
    omega
  subst hij
  rw [hi, Option.some.injEq] at hj
  exact hj

theorem Numbered.lookup_zero {xs : List α} (h : Numbered id xs) : lookup id xs 0 = none := by
  unfold lookup
  rw [List.find?_eq_none]
  exact fun x hx hz => h.ne_zero hx (by simpa using hz)

theorem Numbered.lookup_eq {xs : List α} (h : Numbered id xs) {x : α} (hx : x ∈ xs) :
    lookup id xs (id x) = some x := by
  unfold lookup
  cases hf : xs.find? fun y => id y = id x with
  | none =>
    rw [List.find?_eq_none] at hf
    exact absurd (hf x hx) (by simp)
  | some y =>
    have hy : id y = id x := by simpa using List.find?_some hf
    rw [h.inj (List.mem_of_find?_eq_some hf) hx hy]

theorem Numbered.nodup {xs : List α} (h : Numbered id xs) : (xs.map id).Nodup := by
  rw [List.nodup_iff_injective_getElem]
  intro i j hij
  apply Fin.ext
  have hget : ∀ i : Fin (xs.map id).length, ((xs.map id)[i]).toNat = i.val + 1 := by
    intro i
    have hi : i.val < xs.length := by simpa using i.isLt
    simp only [Fin.getElem_fin, List.getElem_map]
    exact h i.val xs[i.val] (List.getElem?_eq_getElem hi)
  have hi := hget i
  have hj := hget j
  rw [show (xs.map id)[i] = (xs.map id)[j] from hij, hj] at hi
  omega

theorem ofNat_succ_toNat {n : ℕ} (h : n + 1 < 2 ^ 64) : (UInt64.ofNat (n + 1)).toNat = n + 1 :=
  UInt64.toNat_ofNat_of_lt' h

end PProfessor.NumberedTable
