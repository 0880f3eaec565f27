import Mathlib.Tactic

set_option autoImplicit false

/-!
# Records

The elements of a list whose key exceeds every key in front of them: what passes a filter that
remembers the highest key it has seen.
-/
namespace PProfessor.Records

variable {α κ : Type} [LinearOrder κ] (key : α → κ)

/-- The highest key, at least `bottom`. -/
def top (bottom : κ) (xs : List α) : κ := xs.foldl (fun m x => max m (key x)) bottom

/-- The elements that pass the filter, from `bottom` on. -/
def records : κ → List α → List α
  | _, [] => []
  | bottom, x :: xs =>
    if bottom < key x then x :: records (key x) xs else records bottom xs

@[simp] theorem top_nil (bottom : κ) : top key bottom [] = bottom := rfl

theorem top_cons (bottom : κ) (x : α) (xs : List α) :
    top key bottom (x :: xs) = top key (max bottom (key x)) xs := rfl

theorem top_concat (bottom : κ) (xs : List α) (x : α) :
    top key bottom (xs ++ [x]) = max (top key bottom xs) (key x) := by
  rw [top, List.foldl_append]
  rfl

theorem top_lt_iff (bottom k : κ) (xs : List α) :
    top key bottom xs < k ↔ bottom < k ∧ ∀ x ∈ xs, key x < k := by
  induction xs using List.reverseRecOn with
  | nil => simp
  | append_singleton xs x ih =>
    rw [top_concat, max_lt_iff, ih, List.forall_mem_append, List.forall_mem_singleton, and_assoc]

theorem records_concat (bottom : κ) (xs : List α) (x : α) :
    records key bottom (xs ++ [x]) =
      records key bottom xs ++ if top key bottom xs < key x then [x] else [] := by
  induction xs generalizing bottom with
  | nil => rfl
  | cons y xs ih =>
    rw [List.cons_append, records, records, top_cons]
    by_cases hy : bottom < key y
    · rw [if_pos hy, if_pos hy, ih, max_eq_right hy.le, List.cons_append]
    · rw [if_neg hy, if_neg hy, ih, max_eq_left (not_lt.mp hy)]

theorem records_sublist (bottom : κ) (xs : List α) : (records key bottom xs).Sublist xs := by
  induction xs generalizing bottom with
  | nil => exact List.Sublist.refl _
  | cons x xs ih =>
    rw [records]
    split_ifs
    · exact (ih (key x)).cons_cons x
    · exact (ih bottom).cons x

/-- All elements of a kind pass exactly if each is higher than everything in front of it. -/
theorem filter_records_eq_iff (p : α → Bool) (bottom : κ) (xs : List α) :
    (records key bottom xs).filter p = xs.filter p ↔
      ∀ before x after, xs = before ++ x :: after → p x = true →
        top key bottom before < key x := by
  induction xs using List.reverseRecOn with
  | nil => simp [records]
  | append_singleton xs x ih =>
    have hsplit : (∀ before y after, xs ++ [x] = before ++ y :: after → p y = true →
        top key bottom before < key y) ↔
        (∀ before y after, xs = before ++ y :: after → p y = true →
          top key bottom before < key y) ∧ (p x = true → top key bottom xs < key x) := by
      constructor
      · intro h
        exact ⟨fun before y after heq => h before y (after ++ [x]) (by rw [heq]; simp),
          h xs x [] rfl⟩
      · rintro ⟨hbefore, hlast⟩ before y after heq
        cases after using List.reverseRecOn with
        | nil =>
          obtain ⟨rfl, hx⟩ := List.append_inj' heq rfl
          cases hx
          exact hlast
        | append_singleton after z =>
          rw [← List.cons_append, ← List.append_assoc] at heq
          exact hbefore before y after (List.append_inj' heq rfl).1
    have hle := ((records_sublist key bottom xs).filter p).length_le
    rw [hsplit, records_concat, List.filter_append, List.filter_append, ← ih]
    cases hp : p x with
    | false =>
      have hnone : (if top key bottom xs < key x then [x] else []).filter p = [] := by
        split_ifs <;> simp [hp]
      rw [hnone, List.filter_cons_of_neg (by simp [hp]), List.filter_nil, List.append_nil,
        List.append_nil]
      simp
    | true =>
      by_cases hlt : top key bottom xs < key x
      · rw [if_pos hlt, List.append_left_inj]
        simp [hlt]
      · have hshort : (records key bottom xs).filter p ++ [] ≠ xs.filter p ++ [x] := by
          intro heq
          have hlength := congrArg List.length heq
          rw [List.length_append, List.length_append, List.length_nil, List.length_singleton]
            at hlength
          omega
        rw [if_neg hlt, List.filter_nil, List.filter_cons_of_pos hp, List.filter_nil]
        simp only [hshort, hlt, imp_false, not_true_eq_false, and_false]

end PProfessor.Records
