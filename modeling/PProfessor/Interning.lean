import Mathlib.Tactic

set_option autoImplicit false

/-!
# Interning

A list without an index: interning an element finds its first position, or adds it at the end.
The elements may repeat at the start; no element is added twice.
-/
namespace PProfessor.Interning

variable {α : Type}

/-- The element stands there, and nowhere earlier. -/
structure FirstAt (xs : List α) (x : α) (n : ℕ) : Prop where
  here : xs[n]? = some x
  first : ∀ m < n, xs[m]? ≠ some x

namespace FirstAt

variable {xs ys : List α} {x y : α} {m n : ℕ}

theorem lt_length (h : FirstAt xs x n) : n < xs.length :=
  (List.getElem?_eq_some_iff.mp h.here).choose

theorem unique (hm : FirstAt xs x m) (hn : FirstAt xs x n) : m = n := by
  rcases Nat.lt_trichotomy m n with h | h | h
  · exact absurd hm.here (hn.first m h)
  · exact h
  · exact absurd hn.here (hm.first n h)

theorem eq_iff (hx : FirstAt xs x m) (hy : FirstAt xs y n) : m = n ↔ x = y := by
  constructor
  · rintro rfl
    exact Option.some.inj (hx.here.symm.trans hy.here)
  · rintro rfl
    exact hx.unique hy

theorem of_extension (h : FirstAt xs x n) (hys : xs <+: ys) : FirstAt ys x n := by
  obtain ⟨rest, rfl⟩ := hys
  refine ⟨?_, fun m hm => ?_⟩
  · rw [List.getElem?_append_left h.lt_length, h.here]
  · rw [List.getElem?_append_left (hm.trans h.lt_length)]
    exact h.first m hm

theorem concat (h : x ∉ xs) : FirstAt (xs ++ [x]) x xs.length := by
  refine ⟨List.getElem?_concat_length, fun m hm hx => h ?_⟩
  rw [List.getElem?_append_left hm] at hx
  exact List.mem_of_getElem? hx

end FirstAt

variable [DecidableEq α]

theorem idxOf?_eq_some_iff {xs : List α} {x : α} {n : ℕ} :
    xs.idxOf? x = some n ↔ FirstAt xs x n := by
  rw [List.idxOf?_eq_some_iff]
  constructor
  · rintro ⟨hlt, hhere, hfirst⟩
    refine ⟨by rw [List.getElem?_eq_getElem hlt, hhere], fun m hm hx => hfirst m hm ?_⟩
    rwa [List.getElem?_eq_getElem (hm.trans hlt), Option.some.injEq] at hx
  · intro h
    refine ⟨h.lt_length, ?_, fun m hm hx => h.first m hm ?_⟩
    · have hhere := h.here
      rwa [List.getElem?_eq_getElem h.lt_length, Option.some.injEq] at hhere
    · rw [List.getElem?_eq_getElem (hm.trans h.lt_length), hx]

def intern (xs : List α) (x : α) : ℕ × List α :=
  match xs.idxOf? x with
  | some n => (n, xs)
  | none => (xs.length, xs ++ [x])

/-- One element after the other. -/
def internAll : List α → List α → List ℕ × List α
  | [], xs => ([], xs)
  | x :: rest, xs =>
    let (n, xs) := intern xs x
    let (ns, xs) := internAll rest xs
    (n :: ns, xs)

theorem intern_of_mem {xs : List α} {x : α} (h : x ∈ xs) : (intern xs x).2 = xs := by
  unfold intern
  cases hx : xs.idxOf? x with
  | none => exact absurd h (List.idxOf?_eq_none_iff.mp hx)
  | some n => rfl

theorem intern_of_not_mem {xs : List α} {x : α} (h : x ∉ xs) :
    intern xs x = (xs.length, xs ++ [x]) := by
  rw [intern, List.idxOf?_eq_none_iff.mpr h]

theorem intern_list (xs : List α) (x : α) :
    (intern xs x).2 = if x ∈ xs then xs else xs ++ [x] := by
  split_ifs with h
  · exact intern_of_mem h
  · rw [intern_of_not_mem h]

theorem intern_extends (xs : List α) (x : α) : xs <+: (intern xs x).2 := by
  rw [intern_list]
  split_ifs
  · exact List.prefix_refl xs
  · exact List.prefix_append xs [x]

theorem intern_firstAt (xs : List α) (x : α) : FirstAt (intern xs x).2 x (intern xs x).1 := by
  unfold intern
  cases hx : xs.idxOf? x with
  | none => exact .concat (List.idxOf?_eq_none_iff.mp hx)
  | some n => exact idxOf?_eq_some_iff.mp hx

theorem internAll_extends (xs ys : List α) : ys <+: (internAll xs ys).2 := by
  induction xs generalizing ys with
  | nil => exact List.prefix_refl ys
  | cons x xs ih => exact (intern_extends ys x).trans (ih _)

theorem internAll_append (xs xs' ys : List α) :
    (internAll (xs ++ xs') ys).2 = (internAll xs' (internAll xs ys).2).2 := by
  induction xs generalizing ys with
  | nil => rfl
  | cons x xs ih => exact ih _

@[simp] theorem internAll_length (xs ys : List α) : (internAll xs ys).1.length = xs.length := by
  induction xs generalizing ys with
  | nil => rfl
  | cons x xs ih => exact congrArg (· + 1) (ih _)

theorem internAll_firstAt {xs ys : List α} {i n : ℕ} {x : α} (hx : xs[i]? = some x)
    (hn : (internAll xs ys).1[i]? = some n) : FirstAt (internAll xs ys).2 x n := by
  induction xs generalizing ys i with
  | nil => cases hx
  | cons y xs ih =>
    cases i with
    | zero =>
      rw [List.getElem?_cons_zero, Option.some.injEq] at hx
      subst hx
      have hfirst : (intern ys y).1 = n := Option.some.inj hn
      rw [← hfirst]
      exact (intern_firstAt ys y).of_extension (internAll_extends xs _)
    | succ i => exact ih hx hn

end PProfessor.Interning
