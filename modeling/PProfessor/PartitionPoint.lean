import Mathlib.Data.List.Basic
import Mathlib.Data.List.TakeWhile
import Mathlib.Tactic.SplitIfs

set_option autoImplicit false

/-!
# Partition points

The binary search of a list on which a test holds up to some index and fails from
there on, and the element before that index.
-/
namespace PartitionPoint

variable {α : Type*}

def partitionPoint (p : α → Bool) (xs : List α) : ℕ := (xs.takeWhile p).length

def preceding (p : α → Bool) (xs : List α) : Option α :=
  if partitionPoint p xs = 0 then none else xs[partitionPoint p xs - 1]?

/-- Nothing that fails the test stands before something that passes it. -/
def Partitioned (p : α → Bool) (xs : List α) : Prop := xs.Pairwise fun a b => p b → p a

theorem partitionPoint_le (p : α → Bool) (xs : List α) : partitionPoint p xs ≤ xs.length :=
  (List.takeWhile_prefix p).length_le

theorem preceding_eq_getLast? (p : α → Bool) (xs : List α) :
    preceding p xs = (xs.takeWhile p).getLast? := by
  unfold preceding partitionPoint
  split_ifs with h
  · rw [List.length_eq_zero_iff.mp h]
    rfl
  · rw [List.getLast?_eq_getElem?]
    have hlt : (xs.takeWhile p).length - 1 < (xs.takeWhile p).length := by omega
    rw [List.getElem?_eq_getElem hlt]
    exact (List.prefix_iff_getElem?.mp (List.takeWhile_prefix p)) _ hlt

theorem not_of_getElem?_partitionPoint {p : α → Bool} {xs : List α} {a : α}
    (h : xs[partitionPoint p xs]? = some a) : ¬ p a := by
  unfold partitionPoint at h
  induction xs with
  | nil => cases h
  | cons x xs ih =>
    rw [List.takeWhile_cons] at h
    cases hp : p x with
    | true =>
      rw [hp, if_pos rfl, List.length_cons, List.getElem?_cons_succ] at h
      exact ih h
    | false =>
      rw [hp] at h
      cases h
      rw [hp]
      exact Bool.false_ne_true

theorem preceding_spec {p : α → Bool} {xs : List α} {a : α} (h : preceding p xs = some a) :
    p a ∧ a ∈ xs := by
  rw [preceding_eq_getLast?] at h
  have hmem := List.mem_of_getLast? h
  exact ⟨List.mem_takeWhile_imp hmem, (List.takeWhile_sublist p).subset hmem⟩

theorem preceding_eq_getElem? {p : α → Bool} {xs : List α} (h : partitionPoint p xs ≠ 0) :
    preceding p xs = xs[partitionPoint p xs - 1]? := if_neg h

theorem takeWhile_eq_filter {p : α → Bool} {xs : List α} (h : Partitioned p xs) :
    xs.takeWhile p = xs.filter p := by
  induction xs with
  | nil => rfl
  | cons x xs ih =>
    obtain ⟨hx, hxs⟩ := List.pairwise_cons.mp h
    rw [List.takeWhile_cons]
    cases hp : p x with
    | true => rw [if_pos rfl, List.filter_cons_of_pos hp, ih hxs]
    | false =>
      rw [List.filter_cons_of_neg (by rw [hp]; exact Bool.false_ne_true), eq_comm,
        List.filter_eq_nil_iff.mpr]
      · rfl
      · intro y hy hpy
        exact absurd (hx y hy hpy) (by rw [hp]; exact Bool.false_ne_true)

theorem preceding_eq_filter {p : α → Bool} {xs : List α} (h : Partitioned p xs) :
    preceding p xs = (xs.filter p).getLast? := by
  rw [preceding_eq_getLast?, takeWhile_eq_filter h]

theorem partitionPoint_eq_length_iff {p : α → Bool} {xs : List α} (h : Partitioned p xs) {a : α}
    (ha : xs.getLast? = some a) : partitionPoint p xs = xs.length ↔ p a := by
  constructor
  · intro hlen
    have hall := (List.takeWhile_prefix p).eq_of_length hlen
    have hmem := List.mem_of_getLast? ha
    rw [← hall] at hmem
    exact List.mem_takeWhile_imp hmem
  · intro hp
    obtain ⟨l, rfl⟩ := List.getLast?_eq_some_iff.mp ha
    have hall : ∀ b ∈ l ++ [a], p b := by
      intro b hb
      rcases List.mem_append.mp hb with hb | hb
      · exact (List.pairwise_append.mp h).2.2 b hb a (List.mem_singleton_self a) hp
      · rw [List.mem_singleton.mp hb]
        exact hp
    unfold partitionPoint
    rw [takeWhile_eq_filter h, List.filter_eq_self.mpr hall]

theorem Partitioned.filterMap {β : Type*} {p : α → Bool} {q : β → Bool} {f : α → Option β}
    {xs : List α} (h : Partitioned p xs) (hq : ∀ a b, f a = some b → q b = p a) :
    Partitioned q (xs.filterMap f) := by
  unfold Partitioned
  rw [List.pairwise_filterMap]
  refine h.imp ?_
  intro a a' himp b hb b' hb' hqb
  rw [hq a b hb]
  rw [hq a' b' hb'] at hqb
  exact himp hqb

theorem getLast?_filterMap_eq_some {β : Type*} {f : α → Option β} {xs : List α} {b : β} :
    (xs.filterMap f).getLast? = some b ↔
      ∃ l₁ a l₂, xs = l₁ ++ a :: l₂ ∧ f a = some b ∧ ∀ x ∈ l₂, f x = none := by
  rw [List.getLast?_filterMap, List.findSome?_eq_some_iff]
  constructor
  · rintro ⟨l₁, a, l₂, heq, ha, hl₁⟩
    refine ⟨l₂.reverse, a, l₁.reverse, ?_, ha, fun x hx => hl₁ x (List.mem_reverse.mp hx)⟩
    rw [← List.reverse_reverse xs, heq]
    simp
  · rintro ⟨l₁, a, l₂, rfl, ha, hl₂⟩
    exact ⟨l₂.reverse, a, l₁.reverse, by simp, ha, fun x hx => hl₂ x (List.mem_reverse.mp hx)⟩

/-- What precedes the point among the elements that `f` keeps: behind it and up to
the point `f` keeps nothing. -/
theorem preceding_filterMap {β : Type*} {p : α → Bool} {q : β → Bool} {f : α → Option β}
    {xs : List α} {b : β} (h : Partitioned p xs) (hq : ∀ a b, f a = some b → q b = p a) :
    preceding q (xs.filterMap f) = some b ↔
      ∃ l₁ a l₂, xs.filter p = l₁ ++ a :: l₂ ∧ f a = some b ∧ ∀ x ∈ l₂, f x = none := by
  have hswap : (xs.filterMap f).filter q = (xs.filter p).filterMap f := by
    rw [List.filter_filterMap, List.filterMap_filter]
    refine List.filterMap_congr fun a _ => ?_
    cases ha : f a with
    | none => simp
    | some b =>
      rw [Option.filter_some, hq a b ha]
  rw [preceding_eq_filter (h.filterMap hq), hswap, getLast?_filterMap_eq_some]

section
variable {κ : Type*} [LE κ] [DecidableLE κ] {key : α → κ}

def sortByKey (key : α → κ) (xs : List α) : List α := xs.mergeSort fun a b => key a ≤ key b

theorem sortByKey_perm (key : α → κ) (xs : List α) : (sortByKey key xs).Perm xs :=
  List.mergeSort_perm _ _

theorem sortByKey_of_sorted {xs : List α} (h : xs.Pairwise fun a b => key a ≤ key b) :
    sortByKey key xs = xs :=
  List.mergeSort_of_pairwise (h.imp decide_eq_true)

variable [Std.IsLinearPreorder κ]

theorem sortByKey_sorted (key : α → κ) (xs : List α) :
    (sortByKey key xs).Pairwise fun a b => key a ≤ key b := by
  have h : (sortByKey key xs).Pairwise fun a b => decide (key a ≤ key b) = true := by
    refine List.pairwise_mergeSort ?_ ?_ xs
    · intro a b c hab hbc
      exact decide_eq_true (Std.le_trans (of_decide_eq_true hab) (of_decide_eq_true hbc))
    · intro a b
      rw [Bool.or_eq_true, decide_eq_true_eq, decide_eq_true_eq]
      exact Std.le_total
  exact h.imp of_decide_eq_true

omit [DecidableLE κ] in
theorem head?_eq_some_iff [Std.IsPartialOrder κ] {xs : List κ} (h : xs.Pairwise (· ≤ ·)) (x : κ) :
    xs.head? = some x ↔ x ∈ xs ∧ ∀ y ∈ xs, x ≤ y := by
  cases xs with
  | nil => simp
  | cons y ys =>
    rw [List.pairwise_cons] at h
    rw [List.head?_cons, Option.some.injEq]
    constructor
    · rintro rfl
      exact ⟨List.mem_cons_self, List.forall_mem_cons.mpr ⟨Std.le_refl y, h.1⟩⟩
    · rintro ⟨hx, hle⟩
      refine Std.le_antisymm ?_ (hle y List.mem_cons_self)
      rcases List.mem_cons.mp hx with rfl | hx
      · exact Std.le_refl x
      · exact h.1 x hx

theorem partitioned_of_sorted {xs : List α} (h : xs.Pairwise fun a b => key a ≤ key b)
    (bound : κ) : Partitioned (fun a => decide (key a ≤ bound)) xs := by
  refine h.imp ?_
  intro a b hab hb
  exact decide_eq_true (Std.le_trans hab (of_decide_eq_true hb))

theorem preceding_greatest {xs : List α} (h : xs.Pairwise fun a b => key a ≤ key b) {bound : κ}
    {a : α} (ha : preceding (fun a => decide (key a ≤ bound)) xs = some a) :
    ∀ b ∈ xs, key b ≤ bound → key b ≤ key a := by
  intro b hb hle
  rw [preceding_eq_filter (partitioned_of_sorted h bound)] at ha
  have hsorted := h.filter fun a => decide (key a ≤ bound)
  obtain ⟨l, hl⟩ := List.getLast?_eq_some_iff.mp ha
  have hmem : b ∈ l ++ [a] := by
    rw [← hl]
    exact List.mem_filter.mpr ⟨hb, decide_eq_true hle⟩
  rw [hl] at hsorted
  rcases List.mem_append.mp hmem with hb | hb
  · exact (List.pairwise_append.mp hsorted).2.2 b hb a (List.mem_singleton_self a)
  · rw [List.mem_singleton.mp hb]
    exact Std.le_refl _

end

end PartitionPoint
