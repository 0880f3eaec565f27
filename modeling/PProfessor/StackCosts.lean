import PProfessor.KeyedSum

set_option autoImplicit false

/-!
# Costs of weighted stacks

A profile as a list of stacks, each a list of frames from the root to the leaf,
with the value that each carries.
-/
namespace PProfessor.StackCosts
open KeyedSum

variable {α : Type} [DecidableEq α]

/-- The values of the stacks whose leaf is the frame. -/
def flat (samples : List (List α × ℤ)) (a : α) : ℤ :=
  total (fun s => s.1.getLast?) Prod.snd samples (some a)

/-- The values of the stacks with the frame in them, each stack once. -/
def cumulative (samples : List (List α × ℤ)) (a : α) : ℤ :=
  total (fun s => decide (a ∈ s.1)) Prod.snd samples true

/-- The values of the samples with the stack. -/
def whole (samples : List (List α × ℤ)) (stack : List α) : ℤ :=
  total Prod.fst Prod.snd samples stack

/-- The values of the stacks that have a frame. -/
def resolved (samples : List (List α × ℤ)) : ℤ :=
  ((samples.filter fun s => s.1 ≠ []).map Prod.snd).sum

/-- The sum of the absolute values. -/
def magnitude (samples : List (List α × ℤ)) : ℤ := (samples.map fun s => |s.2|).sum

variable {samples : List (List α × ℤ)}

theorem flat_resolved (a : α) : flat (samples.filter fun s => s.1 ≠ []) a = flat samples a := by
  unfold flat total
  rw [List.filter_filter]
  congr 2
  apply List.filter_congr
  intro s _
  by_cases hs : s.1 = []
  · simp [hs]
  · simp [hs]

theorem whole_resolved {stack : List α} (h : stack ≠ []) :
    whole (samples.filter fun s => s.1 ≠ []) stack = whole samples stack := by
  unfold whole total
  rw [List.filter_filter]
  congr 2
  apply List.filter_congr
  intro s _
  by_cases hs : s.1 = stack
  · simp [hs, h]
  · simp [hs]

theorem sum_flat {frames : List α} (hnodup : frames.Nodup)
    (hmem : ∀ s ∈ samples, ∀ a ∈ s.1, a ∈ frames) :
    (frames.map (flat samples)).sum = resolved samples := by
  have hleaf : ∀ s ∈ samples.filter fun s => s.1 ≠ [], s.1.getLast? ∈ frames.map some := by
    intro s hs
    obtain ⟨hs, hne⟩ := List.mem_filter.mp hs
    rw [decide_eq_true_eq] at hne
    rw [List.getLast?_eq_some_getLast hne]
    exact List.mem_map_of_mem (hmem s hs _ (List.getLast_mem hne))
  have hkeys := sum_total (fun s : List α × ℤ => s.1.getLast?) Prod.snd
    (hnodup.map (Option.some_injective α)) hleaf
  rw [List.map_map] at hkeys
  rw [resolved, ← hkeys]
  congr 1
  apply List.map_congr_left
  intro a _
  exact (flat_resolved a).symm

theorem sum_whole {keys : List (List α)} (hnodup : keys.Nodup) (hne : [] ∉ keys)
    (hmem : ∀ s ∈ samples, s.1 ≠ [] → s.1 ∈ keys) :
    (keys.map (whole samples)).sum = resolved samples := by
  have hkept : ∀ s ∈ samples.filter fun s => s.1 ≠ [], s.1 ∈ keys := by
    intro s hs
    obtain ⟨hs, hne⟩ := List.mem_filter.mp hs
    exact hmem s hs (by simpa using hne)
  have hkeys := sum_total Prod.fst Prod.snd hnodup hkept
  rw [resolved, ← hkeys]
  congr 1
  apply List.map_congr_left
  intro key hkey
  apply (whole_resolved _).symm
  rintro rfl
  exact hne hkey

section Nonneg
variable (hnonneg : ∀ s ∈ samples, 0 ≤ s.2)
include hnonneg

theorem flat_le_cumulative (a : α) : flat samples a ≤ cumulative samples a := by
  unfold flat cumulative total
  have hsub : (samples.filter fun s => s.1.getLast? = some a).Sublist
      (samples.filter fun s => decide (a ∈ s.1) = true) := by
    apply List.monotone_filter_right
    intro s hs
    rw [decide_eq_true_eq] at hs ⊢
    exact decide_eq_true (List.mem_of_getLast? hs)
  apply (hsub.map Prod.snd).sum_le_sum
  intro v hv
  obtain ⟨s, hs, rfl⟩ := List.mem_map.mp hv
  exact hnonneg s (List.mem_filter.mp hs).1

theorem cumulative_le_magnitude (a : α) : cumulative samples a ≤ magnitude samples := by
  have habs : magnitude samples = (samples.map Prod.snd).sum := by
    unfold magnitude
    congr 1
    apply List.map_congr_left
    intro s hs
    exact abs_of_nonneg (hnonneg s hs)
  rw [habs]
  unfold cumulative total
  apply (List.filter_sublist.map Prod.snd).sum_le_sum
  intro v hv
  obtain ⟨s, hs, rfl⟩ := List.mem_map.mp hv
  exact hnonneg s hs

end Nonneg

section Relabel
variable {β : Type} {f : α → β} {names : Set α}

def relabel (f : α → β) (samples : List (List α × ℤ)) : List (List β × ℤ) :=
  samples.map fun s => (s.1.map f, s.2)

omit [DecidableEq α] in
theorem magnitude_relabel : magnitude (relabel f samples) = magnitude samples := by
  simp [magnitude, relabel, Function.comp_def]

omit [DecidableEq α] in
theorem map_inj_of_injOn (hf : Set.InjOn f names) {xs ys : List α} (hxs : ∀ a ∈ xs, a ∈ names)
    (hys : ∀ a ∈ ys, a ∈ names) (h : xs.map f = ys.map f) : xs = ys := by
  induction xs generalizing ys with
  | nil => exact (List.map_eq_nil_iff.mp h.symm).symm
  | cons x xs ih =>
    cases ys with
    | nil => simp at h
    | cons y ys =>
      rw [List.forall_mem_cons] at hxs hys
      rw [List.map_cons, List.map_cons, List.cons.injEq] at h
      rw [hf hxs.1 hys.1 h.1, ih hxs.2 hys.2 h.2]

section InjOn
variable [DecidableEq β] (hf : Set.InjOn f names) (hnames : ∀ s ∈ samples, ∀ a ∈ s.1, a ∈ names)
include hf hnames

theorem flat_relabel {a : α} (ha : a ∈ names) :
    flat (relabel f samples) (f a) = flat samples a := by
  unfold flat relabel
  rw [total_map]
  refine total_congr _ _ (fun s hs => ?_) fun _ _ => rfl
  rw [List.getLast?_map, Option.map_eq_some_iff]
  constructor
  · rintro ⟨b, hb, hfb⟩
    rw [hb, hf (hnames s hs b (List.mem_of_getLast? hb)) ha hfb]
  · intro h
    exact ⟨a, h, rfl⟩

theorem cumulative_relabel {a : α} (ha : a ∈ names) :
    cumulative (relabel f samples) (f a) = cumulative samples a := by
  unfold cumulative relabel
  rw [total_map]
  refine total_congr _ _ (fun s hs => ?_) fun _ _ => rfl
  simp only [decide_eq_true_eq, List.mem_map]
  constructor
  · rintro ⟨b, hb, hfb⟩
    rwa [← hf (hnames s hs b hb) ha hfb]
  · intro h
    exact ⟨a, h, rfl⟩

theorem whole_relabel {stack : List α} (hstack : ∀ a ∈ stack, a ∈ names) :
    whole (relabel f samples) (stack.map f) = whole samples stack := by
  unfold whole relabel
  rw [total_map]
  refine total_congr _ _ (fun s hs => ?_) fun _ _ => rfl
  constructor
  · exact map_inj_of_injOn hf (hnames s hs) hstack
  · intro h
    rw [h]

end InjOn

end Relabel

end PProfessor.StackCosts
