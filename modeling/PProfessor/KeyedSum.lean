import Mathlib.Tactic
import PProfessor.Keys

set_option autoImplicit false

/-!
# Sums by key

The weight a list carries under each key, and the order in which a hash map may
hand out its entries.
-/
namespace PProfessor.KeyedSum

variable {α β κ M : Type} [DecidableEq κ] [AddCommMonoid M]

/-- The total weight of the elements with the given key. -/
def total (key : α → κ) (weight : α → M) (xs : List α) (k : κ) : M :=
  ((xs.filter fun x => key x = k).map weight).sum

variable (key : α → κ) (weight : α → M)

@[simp] theorem total_nil (k : κ) : total key weight [] k = 0 := rfl

theorem total_cons (x : α) (xs : List α) (k : κ) :
    total key weight (x :: xs) k =
      (if key x = k then weight x else 0) + total key weight xs k := by
  unfold total
  by_cases h : key x = k <;> simp [h]

theorem total_cons_eq {x : α} {k : κ} (h : key x = k) (xs : List α) :
    total key weight (x :: xs) k = weight x + total key weight xs k := by
  rw [total_cons, if_pos h]

theorem total_cons_ne {x : α} {k : κ} (h : key x ≠ k) (xs : List α) :
    total key weight (x :: xs) k = total key weight xs k := by
  rw [total_cons, if_neg h, zero_add]

theorem total_append (xs ys : List α) (k : κ) :
    total key weight (xs ++ ys) k = total key weight xs k + total key weight ys k := by
  simp [total]

theorem total_map (f : β → α) (ys : List β) (k : κ) :
    total key weight (ys.map f) k = total (fun y => key (f y)) (fun y => weight (f y)) ys k := by
  simp only [total, List.filter_map, List.map_map]
  rfl

theorem total_perm {xs ys : List α} (h : xs.Perm ys) (k : κ) :
    total key weight xs k = total key weight ys k :=
  ((h.filter _).map weight).sum_eq

theorem total_congr {κ' : Type} [DecidableEq κ'] {key' : α → κ'} {weight' : α → M} {xs : List α}
    {k : κ} {k' : κ'} (hk : ∀ x ∈ xs, key x = k ↔ key' x = k')
    (hw : ∀ x ∈ xs, weight x = weight' x) :
    total key weight xs k = total key' weight' xs k' := by
  unfold total
  have hf : (xs.filter fun x => key x = k) = xs.filter fun x => key' x = k' := by
    apply List.filter_congr
    intro x hx
    rw [decide_eq_decide]
    exact hk x hx
  rw [hf]
  congr 1
  apply List.map_congr_left
  intro x hx
  exact hw x (List.mem_filter.mp hx).1

theorem total_prod {N : Type} [AddCommMonoid N] (weight' : α → N) (xs : List α) (k : κ) :
    total key (fun x => (weight x, weight' x)) xs k =
      (total key weight xs k, total key weight' xs k) := by
  induction xs with
  | nil => rfl
  | cons x xs ih =>
    rw [total_cons, total_cons, total_cons, ih]
    split_ifs <;> simp

theorem total_zero (xs : List α) (k : κ) : total key (fun _ => (0 : M)) xs k = 0 := by
  simp [total]

theorem total_eq_zero {xs : List α} {k : κ} (h : ∀ x ∈ xs, key x ≠ k) :
    total key weight xs k = 0 := by
  have hf : (xs.filter fun x => key x = k) = [] := by
    rw [List.filter_eq_nil_iff]
    intro x hx
    simp [h x hx]
  rw [total, hf]
  rfl

theorem total_hom {N : Type} [AddCommMonoid N] (f : M →+ N) (xs : List α) (k : κ) :
    total key (fun x => f (weight x)) xs k = f (total key weight xs k) := by
  unfold total
  rw [map_list_sum, List.map_map]
  rfl

theorem total_some (xs : List α) (k : κ) :
    total (fun x => some (key x)) weight xs (some k) = total key weight xs k :=
  total_congr _ _ (fun _ _ => by rw [Option.some.injEq]) fun _ _ => rfl

theorem total_flatMap_eq_zero {f : β → List α} {ys : List β} {k : κ}
    (h : ∀ y ∈ ys, total key weight (f y) k = 0) : total key weight (ys.flatMap f) k = 0 := by
  induction ys with
  | nil => rfl
  | cons y ys ih =>
    rw [List.forall_mem_cons] at h
    rw [List.flatMap_cons, total_append, h.1, ih h.2, add_zero]

theorem total_flatMap_of_nodup {f : β → List α} {ys : List β} (hnodup : ys.Nodup) {x : β}
    (hx : x ∈ ys) {k : κ} (h : ∀ y ∈ ys, y ≠ x → total key weight (f y) k = 0) :
    total key weight (ys.flatMap f) k = total key weight (f x) k := by
  induction ys with
  | nil => simp at hx
  | cons y ys ih =>
    rw [List.nodup_cons] at hnodup
    rw [List.forall_mem_cons] at h
    rw [List.flatMap_cons, total_append]
    rcases List.mem_cons.mp hx with rfl | hx
    · rw [total_flatMap_eq_zero, add_zero]
      intro z hz
      exact h.2 z hz fun hzx => hnodup.1 (hzx ▸ hz)
    · rw [h.1 (fun hyx => hnodup.1 (hyx ▸ hx)), zero_add, ih hnodup.2 hx h.2]

theorem total_filter {p : α → Bool} {xs : List α} (h : ∀ x ∈ xs, p x = false → weight x = 0)
    (k : κ) : total key weight (xs.filter p) k = total key weight xs k := by
  induction xs with
  | nil => rfl
  | cons x xs ih =>
    rw [List.forall_mem_cons] at h
    rw [List.filter_cons, total_cons, ← ih h.2]
    cases hp : p x with
    | true => rw [if_pos rfl, total_cons]
    | false => simp [h.1 hp]

theorem total_filter_key {p : α → Bool} {xs : List α} {k : κ}
    (h : ∀ x ∈ xs, key x = k → p x = true) :
    total key weight (xs.filter p) k = total key weight xs k := by
  unfold total
  rw [List.filter_filter]
  congr 2
  apply List.filter_congr
  intro x hx
  by_cases hk : key x = k
  · simp [hk, h x hx hk]
  · simp [hk]

theorem total_of_nodup {xs : List α} (h : (xs.map key).Nodup) {x : α} (hx : x ∈ xs) :
    total key weight xs (key x) = weight x := by
  induction xs with
  | nil => simp at hx
  | cons y ys ih =>
    rw [List.map_cons, List.nodup_cons] at h
    rcases List.mem_cons.mp hx with rfl | hx
    · rw [total_cons_eq key weight rfl, total_eq_zero, add_zero]
      intro z hz hzx
      exact h.1 (List.mem_map.mpr ⟨z, hz, hzx⟩)
    · rw [total_cons_ne, ih h.2 hx]
      intro hyx
      exact h.1 (List.mem_map.mpr ⟨x, hx, hyx.symm⟩)

theorem total_le_of_sublist (size : α → ℕ) {xs ys : List α} (h : xs.Sublist ys) (k : κ) :
    total key size xs k ≤ total key size ys k :=
  ((h.filter _).map size).sum_le_sum (by simp)

section Ordered
variable [PartialOrder M] [IsOrderedAddMonoid M]

theorem total_nonneg {xs : List α} (h : ∀ x ∈ xs, 0 ≤ weight x) (k : κ) :
    0 ≤ total key weight xs k := by
  apply List.sum_nonneg
  intro w hw
  obtain ⟨x, hx, rfl⟩ := List.mem_map.mp hw
  exact h x (List.mem_filter.mp hx).1

theorem total_le_of_coarser {κ' : Type} [DecidableEq κ'] (g : κ → κ') {xs ys : List α}
    (h : ∀ y ∈ ys, 0 ≤ weight y) (hs : xs.Sublist ys) (k : κ) :
    total key weight xs k ≤ total (fun x => g (key x)) weight ys (g k) := by
  have hfilter : (ys.filter fun y => key y = k).Sublist (ys.filter fun y => g (key y) = g k) := by
    apply List.monotone_filter_right
    intro y hy
    rw [decide_eq_true_eq] at hy ⊢
    exact congrArg g hy
  refine (((hs.filter _).trans hfilter).map weight).sum_le_sum ?_
  intro w hw
  obtain ⟨y, hy, rfl⟩ := List.mem_map.mp hw
  exact h y (List.mem_filter.mp hy).1

theorem weight_le_total {xs : List α} (h : ∀ x ∈ xs, 0 ≤ weight x) {x : α} (hx : x ∈ xs) :
    weight x ≤ total key weight xs (key x) := by
  have hmem : x ∈ xs.filter fun y => key y = key x := by simp [hx]
  refine List.single_le_sum ?_ _ (List.mem_map_of_mem hmem)
  intro w hw
  obtain ⟨y, hy, rfl⟩ := List.mem_map.mp hw
  exact h y (List.mem_filter.mp hy).1

end Ordered

/-! ## Grouped parts -/

theorem total_split {κ' : Type} [DecidableEq κ'] (g : κ → κ') (xs : List α) (v : κ) (k : κ') :
    total (fun x => g (key x)) weight xs k = (if g v = k then total key weight xs v else 0) +
      total (fun x => g (key x)) weight (xs.filter fun x => key x ≠ v) k := by
  induction xs with
  | nil => simp
  | cons x xs ih =>
    by_cases hx : key x = v
    · subst hx
      rw [List.filter_cons_of_neg (by simp), total_cons, ih, total_cons_eq key weight rfl]
      split_ifs
      · rw [add_assoc]
      · rw [zero_add]
    · rw [List.filter_cons_of_pos (by simpa using hx), total_cons_ne key weight hx, total_cons,
        total_cons, ih, add_left_comm]

/-- `stored` has one entry for every key of the parts, with the total of its parts. -/
structure Grouped (stored parts : List (κ × M)) : Prop where
  nodup : (stored.map Prod.fst).Nodup
  mem_iff : ∀ k w, (k, w) ∈ stored ↔
    k ∈ parts.map Prod.fst ∧ w = total Prod.fst Prod.snd parts k

namespace Grouped

variable {stored parts : List (κ × M)}

theorem nil : Grouped ([] : List (κ × M)) [] := ⟨List.nodup_nil, by simp⟩

theorem length_le (h : Grouped stored parts) {keys : List κ}
    (hkeys : parts.map Prod.fst ⊆ keys) : stored.length ≤ keys.length := by
  have hsubset : stored.map Prod.fst ⊆ keys := by
    intro k hk
    obtain ⟨⟨k, w⟩, hkw, rfl⟩ := List.mem_map.mp hk
    exact hkeys ((h.mem_iff k w).mp hkw).1
  have hle := (List.subperm_of_subset h.nodup hsubset).length_le
  rwa [List.length_map] at hle

theorem keys_iff (h : Grouped stored parts) (k : κ) :
    k ∈ stored.map Prod.fst ↔ k ∈ parts.map Prod.fst := by
  constructor
  · intro hk
    obtain ⟨⟨k', w⟩, hmem, rfl⟩ := List.mem_map.mp hk
    exact ((h.mem_iff k' w).mp hmem).1
  · intro hk
    exact List.mem_map.mpr ⟨_, (h.mem_iff k _).mpr ⟨hk, rfl⟩, rfl⟩

theorem total_concat (parts : List (κ × M)) (k v : κ) (w : M) :
    total Prod.fst Prod.snd (parts ++ [(k, w)]) v =
      total Prod.fst Prod.snd parts v + if k = v then w else 0 := by
  rw [total_append, total_cons, total_nil, add_zero]

theorem add_new (h : Grouped stored parts) {k : κ} (hk : k ∉ stored.map Prod.fst) (w : M) :
    Grouped (stored ++ [(k, w)]) (parts ++ [(k, w)]) := by
  have hparts : k ∉ parts.map Prod.fst := fun hmem => hk ((h.keys_iff k).mpr hmem)
  have hzero : total Prod.fst Prod.snd parts k = 0 := by
    apply total_eq_zero
    intro x hx hxk
    exact hparts (List.mem_map.mpr ⟨x, hx, hxk⟩)
  constructor
  · rw [List.map_append, List.map_singleton, List.nodup_append]
    refine ⟨h.nodup, List.nodup_singleton _, fun a ha b hb => ?_⟩
    rw [List.mem_singleton.mp hb]
    rintro rfl
    exact hk ha
  · intro v u
    rw [List.mem_append, List.mem_singleton, Prod.mk.injEq, List.map_append, List.map_singleton,
      List.mem_append, List.mem_singleton, total_concat, h.mem_iff]
    by_cases hv : k = v
    · subst hv
      simp [hparts, hzero]
    · have hv' : v ≠ k := fun he => hv he.symm
      simp [hv, hv']

/-- A part with a stored key is added to its entry. -/
theorem add_existing (h : Grouped stored parts) {i : ℕ} {k : κ} {u : M}
    (hi : stored[i]? = some (k, u)) (w : M) :
    Grouped (stored.set i (k, u + w)) (parts ++ [(k, w)]) := by
  have hlt := (List.getElem?_eq_some_iff.mp hi).choose
  have hmem := (h.mem_iff k u).mp (List.mem_of_getElem? hi)
  have hkeys : (stored.set i (k, u + w)).map Prod.fst = stored.map Prod.fst := by
    rw [List.map_set]
    apply List.ext_getElem?
    intro n
    rw [List.getElem?_set]
    split_ifs with hin hlen
    · rw [← hin, List.getElem?_map, hi]
      rfl
    · rw [List.length_map] at hlen
      omega
    · rfl
  refine ⟨hkeys ▸ h.nodup, fun v x => ?_⟩
  rw [List.map_append, List.map_singleton, List.mem_append, List.mem_singleton, total_concat]
  by_cases hv : k = v
  · subst hv
    rw [if_pos rfl, ← hmem.2]
    constructor
    · intro hx
      refine ⟨.inl hmem.1, ?_⟩
      obtain ⟨n, hn⟩ := List.mem_iff_getElem?.mp hx
      have hin : i = n := by
        have hfst : (stored.map Prod.fst)[n]? = (stored.map Prod.fst)[i]? := by
          rw [← hkeys, List.getElem?_map, hn, hkeys, List.getElem?_map, hi]
          rfl
        exact (List.getElem?_inj (by simpa using hlt) h.nodup).mp hfst.symm
      subst hin
      rw [List.getElem?_set_self hlt, Option.some.injEq, Prod.mk.injEq] at hn
      exact hn.2.symm
    · rintro ⟨-, rfl⟩
      exact List.mem_of_getElem? (List.getElem?_set_self hlt)
  · rw [if_neg hv, add_zero, or_iff_left (fun he => hv he.symm), ← h.mem_iff]
    constructor
    · intro hx
      rcases List.mem_or_eq_of_mem_set hx with hx | hx
      · exact hx
      · rw [Prod.mk.injEq] at hx
        exact absurd hx.1.symm hv
    · intro hx
      obtain ⟨n, hn⟩ := List.mem_iff_getElem?.mp hx
      have hne : i ≠ n := by
        rintro rfl
        rw [hi, Option.some.injEq, Prod.mk.injEq] at hn
        exact hv hn.1
      exact List.mem_of_getElem? ((List.getElem?_set_ne hne).trans hn)

theorem of_perm {parts' : List (κ × M)} (h : Grouped stored parts) (hp : parts.Perm parts') :
    Grouped stored parts' := by
  refine ⟨h.nodup, fun k w => ?_⟩
  rw [h.mem_iff, (hp.map Prod.fst).mem_iff, total_perm _ _ hp]

theorem perm {stored' : List (κ × M)} (h : Grouped stored parts) (h' : Grouped stored' parts) :
    stored.Perm stored' := by
  rw [List.perm_ext_iff_of_nodup (.of_map _ h.nodup) (.of_map _ h'.nodup)]
  rintro ⟨k, w⟩
  rw [h.mem_iff, h'.mem_iff]

/-- Grouping keeps the totals under every coarser key. -/
theorem total_comp {κ' : Type} [DecidableEq κ'] (g : κ → κ') (h : Grouped stored parts) (k : κ') :
    total (fun x => g x.1) Prod.snd stored k = total (fun x => g x.1) Prod.snd parts k := by
  induction stored generalizing parts with
  | nil =>
    have hnil : parts = [] := by
      rw [← List.map_eq_nil_iff (f := Prod.fst), List.eq_nil_iff_forall_not_mem]
      exact fun v hv => by simpa using (h.keys_iff v).mpr hv
    rw [hnil]
  | cons entry stored ih =>
    obtain ⟨v, w⟩ := entry
    have hnodup := List.nodup_cons.mp (List.map_cons ▸ h.nodup)
    have hw := ((h.mem_iff v w).mp List.mem_cons_self).2
    have hrest : Grouped stored (parts.filter fun x => x.1 ≠ v) := by
      refine ⟨hnodup.2, fun u x => ?_⟩
      have hmem := h.mem_iff u x
      rw [List.mem_cons, Prod.mk.injEq] at hmem
      have hkeys : u ∈ (parts.filter fun x => x.1 ≠ v).map Prod.fst ↔
          u ∈ parts.map Prod.fst ∧ u ≠ v := by
        simp only [List.mem_map, List.mem_filter, decide_eq_true_eq]
        constructor
        · rintro ⟨y, ⟨hy, hne⟩, rfl⟩
          exact ⟨⟨y, hy, rfl⟩, hne⟩
        · rintro ⟨⟨y, hy, rfl⟩, hne⟩
          exact ⟨y, ⟨hy, hne⟩, rfl⟩
      rw [hkeys]
      by_cases hu : u = v
      · subst hu
        have hnot : (u, x) ∉ stored := fun hx => hnodup.1 (List.mem_map.mpr ⟨_, hx, rfl⟩)
        simp [hnot]
      · have hsplit := total_split Prod.fst Prod.snd id parts v u
        rw [if_neg (fun he => hu he.symm), zero_add] at hsplit
        have htotal : total Prod.fst Prod.snd (parts.filter fun x => x.1 ≠ v) u =
            total Prod.fst Prod.snd parts u := hsplit.symm
        rw [or_iff_right (fun he => hu he.1)] at hmem
        rw [htotal, hmem]
        simp [hu]
    rw [total_cons, ih hrest, hw, total_split Prod.fst Prod.snd g parts v k]

end Grouped

def addPart : List (κ × M) → κ × M → List (κ × M)
  | [], part => [part]
  | entry :: rest, part =>
    if entry.1 = part.1 then (entry.1, entry.2 + part.2) :: rest else entry :: addPart rest part

/-- The parts grouped by key, in the order in which the keys first appear. -/
def accumulate (parts : List (κ × M)) : List (κ × M) := parts.foldl addPart []

theorem addPart_of_not_mem {stored : List (κ × M)} {part : κ × M}
    (h : part.1 ∉ stored.map Prod.fst) : addPart stored part = stored ++ [part] := by
  induction stored with
  | nil => rfl
  | cons entry rest ih =>
    rw [List.map_cons, List.mem_cons, not_or] at h
    rw [addPart, if_neg (Ne.symm h.1), ih h.2]
    rfl

theorem addPart_of_getElem? {stored : List (κ × M)} (hnodup : (stored.map Prod.fst).Nodup) {i : ℕ}
    {k : κ} {u : M} (hi : stored[i]? = some (k, u)) (w : M) :
    addPart stored (k, w) = stored.set i (k, u + w) := by
  induction stored generalizing i with
  | nil => cases hi
  | cons entry rest ih =>
    rw [List.map_cons, List.nodup_cons] at hnodup
    cases i with
    | zero =>
      rw [List.getElem?_cons_zero, Option.some.injEq] at hi
      subst hi
      exact if_pos rfl
    | succ i =>
      rw [List.getElem?_cons_succ] at hi
      have hne : entry.1 ≠ k := by
        rintro rfl
        exact hnodup.1 (List.mem_map.mpr ⟨_, List.mem_of_getElem? hi, rfl⟩)
      rw [addPart, if_neg hne, ih hnodup.2 hi]
      rfl

theorem forall₂_exists_left {R : α → β → Prop} {xs : List α} {ys : List β}
    (h : List.Forall₂ R xs ys) {y : β} (hy : y ∈ ys) : ∃ x ∈ xs, R x y := by
  induction h with
  | nil => cases hy
  | cons hr _ ih =>
    rcases List.mem_cons.mp hy with rfl | hy
    · exact ⟨_, List.mem_cons_self, hr⟩
    · obtain ⟨x, hx, hxy⟩ := ih hy
      exact ⟨x, List.mem_cons_of_mem _ hx, hxy⟩

theorem forall₂_exists_right {R : α → β → Prop} {xs : List α} {ys : List β}
    (h : List.Forall₂ R xs ys) {x : α} (hx : x ∈ xs) : ∃ y ∈ ys, R x y :=
  forall₂_exists_left h.flip hx

theorem forall₂_mem_left {R : α → β → Prop} {xs : List α} {ys : List β}
    (h : List.Forall₂ R xs ys) : List.Forall₂ (fun x y => x ∈ xs ∧ R x y) xs ys := by
  rw [List.forall₂_iff_zip] at h ⊢
  exact ⟨h.1, fun hab => ⟨(List.of_mem_zip hab).1, h.2 hab⟩⟩

theorem exists_forall₂ {R : α → β → Prop} {xs : List α} (h : ∀ x ∈ xs, ∃ y, R x y) :
    ∃ ys, List.Forall₂ R xs ys := by
  induction xs with
  | nil => exact ⟨[], .nil⟩
  | cons x xs ih =>
    rw [List.forall_mem_cons] at h
    obtain ⟨y, hy⟩ := h.1
    obtain ⟨ys, hys⟩ := ih h.2
    exact ⟨y :: ys, .cons hy hys⟩

theorem map_eq_of_forall₂ {γ : Type} {f : α → γ} {g : β → γ} {xs : List α} {ys : List β}
    (h : List.Forall₂ (fun x y => f x = g y) xs ys) : xs.map f = ys.map g := by
  rw [← List.forall₂_eq_eq_eq, List.forall₂_map_left_iff, List.forall₂_map_right_iff]
  exact h

theorem total_forall₂ {key : α → κ} {weight : α → M} {key' : β → κ} {weight' : β → M}
    {xs : List α} {ys : List β}
    (h : List.Forall₂ (fun x y => key x = key' y ∧ weight x = weight' y) xs ys) (k : κ) :
    total key weight xs k = total key' weight' ys k := by
  induction h with
  | nil => rfl
  | cons hxy _ ih => rw [total_cons, total_cons, hxy.1, hxy.2, ih]

theorem total_le_of_forall₂ [PartialOrder M] [IsOrderedAddMonoid M] {key : α → κ} {weight : α → M}
    {key' : β → κ} {weight' : β → M} {xs : List α} {ys : List β}
    (h : List.Forall₂ (fun x y => key x = key' y ∧ weight' y ≤ weight x) xs ys) (k : κ) :
    total key' weight' ys k ≤ total key weight xs k := by
  induction h with
  | nil => exact le_refl _
  | cons hxy _ ih =>
    rw [total_cons, total_cons, hxy.1]
    refine add_le_add ?_ ih
    split_ifs
    · exact hxy.2
    · exact le_refl _

theorem sum_map_single {ks : List κ} (hks : ks.Nodup) {k : κ} (hk : k ∈ ks) (w : M) :
    (ks.map fun k' => if k = k' then w else 0).sum = w := by
  induction ks with
  | nil => cases hk
  | cons k' ks ih =>
    rw [List.nodup_cons] at hks
    rw [List.map_cons, List.sum_cons]
    by_cases he : k = k'
    · subst he
      have hrest : (ks.map fun k' => if k = k' then w else 0).sum = 0 := by
        apply List.sum_eq_zero
        intro x hx
        obtain ⟨k', hk', rfl⟩ := List.mem_map.mp hx
        apply if_neg
        rintro rfl
        exact hks.1 hk'
      rw [if_pos rfl, hrest, add_zero]
    · rw [if_neg he, zero_add, ih hks.2]
      exact (List.mem_cons.mp hk).resolve_left he

theorem flatMap_filter_perm [DecidableEq α] (key : α → κ) {xs : List α} {ks : List κ}
    (hks : ks.Nodup) (h : ∀ x ∈ xs, key x ∈ ks) :
    (ks.flatMap fun k => xs.filter fun x => key x = k).Perm xs := by
  rw [List.perm_iff_count]
  intro x
  have hcount (k : κ) : (xs.filter fun x => key x = k).count x =
      if key x = k then xs.count x else 0 := by
    split_ifs with hk
    · exact List.count_filter (decide_eq_true hk)
    · exact List.count_eq_zero.mpr fun hx => hk (of_decide_eq_true (List.mem_filter.mp hx).2)
  rw [List.count_flatMap, Function.comp_def]
  simp only [hcount]
  by_cases hx : x ∈ xs
  · exact sum_map_single hks (h x hx) _
  · simp [List.count_eq_zero.mpr hx]

theorem sum_total (key : α → κ) (weight : α → M) {xs : List α} {ks : List κ} (hks : ks.Nodup)
    (h : ∀ x ∈ xs, key x ∈ ks) : (ks.map (total key weight xs)).sum = (xs.map weight).sum := by
  induction xs with
  | nil =>
    apply List.sum_eq_zero
    intro w hw
    obtain ⟨k, -, rfl⟩ := List.mem_map.mp hw
    rfl
  | cons x xs ih =>
    rw [List.forall_mem_cons] at h
    have hcons : total key weight (x :: xs) =
        fun k => (if key x = k then weight x else 0) + total key weight xs k := by
      funext k
      exact total_cons key weight x xs k
    rw [hcons, List.sum_map_add, sum_map_single hks h.1, ih h.2, List.map_cons, List.sum_cons]

theorem total_eq_sum {κ' : Type} [DecidableEq κ'] (key : α → κ) (weight : α → M) (g : κ → κ')
    {xs : List α} {ks : List κ} {k : κ'} (hks : ks.Nodup) (hg : ∀ v ∈ ks, g v = k)
    (h : ∀ x ∈ xs, g (key x) = k → key x ∈ ks) :
    total (fun x => g (key x)) weight xs k = (ks.map (total key weight xs)).sum := by
  have hmem : ∀ x ∈ xs.filter fun x => g (key x) = k, key x ∈ ks := by
    intro x hx
    rw [List.mem_filter, decide_eq_true_eq] at hx
    exact h x hx.1 hx.2
  rw [total, ← sum_total key weight hks hmem]
  congr 1
  apply List.map_congr_left
  intro v hv
  apply total_filter_key
  intro x _ hx
  rw [hx]
  exact decide_eq_true (hg v hv)

theorem total_comp_congr {κ' : Type} [DecidableEq κ'] {key : α → κ} {weight : α → M}
    {key' : β → κ} {weight' : β → M} {xs : List α} {ys : List β} (g : κ → κ') (k : κ')
    (h : ∀ v, g v = k → total key weight xs v = total key' weight' ys v) :
    total (fun x => g (key x)) weight xs k = total (fun y => g (key' y)) weight' ys k := by
  have hnodup := (xs.map key ++ ys.map key').nodup_dedup.filter fun v => decide (g v = k)
  have hg : ∀ v ∈ (xs.map key ++ ys.map key').dedup.filter fun v => g v = k, g v = k := by
    intro v hv
    exact of_decide_eq_true (List.mem_filter.mp hv).2
  rw [total_eq_sum key weight g hnodup hg, total_eq_sum key' weight' g hnodup hg]
  · congr 1
    apply List.map_congr_left
    intro v hv
    exact h v (hg v hv)
  · intro y hy hk
    rw [List.mem_filter, List.mem_dedup]
    exact ⟨List.mem_append_right _ (List.mem_map_of_mem hy), decide_eq_true hk⟩
  · intro x hx hk
    rw [List.mem_filter, List.mem_dedup]
    exact ⟨List.mem_append_left _ (List.mem_map_of_mem hx), decide_eq_true hk⟩

/-- The entries of a hash map in the order an iteration happens to visit them. -/
structure Enumerates {κ β : Type} [BEq κ] [Hashable κ] [EquivBEq κ] [LawfulHashable κ]
    (entries : List (κ × β)) (map : Std.ExtHashMap κ β) : Prop where
  nodup : entries.Nodup
  mem_iff : ∀ k v, (k, v) ∈ entries ↔ map[k]? = some v

namespace Enumerates

variable {ι ω : Type} [BEq ι] [Hashable ι] [LawfulBEq ι] [LawfulHashable ι]

theorem keys_nodup {map : Std.ExtHashMap ι ω} {order : List (ι × ω)} (h : Enumerates order map) :
    (order.map Prod.fst).Nodup := by
  refine List.Nodup.map_on ?_ h.nodup
  rintro ⟨k, v⟩ hv ⟨k', v'⟩ hv' hk
  dsimp only at hk
  subst hk
  have hget := (h.mem_iff k v).mp hv
  rw [(h.mem_iff k v').mp hv', Option.some.injEq] at hget
  rw [hget]

theorem mem_keys {map : Std.ExtHashMap ι ω} {order : List (ι × ω)} (h : Enumerates order map)
    (k : ι) : k ∈ order.map Prod.fst ↔ (map[k]?).isSome := by
  rw [List.mem_map, Option.isSome_iff_exists]
  constructor
  · rintro ⟨⟨k, v⟩, hmem, rfl⟩
    exact ⟨v, (h.mem_iff k v).mp hmem⟩
  · rintro ⟨v, hv⟩
    exact ⟨(k, v), (h.mem_iff k v).mpr hv, rfl⟩

theorem exists_order (map : Std.ExtHashMap ι ω) : ∃ order, Enumerates order map := by
  obtain ⟨inner⟩ := map
  induction inner using Std.ExtDHashMap.inductionOn with
  | mk m =>
    have hmem (k : ι) (v : ω) :
        (k, v) ∈ Std.DHashMap.Const.toList m ↔ Std.DHashMap.Const.get? m k = some v :=
      Std.DHashMap.Const.mem_toList_iff_get?_eq_some
    refine ⟨Std.DHashMap.Const.toList m, ?_, hmem⟩
    refine Std.DHashMap.Const.distinct_keys_toList.imp ?_
    rintro a b hab rfl
    simp at hab

end Enumerates

end PProfessor.KeyedSum
