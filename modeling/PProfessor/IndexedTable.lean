import PProfessor.Keys
import PProfessor.NumberedTable

set_option autoImplicit false

/-!
# Tables with an index

A table without duplicates that only grows at its end, beside a hash map from the
key of each entry to the number of the entry.
-/
namespace PProfessor.IndexedTable
open NumberedTable

variable {α κ ι : Type} [BEq κ] [LawfulBEq κ] [Hashable κ] [LawfulHashable κ]

structure Indexes (number : ℕ → ι) (key : α → κ) (xs : List α) (map : Std.ExtHashMap κ ι) :
    Prop where
  sound : ∀ (k : κ) (i : ι), map[k]? = some i → ∃ n x, xs[n]? = some x ∧ key x = k ∧ number n = i
  complete : ∀ (n : ℕ) (x : α), xs[n]? = some x → map[key x]? = some (number n)

namespace Indexes

variable {number : ℕ → ι} {key : α → κ} {xs : List α} {map : Std.ExtHashMap κ ι}

theorem nil : Indexes number key ([] : List α) (∅ : Std.ExtHashMap κ ι) :=
  ⟨by simp, by simp⟩

theorem congr {key' : α → κ} (h : Indexes number key xs map) (hk : ∀ x ∈ xs, key' x = key x) :
    Indexes number key' xs map := by
  constructor
  · intro k i hi
    obtain ⟨n, x, hx, hkey, hn⟩ := h.sound k i hi
    exact ⟨n, x, hx, (hk x (List.mem_of_getElem? hx)).trans hkey, hn⟩
  · intro n x hx
    rw [hk x (List.mem_of_getElem? hx)]
    exact h.complete n x hx

theorem key_ne (h : Indexes number key xs map) {k : κ} (hk : map[k]? = none) :
    ∀ x ∈ xs, key x ≠ k := by
  rintro x hx rfl
  obtain ⟨n, hn⟩ := List.mem_iff_getElem?.mp hx
  rw [h.complete n x hn] at hk
  cases hk

theorem insert (h : Indexes number key xs map) {x : α} {k : κ} (hk : map[k]? = none)
    (hx : key x = k) : Indexes number key (xs ++ [x]) (map.insert k (number xs.length)) := by
  subst hx
  constructor
  · intro k' i hi
    rw [Std.ExtHashMap.getElem?_insert] at hi
    split_ifs at hi with he
    · exact ⟨xs.length, x, List.getElem?_concat_length, LawfulBEq.eq_of_beq he,
        Option.some.inj hi⟩
    · obtain ⟨n, y, hy, hkey, hn⟩ := h.sound k' i hi
      have hlt := (List.getElem?_eq_some_iff.mp hy).choose
      exact ⟨n, y, by rw [List.getElem?_append_left hlt, hy], hkey, hn⟩
  · intro n y hy
    rcases Nat.lt_trichotomy n xs.length with hn | rfl | hn
    · rw [List.getElem?_append_left hn] at hy
      have hne : key x ≠ key y := fun he => h.key_ne hk y (List.mem_of_getElem? hy) he.symm
      rw [Std.ExtHashMap.getElem?_insert, if_neg (by simpa using hne)]
      exact h.complete n y hy
    · rw [List.getElem?_concat_length, Option.some.injEq] at hy
      subst hy
      rw [Std.ExtHashMap.getElem?_insert, if_pos BEq.rfl]
    · rw [List.getElem?_eq_none (by simp; omega)] at hy
      cases hy

theorem set (h : Indexes number key xs map) {n : ℕ} {x y : α} (hx : xs[n]? = some x)
    (hy : key y = key x) : Indexes number key (xs.set n y) map := by
  have hlt := (List.getElem?_eq_some_iff.mp hx).choose
  constructor
  · intro k i hi
    obtain ⟨m, z, hz, hkey, hm⟩ := h.sound k i hi
    by_cases hmn : n = m
    · subst hmn
      rw [hx, Option.some.injEq] at hz
      subst hz
      exact ⟨n, y, List.getElem?_set_self hlt, hy.trans hkey, hm⟩
    · exact ⟨m, z, by rw [List.getElem?_set_ne hmn, hz], hkey, hm⟩
  · intro m z hz
    by_cases hmn : n = m
    · subst hmn
      rw [List.getElem?_set_self hlt, Option.some.injEq] at hz
      rw [← hz, hy]
      exact h.complete n x hx
    · rw [List.getElem?_set_ne hmn] at hz
      exact h.complete m z hz

theorem number_eq (h : Indexes number key xs map) {m n : ℕ} {x y : α} (hx : xs[m]? = some x)
    (hy : xs[n]? = some y) (hk : key x = key y) : number m = number n := by
  have hm := h.complete m x hx
  rw [hk, h.complete n y hy, Option.some.injEq] at hm
  exact hm.symm

/-- The map is the inverse of the table, where `position` tells the number of an entry. -/
theorem getElem?_eq_some_iff (h : Indexes number key xs map) {position : ι → ℕ}
    (hposition : ∀ n < xs.length, position (number n) = n)
    (hnumber : ∀ i, position i < xs.length → number (position i) = i) (k : κ) (i : ι) :
    map[k]? = some i ↔ xs[position i]?.map key = some k := by
  rw [Option.map_eq_some_iff]
  constructor
  · intro hi
    obtain ⟨n, x, hx, hkey, rfl⟩ := h.sound k i hi
    rw [hposition n (List.getElem?_eq_some_iff.mp hx).choose]
    exact ⟨x, hx, hkey⟩
  · rintro ⟨x, hx, rfl⟩
    have hi := h.complete _ x hx
    rwa [hnumber i (List.getElem?_eq_some_iff.mp hx).choose] at hi

theorem keys_nodup (h : Indexes number key xs map)
    (hnumber : ∀ m < xs.length, ∀ n < xs.length, number m = number n → m = n) :
    (xs.map key).Nodup := by
  rw [List.nodup_iff_injective_getElem]
  intro i j hij
  have hi : i.val < xs.length := by simpa using i.isLt
  have hj : j.val < xs.length := by simpa using j.isLt
  simp only [List.getElem_map] at hij
  exact Fin.ext (hnumber _ hi _ hj (h.number_eq (List.getElem?_eq_getElem hi)
    (List.getElem?_eq_getElem hj) hij))

end Indexes

def nextId (n : ℕ) : UInt64 := UInt64.ofNat (n + 1)

variable {id : α → UInt64} {key : α → κ} {xs : List α} {map : Std.ExtHashMap κ UInt64}

theorem nextId_eq (h : Numbered id xs) {n : ℕ} {x : α} (hx : xs[n]? = some x) :
    nextId n = id x := by
  rw [nextId, ← h n x hx, UInt64.ofNat_toNat]

theorem Indexes.lookup_of_some (h : Indexes nextId key xs map) (hn : Numbered id xs) {k : κ}
    {i : UInt64} (hi : map[k]? = some i) : ∃ x, lookup id xs i = some x ∧ key x = k := by
  obtain ⟨n, x, hx, hk, rfl⟩ := h.sound k i hi
  rw [nextId_eq hn hx]
  exact ⟨x, hn.lookup_eq (List.mem_of_getElem? hx), hk⟩

theorem Indexes.getElem?_eq_some_iff_lookup (h : Indexes nextId key xs map) (hn : Numbered id xs)
    (k : κ) (i : UInt64) : map[k]? = some i ↔ (lookup id xs i).map key = some k := by
  rw [Option.map_eq_some_iff]
  constructor
  · exact h.lookup_of_some hn
  · rintro ⟨x, hx, rfl⟩
    obtain ⟨hmem, rfl⟩ := lookup_eq_some id hx
    obtain ⟨n, hn'⟩ := List.mem_iff_getElem?.mp hmem
    rw [← nextId_eq hn hn']
    exact h.complete n x hn'

theorem Indexes.inj (h : Indexes nextId key xs map) (hn : Numbered id xs) {x y : α} (hx : x ∈ xs)
    (hy : y ∈ xs) (hk : key x = key y) : x = y := by
  obtain ⟨m, hm⟩ := List.mem_iff_getElem?.mp hx
  obtain ⟨n, hn'⟩ := List.mem_iff_getElem?.mp hy
  have hnum := h.number_eq hm hn' hk
  rw [nextId_eq hn hm, nextId_eq hn hn'] at hnum
  exact hn.inj hx hy hnum

end PProfessor.IndexedTable
