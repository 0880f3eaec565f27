import PProfessor.HeapRelocation
import PProfessor.Interning

set_option autoImplicit false

/-!
# The string table over a run

A table that a constructor made stays, whatever is interned next, the list of the abstract
interning and a cache of the first index of each string.
-/
namespace PProfessor.Pprof.StringTable
open Heap Interning

/-- What the constructors make. -/
inductive Constructed : StringTable → Prop
  | new : Constructed new
  | fromStrings {strings : List String} {st : StringTable}
      (h : StringTable.fromStrings strings = .ok st) : Constructed st

theorem Constructed.built {st : StringTable} (h : Constructed st) : Built st := by
  cases h with
  | new => exact .new
  | fromStrings h => exact .fromStrings h

/-- `intern` does to the strings what the abstract interning does. -/
theorem Built.intern_eq {st : StringTable} (h : Built st) (s : String) :
    st.intern s = (UInt64.ofNat (Interning.intern st.strings s).1,
      ofStrings (Interning.intern st.strings s).2) := by
  conv_lhs => rw [h.eq_ofStrings]
  rw [intern_ofStrings, Interning.intern]
  cases st.strings.idxOf? s with
  | none => rfl
  | some n => rfl

theorem Built.internAll_eq {st : StringTable} (h : Built st) (names : List String) :
    Heap.internAll names st = ((Interning.internAll names st.strings).1.map UInt64.ofNat,
      ofStrings (Interning.internAll names st.strings).2) := by
  induction names generalizing st with
  | nil => exact Prod.ext rfl h.eq_ofStrings
  | cons s names ih =>
    have hstep := h.intern_eq s
    have hstrings : (st.intern s).2.strings = (Interning.intern st.strings s).2 := by
      rw [hstep]
      rfl
    have hrest := ih (.intern s h)
    rw [hstrings] at hrest
    rw [Heap.internAll, Interning.internAll]
    simp only [hrest, List.map_cons]
    rw [hstep]

theorem Built.internAll_built {st : StringTable} (h : Built st) (names : List String) :
    Built (Heap.internAll names st).2 := by
  induction names generalizing st with
  | nil => exact h
  | cons s names ih => exact ih (.intern s h)

theorem Built.internAll_strings {st : StringTable} (h : Built st) (names : List String) :
    (Heap.internAll names st).2.strings = (Interning.internAll names st.strings).2 := by
  rw [h.internAll_eq]
  rfl

/-- The cache of a table that a `Vec` can hold has the first index of each string. -/
theorem Built.indices_iff {st : StringTable} (h : Built st) (hfits : st.strings.length < 2 ^ 64)
    (s : String) (id : UInt64) : st.indices[s]? = some id ↔ FirstAt st.strings s id.toNat := by
  rw [h.canonical.2, firstIndex, Option.map_eq_some_iff]
  constructor
  · rintro ⟨n, hn, rfl⟩
    have hfirst := idxOf?_eq_some_iff.mp hn
    rwa [UInt64.toNat_ofNat_of_lt' (hfirst.lt_length.trans hfits)]
  · intro hfirst
    exact ⟨id.toNat, idxOf?_eq_some_iff.mpr hfirst, UInt64.ofNat_toNat⟩

theorem Built.answer_firstAt {st : StringTable} (h : Built st) {names : List String}
    (hfits : (Heap.internAll names st).2.strings.length < 2 ^ 64) {i : ℕ} {s : String}
    {id : UInt64} (hs : names[i]? = some s) (hid : (Heap.internAll names st).1[i]? = some id) :
    FirstAt (Heap.internAll names st).2.strings s id.toNat := by
  rw [h.internAll_strings] at hfits ⊢
  rw [h.internAll_eq] at hid
  obtain ⟨n, hn, rfl⟩ := List.getElem?_map ▸ hid |> Option.map_eq_some_iff.mp
  have hfirst := internAll_firstAt hs hn
  rwa [UInt64.toNat_ofNat_of_lt' (hfirst.lt_length.trans hfits)]

theorem Built.eq_of_strings {a b : StringTable} (ha : Built a) (hb : Built b)
    (h : a.strings = b.strings) : a = b := by
  rw [ha.eq_ofStrings, hb.eq_ofStrings, h]

/-- What holds of the table and the answers after the names have been interned. -/
structure Stable (st : StringTable) (names : List String) : Prop where
  kept : ∀ earlier later, names = earlier ++ later → ∀ (n : ℕ) (s : String),
    (Heap.internAll earlier st).2.strings[n]? = some s →
      (Heap.internAll names st).2.strings[n]? = some s
  blank : (Heap.internAll names st).2.strings[0]? = some ""
  lookup : ∀ (s : String) (id : UInt64), (Heap.internAll names st).2.indices[s]? = some id ↔
    FirstAt (Heap.internAll names st).2.strings s id.toNat
  answered : (Heap.internAll names st).1.length = names.length
  held : ∀ (i : ℕ) (s : String) (id : UInt64), names[i]? = some s →
    (Heap.internAll names st).1[i]? = some id →
      (Heap.internAll names st).2.strings[id.toNat]? = some s
  same : ∀ (i j : ℕ) (s t : String) (a b : UInt64), names[i]? = some s → names[j]? = some t →
    (Heap.internAll names st).1[i]? = some a → (Heap.internAll names st).1[j]? = some b →
      (a = b ↔ s = t)
  grows : ∀ earlier s later, names = earlier ++ s :: later →
    (Heap.internAll (earlier ++ [s]) st).2.strings =
      if s ∈ (Heap.internAll earlier st).2.strings then (Heap.internAll earlier st).2.strings
      else (Heap.internAll earlier st).2.strings ++ [s]
  equal : ∀ other, Built other → other.strings = (Heap.internAll names st).2.strings →
    other = (Heap.internAll names st).2

/-- Interning is stable, in tables that a `Vec` can hold. -/
theorem interning_stable {st : StringTable} (hst : Constructed st) (names : List String)
    (hfits : (Heap.internAll names st).2.strings.length < 2 ^ 64) : Stable st names := by
  have hbuilt := hst.built
  have hfinal := hbuilt.internAll_built names
  constructor
  case kept =>
    rintro earlier later rfl n s hs
    rw [hbuilt.internAll_strings] at hs ⊢
    rw [internAll_append]
    exact getElem?_of_extension (Interning.internAll_extends later _) hs
  case blank =>
    rw [← List.head?_eq_getElem?]
    exact hfinal.canonical.1
  case lookup => exact hfinal.indices_iff hfits
  case answered => rw [hbuilt.internAll_eq, List.length_map, internAll_length]
  case held => exact fun i s id hs hid => (hbuilt.answer_firstAt hfits hs hid).here
  case same =>
    intro i j s t a b hs ht ha hb
    have hiff := (hbuilt.answer_firstAt hfits hs ha).eq_iff (hbuilt.answer_firstAt hfits ht hb)
    rw [← hiff, UInt64.toNat_inj]
  case grows =>
    rintro earlier s later -
    rw [hbuilt.internAll_strings, hbuilt.internAll_strings, internAll_append]
    exact intern_list _ s
  case equal => exact fun other hother => hother.eq_of_strings hfinal

theorem interning_stable_duplicates : ∃ st, StringTable.fromStrings ["", "a", "a"] = .ok st ∧
    Stable st ["b", "a", "b"] := by
  have hok : StringTable.fromStrings ["", "a", "a"] = .ok (ofStrings ["", "a", "a"]) := rfl
  refine ⟨_, hok, interning_stable (.fromStrings hok) ["b", "a", "b"] ?_⟩
  rw [(Constructed.fromStrings hok).built.internAll_strings]
  decide

end PProfessor.Pprof.StringTable
