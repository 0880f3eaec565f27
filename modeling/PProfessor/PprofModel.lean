import Mathlib.Tactic
import PProfessor.Keys
import PProfessor.NumberedTable

set_option autoImplicit false

/-!
# The canonical pprof profile model

The message types of `src/pprof.rs` and its string table. `u64` and `i64` fields
are `UInt64` and `Int64`, a `Vec` is a `List`, and the private lookup cache is an
extensional hash map, so two tables are equal exactly when Rust's derived
`PartialEq` says so.
-/
namespace PProfessor.Pprof
open NumberedTable

inductive PprofError where
  | truncatedVarint
  | varintOverflow
  | fieldNumberZero
  | unsupportedWireType (wire : ℕ)
  | fieldLengthOverflow
  | truncatedField
  | invalidUtf8
  | invalidStringTable
  deriving DecidableEq, Repr

def PprofError.message : PprofError → String
  | .truncatedVarint => "truncated protobuf varint"
  | .varintOverflow => "protobuf varint overflow"
  | .fieldNumberZero => "invalid protobuf field number 0"
  | .unsupportedWireType wire => s!"unsupported protobuf wire type {wire}"
  | .fieldLengthOverflow => "protobuf field length overflow"
  | .truncatedField => "truncated protobuf field"
  | .invalidUtf8 => "pprof string table contains invalid UTF-8"
  | .invalidStringTable => "invalid pprof string table: index 0 must be empty"

/-- `str::as_bytes`. -/
def utf8 (s : String) : List UInt8 := s.toByteArray.data.toList

/-- `std::str::from_utf8`. -/
def fromUtf8 (data : List UInt8) : Option String := String.fromUTF8? ⟨data.toArray⟩

theorem fromUtf8_eq_some_iff (data : List UInt8) (s : String) :
    fromUtf8 data = some s ↔ data = utf8 s := by
  unfold fromUtf8 String.fromUTF8? utf8
  constructor
  · intro h
    split_ifs at h with hv
    cases h
    rfl
  · intro h
    have hb : (⟨data.toArray⟩ : ByteArray) = s.toByteArray := by
      apply ByteArray.ext
      simp [h]
    have hv : (⟨data.toArray⟩ : ByteArray).IsValidUTF8 := by rw [hb]; exact s.isValidUTF8
    rw [dif_pos hv, Option.some.injEq]
    exact String.toByteArray_inj.mp hb

theorem getElem?_of_extension {α : Type} {xs ys : List α} (h : xs <+: ys) {n : ℕ} {x : α}
    (hx : xs[n]? = some x) : ys[n]? = some x := by
  obtain ⟨rest, rfl⟩ := h
  rw [List.getElem?_append_left (List.getElem?_eq_some_iff.mp hx).choose, hx]

/-- `indices` is private in the source and every entry of it points at its own
string; `strings` only ever grows at its end. -/
structure StringTable where
  strings : List String
  indices : Std.ExtHashMap String UInt64
  sound : ∀ s i, indices[s]? = some i → ∃ n, strings[n]? = some s ∧ i = UInt64.ofNat n

instance : DecidableEq StringTable := fun a b =>
  decidable_of_iff (a.strings = b.strings ∧ a.indices = b.indices) (by
    cases a
    cases b
    simp)

def firstIndex (strings : List String) (s : String) : Option UInt64 :=
  (strings.idxOf? s).map UInt64.ofNat

namespace StringTable

theorem ext_iff' (a b : StringTable) :
    a = b ↔ a.strings = b.strings ∧ a.indices = b.indices := by
  cases a
  cases b
  simp

/-- The table `PprofProfile::decode` starts from. -/
def empty : StringTable := ⟨[], ∅, by simp⟩

/-- `strings.push` on a table whose cache is rebuilt later. -/
def push (st : StringTable) (s : String) : StringTable where
  strings := st.strings ++ [s]
  indices := st.indices
  sound := by
    intro t i h
    obtain ⟨n, hn, hi⟩ := st.sound t i h
    exact ⟨n, by rw [List.getElem?_append_left (List.getElem?_eq_some_iff.mp hn).choose, hn], hi⟩

def intern (st : StringTable) (s : String) : UInt64 × StringTable :=
  match st.indices[s]? with
  | some idx => (idx, st)
  | none =>
    let idx := UInt64.ofNat st.strings.length
    (idx,
      { strings := st.strings ++ [s]
        indices := st.indices.insert s idx
        sound := by
          intro t i h
          rw [Std.ExtHashMap.getElem?_insert] at h
          split_ifs at h with he
          · have hs : s = t := by simpa using he
            refine ⟨st.strings.length, ?_, (Option.some.inj h).symm⟩
            rw [← hs]
            exact List.getElem?_concat_length
          · exact (st.push s).sound t i h })

/-- Index 0 must be the empty string (pprof requirement). -/
def new : StringTable := (empty.intern "").2

/-- `entry(value).or_insert(index)` for each string, in order. -/
def indexFrom : List String → ℕ → Std.ExtHashMap String UInt64 → Std.ExtHashMap String UInt64
  | [], _, indices => indices
  | value :: rest, index, indices =>
    indexFrom rest (index + 1) (indices.insertIfNew value (UInt64.ofNat index))

theorem indexFrom_getElem? (strings : List String) (start : ℕ)
    (indices : Std.ExtHashMap String UInt64) (s : String) :
    (indexFrom strings start indices)[s]? =
      indices[s]?.or ((strings.idxOf? s).map fun n => UInt64.ofNat (start + n)) := by
  induction strings generalizing start indices with
  | nil => simp [indexFrom]
  | cons value rest ih =>
    rw [indexFrom, ih, Std.ExtHashMap.getElem?_insertIfNew, List.idxOf?_cons]
    by_cases he : value = s
    · subst he
      by_cases hm : value ∈ indices
      · simp [hm]
      · simp [hm]
    · have hf : (fun n => UInt64.ofNat (start + n)) ∘ (· + 1) =
          fun n => UInt64.ofNat (start + 1 + n) := by
        funext n
        rw [Function.comp_apply, Nat.add_right_comm, Nat.add_assoc]
      simp only [beq_iff_eq, he, false_and, ↓reduceIte, Option.map_map, hf]

theorem indexFrom_empty (strings : List String) (s : String) :
    (indexFrom strings 0 ∅)[s]? = firstIndex strings s := by
  rw [indexFrom_getElem?]
  simp [firstIndex]

theorem idxOf?_getElem? {strings : List String} {s : String} {n : ℕ}
    (h : strings.idxOf? s = some n) : strings[n]? = some s := by
  induction strings generalizing n with
  | nil => simp at h
  | cons value rest ih =>
    rw [List.idxOf?_cons] at h
    split_ifs at h with he
    · have hv : value = s := by simpa using he
      cases h
      simp [hv]
    · obtain ⟨m, hm, rfl⟩ := Option.map_eq_some_iff.mp h
      simpa using ih hm

def ofStrings (strings : List String) : StringTable where
  strings := strings
  indices := indexFrom strings 0 ∅
  sound := by
    intro s i h
    rw [indexFrom_empty] at h
    obtain ⟨n, hn, rfl⟩ := Option.map_eq_some_iff.mp h
    exact ⟨n, idxOf?_getElem? hn, rfl⟩

def fromStrings (strings : List String) : Except PprofError StringTable :=
  if strings.head?.all (fun value => value ≠ "") then .error .invalidStringTable
  else .ok (ofStrings strings)

theorem fromStrings_eq_ok_iff (strings : List String) (st : StringTable) :
    fromStrings strings = .ok st ↔ strings.head? = some "" ∧ st = ofStrings strings := by
  unfold fromStrings
  constructor
  · intro h
    split_ifs at h with hc
    cases h
    refine ⟨?_, rfl⟩
    cases hh : strings.head? with
    | none => simp [hh] at hc
    | some value => simpa [hh] using hc
  · rintro ⟨hh, rfl⟩
    rw [if_neg (by simp [hh])]

theorem eq_ofStrings {st : StringTable} (h : ∀ s, st.indices[s]? = firstIndex st.strings s) :
    st = ofStrings st.strings := by
  refine (ext_iff' _ _).mpr ⟨rfl, ?_⟩
  apply Std.ExtHashMap.ext_getElem?
  intro s
  rw [h]
  exact (indexFrom_empty st.strings s).symm

/-- The tables a program can build: `new` or `from_strings`, then any interns. -/
inductive Built : StringTable → Prop
  | new : Built new
  | fromStrings {strings : List String} {st : StringTable}
      (h : StringTable.fromStrings strings = .ok st) : Built st
  | intern {st : StringTable} (s : String) (h : Built st) : Built (st.intern s).2

theorem idxOf?_concat (strings : List String) (s t : String) :
    (strings ++ [s]).idxOf? t =
      (strings.idxOf? t).or (if s = t then some strings.length else none) := by
  induction strings with
  | nil =>
    by_cases h : s = t <;> simp [List.idxOf?_cons, h]
  | cons value rest ih =>
    rw [List.cons_append, List.idxOf?_cons, List.idxOf?_cons, ih]
    by_cases hv : value = t
    · simp [hv]
    · by_cases h : s = t
      · cases hr : rest.idxOf? t <;> simp [hv, h]
      · simp [hv, h]

theorem intern_indices {st : StringTable} (h : ∀ u, st.indices[u]? = firstIndex st.strings u)
    (s u : String) : (st.intern s).2.indices[u]? = firstIndex (st.intern s).2.strings u := by
  unfold StringTable.intern
  cases hs : st.indices[s]? with
  | some idx => exact h u
  | none =>
    have hn : st.strings.idxOf? s = none := by
      have := h s
      rw [hs] at this
      exact Option.map_eq_none_iff.mp this.symm
    simp only [Std.ExtHashMap.getElem?_insert, firstIndex, idxOf?_concat]
    by_cases he : s = u
    · subst he
      simp [hn]
    · simpa [he, firstIndex] using h u

/-- Building keeps the empty string first and the cache equal to the first
index of every string. -/
theorem Built.canonical {st : StringTable} (h : Built st) :
    st.strings.head? = some "" ∧ ∀ s, st.indices[s]? = firstIndex st.strings s := by
  induction h with
  | new =>
    refine ⟨by simp [StringTable.new, StringTable.intern, empty], ?_⟩
    exact intern_indices (fun u => by simp [empty, firstIndex]) ""
  | fromStrings h =>
    obtain ⟨hh, rfl⟩ := (fromStrings_eq_ok_iff _ _).mp h
    exact ⟨hh, indexFrom_empty _⟩
  | @intern t s _ ih =>
    refine ⟨?_, intern_indices ih.2 s⟩
    unfold StringTable.intern
    cases t.indices[s]? with
    | some idx => exact ih.1
    | none => simp [List.head?_append, ih.1]

theorem Built.eq_ofStrings {st : StringTable} (h : Built st) :
    st = ofStrings st.strings :=
  StringTable.eq_ofStrings h.canonical.2

theorem intern_ofStrings (strings : List String) (s : String) :
    (ofStrings strings).intern s =
      match strings.idxOf? s with
      | some n => (UInt64.ofNat n, ofStrings strings)
      | none => (UInt64.ofNat strings.length, ofStrings (strings ++ [s])) := by
  have hfirst : ∀ u, (ofStrings strings).indices[u]? = firstIndex strings u :=
    indexFrom_empty strings
  have hindices := intern_indices hfirst s
  have hs := hfirst s
  unfold intern at hindices ⊢
  rw [hs] at hindices ⊢
  unfold firstIndex at hindices ⊢
  cases hi : strings.idxOf? s with
  | some n => rfl
  | none =>
    rw [hi] at hindices
    exact congrArg (Prod.mk _) (eq_ofStrings hindices)

theorem intern_extends (st : StringTable) (s : String) :
    st.strings <+: (st.intern s).2.strings := by
  unfold intern
  cases st.indices[s]? with
  | some idx => exact List.prefix_refl _
  | none => exact List.prefix_append _ _

theorem intern_length_le (st : StringTable) (s : String) :
    (st.intern s).2.strings.length ≤ st.strings.length + 1 := by
  unfold intern
  cases st.indices[s]? with
  | some idx => exact Nat.le_succ _
  | none => simp

/-- The index `intern` returns holds the string, in any table a `Vec` can hold. -/
theorem intern_getElem? (st : StringTable) (s : String)
    (hlen : (st.intern s).2.strings.length < 2 ^ 64) :
    (st.intern s).2.strings[(st.intern s).1.toNat]? = some s := by
  unfold intern at hlen ⊢
  cases hs : st.indices[s]? with
  | some idx =>
    obtain ⟨n, hn, rfl⟩ := st.sound s idx hs
    rw [hs] at hlen
    have hlt : n < st.strings.length := (List.getElem?_eq_some_iff.mp hn).choose
    change st.strings[(UInt64.ofNat n).toNat]? = some s
    rw [UInt64.toNat_ofNat_of_lt' (lt_trans hlt hlen), hn]
  | none =>
    rw [hs] at hlen
    change (st.strings ++ [s]).length < 2 ^ 64 at hlen
    rw [List.length_append, List.length_singleton] at hlen
    change (st.strings ++ [s])[(UInt64.ofNat st.strings.length).toNat]? = some s
    rw [UInt64.toNat_ofNat_of_lt' (Nat.lt_of_succ_lt hlen)]
    exact List.getElem?_concat_length

end StringTable

structure ValueType where
  type : UInt64
  unit : UInt64
  deriving DecidableEq, Repr

structure Line where
  functionId : UInt64
  line : Int64
  column : Int64
  deriving DecidableEq, Repr

structure Location where
  id : UInt64
  mappingId : UInt64
  address : UInt64
  lines : List Line
  isFolded : Bool
  deriving DecidableEq, Repr

structure Mapping where
  id : UInt64
  memoryStart : UInt64
  memoryLimit : UInt64
  fileOffset : UInt64
  filename : UInt64
  buildId : UInt64
  hasFunctions : Bool
  hasFilenames : Bool
  hasLineNumbers : Bool
  hasInlineFrames : Bool
  deriving DecidableEq, Repr

structure Function where
  id : UInt64
  name : UInt64
  systemName : UInt64
  filename : UInt64
  startLine : Int64
  deriving DecidableEq, Repr

/-- Either `strIndex` (a string table index) or `num` should be non-zero, not both. -/
structure Label where
  key : UInt64
  strIndex : UInt64
  num : Int64
  numUnit : UInt64
  deriving DecidableEq, Repr

structure Sample where
  locationIds : List UInt64
  values : List Int64
  labels : List Label
  deriving DecidableEq, Repr

/-! The derived `Default` instances. -/

instance : Inhabited ValueType := ⟨⟨0, 0⟩⟩
instance : Inhabited Line := ⟨⟨0, 0, 0⟩⟩
instance : Inhabited Location := ⟨⟨0, 0, 0, [], false⟩⟩
instance : Inhabited Mapping := ⟨⟨0, 0, 0, 0, 0, 0, false, false, false, false⟩⟩
instance : Inhabited Function := ⟨⟨0, 0, 0, 0, 0⟩⟩
instance : Inhabited Label := ⟨⟨0, 0, 0, 0⟩⟩
instance : Inhabited Sample := ⟨⟨[], [], []⟩⟩

structure PprofProfile where
  strings : StringTable
  valueTypes : List ValueType
  samples : List Sample
  mappings : List Mapping
  locations : List Location
  functions : List Function
  timeNanos : Int64
  durationNanos : Int64
  periodType : ValueType
  period : Int64
  dropFrames : UInt64
  keepFrames : UInt64
  comments : List UInt64
  defaultSampleType : UInt64
  docUrl : UInt64
  deriving DecidableEq

/-- A profile with the given string table and every other field at its default. -/
def PprofProfile.withStrings (strings : StringTable) : PprofProfile :=
  { strings := strings, valueTypes := [], samples := [], mappings := [], locations := [],
    functions := [], timeNanos := 0, durationNanos := 0, periodType := default, period := 0,
    dropFrames := 0, keepFrames := 0, comments := [], defaultSampleType := 0, docUrl := 0 }

/-- An empty valid pprof profile with string table index 0 reserved. -/
def PprofProfile.new : PprofProfile := .withStrings .new

def addressIn (locations : List Location) (id : UInt64) : Option UInt64 :=
  (lookup Location.id locations id).map Location.address

theorem addressIn_of_extension {xs ys : List Location} (h : xs <+: ys) {id addr : UInt64}
    (hx : addressIn xs id = some addr) : addressIn ys id = some addr := by
  unfold addressIn at hx ⊢
  obtain ⟨l, hl, rfl⟩ := Option.map_eq_some_iff.mp hx
  rw [lookup_of_extension Location.id h hl]
  rfl

end PProfessor.Pprof
