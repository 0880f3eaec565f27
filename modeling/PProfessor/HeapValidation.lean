import Mathlib.Tactic
import PProfessor.Fallible
import PProfessor.PprofModel

set_option autoImplicit false

/-!
# Heap profile validation

`validate_profile` of `src/heap/mod.rs`, and what a heap profile that passes it
is known to satisfy. The errors of the comparison share the type, because both
functions return the same `anyhow::Result`.
-/
namespace PProfessor.Heap
open Fallible Pprof

inductive ProfileError where
  | emptyStringMissing
  | invalidStringIndex (id : UInt64)
  | duplicateOrZeroId
  | missingMapping
  | missingFunction
  | missingLocation
  | noSampleTypes
  | duplicateMetric
  | unsupportedMetric (name unit : String)
  | metricCount
  | incompatibleTypes
  | differentDomains
  | invalidKeyIndex
  | identifierOverflow
  | missingBaseMapping
  | missingBaseFunction
  | missingBaseLocation
  | differenceOverflow
  /-- A slice index out of bounds or a failed `unwrap`. -/
  | panic
  deriving DecidableEq, Repr

def ProfileError.message : ProfileError → String
  | .emptyStringMissing => "pprof string table must start with an empty string"
  | .invalidStringIndex id => s!"invalid pprof string index {id.toNat}"
  | .duplicateOrZeroId => "duplicate or zero pprof identifier"
  | .missingMapping => "missing pprof mapping"
  | .missingFunction => "missing pprof function"
  | .missingLocation => "missing pprof location"
  | .noSampleTypes => "heap profile has no sample types"
  | .duplicateMetric => "duplicate heap metric"
  | .unsupportedMetric name unit => "unsupported heap metric " ++ name ++ "/" ++ unit
  | .metricCount => "heap sample metric count does not match sample types"
  | .incompatibleTypes => "heap profiles have incompatible sample types"
  | .differentDomains => "cannot compare different heap domains"
  | .invalidKeyIndex => "invalid pprof string index"
  | .identifierOverflow => "pprof identifier overflow"
  | .missingBaseMapping => "missing base mapping"
  | .missingBaseFunction => "missing base function"
  | .missingBaseLocation => "missing base location"
  | .differenceOverflow => "heap difference overflows int64"
  | .panic => "index out of bounds"

/-- `ensure!`. -/
def require (p : Prop) [Decidable p] (e : ProfileError) : Except ProfileError Unit :=
  if p then .ok () else .error e

/-- `.context(..)?` on an option. -/
def orError {α : Type} (e : ProfileError) : Option α → Except ProfileError α
  | some a => .ok a
  | none => .error e

@[simp] theorem require_eq_ok_iff (p : Prop) [Decidable p] (e : ProfileError) (u : Unit) :
    require p e = .ok u ↔ p := by
  unfold require
  split_ifs with h <;> simp [h]

@[simp] theorem orError_eq_ok_iff {α : Type} (e : ProfileError) (x : Option α) (a : α) :
    orError e x = .ok a ↔ x = some a := by
  cases x <;> simp [orError]

/-- The closure `string` that reads a missing index as the empty string. -/
def stringAt (profile : PprofProfile) (id : UInt64) : String :=
  profile.strings.strings[id.toNat]?.getD ""

def validString (profile : PprofProfile) (id : UInt64) : Except ProfileError Unit :=
  require (id.toNat < profile.strings.strings.length) (.invalidStringIndex id)

def uniqueIds (ids : List UInt64) : Except ProfileError (Finset UInt64) := do
  let set := ids.toFinset
  require (set.card = ids.length ∧ 0 ∉ set) .duplicateOrZeroId
  .ok set

def supportedMetric (name unit : String) : Bool :=
  ((name = "alloc_space" ∨ name = "inuse_space") ∧ unit = "bytes") ∨
    ((name = "alloc_objects" ∨ name = "inuse_objects") ∧ unit = "count")

/-- The loop over `value_types`, with the names it has seen. -/
def checkMetrics (profile : PprofProfile) : List ValueType → Finset String →
    Except ProfileError Unit
  | [], _ => .ok ()
  | metric :: rest, seen => do
    validString profile metric.type
    validString profile metric.unit
    let name := stringAt profile metric.type
    require (name ∉ seen) .duplicateMetric
    let unit := stringAt profile metric.unit
    require (supportedMetric name unit) (.unsupportedMetric name unit)
    checkMetrics profile rest (insert name seen)

def validateProfile (profile : PprofProfile) : Except ProfileError Unit := do
  require (profile.strings.strings.head? = some "") .emptyStringMissing
  let mappings ← uniqueIds (profile.mappings.map Mapping.id)
  let functions ← uniqueIds (profile.functions.map Function.id)
  let locations ← uniqueIds (profile.locations.map Location.id)
  profile.mappings.forM fun mapping => do
    validString profile mapping.filename
    validString profile mapping.buildId
  profile.functions.forM fun function => do
    validString profile function.name
    validString profile function.systemName
    validString profile function.filename
  profile.locations.forM fun location => do
    require (location.mappingId = 0 ∨ location.mappingId ∈ mappings) .missingMapping
    location.lines.forM fun line => require (line.functionId ∈ functions) .missingFunction
  profile.samples.forM fun sample => do
    sample.locationIds.forM fun id => require (id ∈ locations) .missingLocation
    sample.labels.forM fun label => do
      validString profile label.key
      validString profile label.strIndex
      validString profile label.numUnit
  (profile.comments ++ [profile.defaultSampleType, profile.docUrl, profile.dropFrames,
    profile.keepFrames, profile.periodType.type, profile.periodType.unit]).forM
      (validString profile)
  require (profile.valueTypes ≠ []) .noSampleTypes
  checkMetrics profile profile.valueTypes ∅
  profile.samples.forM fun sample =>
    require (sample.values.length = profile.valueTypes.length) .metricCount

/-- Ids that a table may use. -/
def UniqueIds (ids : List UInt64) : Prop := ids.Nodup ∧ 0 ∉ ids

def InStrings (profile : PprofProfile) (id : UInt64) : Prop :=
  id.toNat < profile.strings.strings.length

/-- The name and unit of each column. -/
def types (profile : PprofProfile) : List (String × String) :=
  profile.valueTypes.map fun v => (stringAt profile v.type, stringAt profile v.unit)

/-- What `validate_profile` establishes. -/
structure Valid (profile : PprofProfile) : Prop where
  emptyFirst : profile.strings.strings.head? = some ""
  mappingIds : UniqueIds (profile.mappings.map Mapping.id)
  functionIds : UniqueIds (profile.functions.map Function.id)
  locationIds : UniqueIds (profile.locations.map Location.id)
  mapping : ∀ m ∈ profile.mappings, InStrings profile m.filename ∧ InStrings profile m.buildId
  function : ∀ f ∈ profile.functions, InStrings profile f.name ∧
    InStrings profile f.systemName ∧ InStrings profile f.filename
  location : ∀ l ∈ profile.locations,
    (l.mappingId = 0 ∨ l.mappingId ∈ profile.mappings.map Mapping.id) ∧
    ∀ line ∈ l.lines, line.functionId ∈ profile.functions.map Function.id
  sample : ∀ s ∈ profile.samples,
    (∀ id ∈ s.locationIds, id ∈ profile.locations.map Location.id) ∧
    ∀ label ∈ s.labels, InStrings profile label.key ∧ InStrings profile label.strIndex ∧
      InStrings profile label.numUnit
  header : ∀ id ∈ profile.comments ++ [profile.defaultSampleType, profile.docUrl,
    profile.dropFrames, profile.keepFrames, profile.periodType.type, profile.periodType.unit],
    InStrings profile id
  hasMetrics : profile.valueTypes ≠ []
  valueType : ∀ v ∈ profile.valueTypes, InStrings profile v.type ∧ InStrings profile v.unit
  names : ((types profile).map Prod.fst).Nodup
  supported : ∀ m ∈ types profile, supportedMetric m.1 m.2
  values : ∀ s ∈ profile.samples, s.values.length = profile.valueTypes.length

theorem uniqueIds_eq_ok_iff (ids : List UInt64) (set : Finset UInt64) :
    uniqueIds ids = .ok set ↔ UniqueIds ids ∧ set = ids.toFinset := by
  unfold uniqueIds UniqueIds
  rw [bind_eq_ok]
  have hc : ids.toFinset.card = ids.length ↔ ids.Nodup := by
    rw [List.card_toFinset]
    constructor
    · intro h
      rw [← List.dedup_eq_self]
      exact (List.dedup_sublist ids).eq_of_length h
    · intro h
      rw [h.dedup]
  simp only [require_eq_ok_iff, hc, List.mem_toFinset, Except.ok.injEq, exists_const]
  rw [eq_comm (a := set)]

theorem checkMetrics_eq_ok_iff (profile : PprofProfile) (types : List ValueType)
    (seen : Finset String) (u : Unit) :
    checkMetrics profile types seen = .ok u ↔
      (∀ v ∈ types, InStrings profile v.type ∧ InStrings profile v.unit) ∧
      (types.map fun v => stringAt profile v.type).Nodup ∧
      (∀ v ∈ types, stringAt profile v.type ∉ seen) ∧
      ∀ v ∈ types, supportedMetric (stringAt profile v.type) (stringAt profile v.unit) := by
  induction types generalizing seen with
  | nil => simp [checkMetrics]
  | cons metric rest ih =>
    simp only [checkMetrics, bind_eq_ok, validString, require_eq_ok_iff, exists_const, ih,
      InStrings, List.forall_mem_cons, List.map_cons, List.nodup_cons, Finset.mem_insert,
      not_or, List.mem_map, not_exists, not_and]
    constructor
    · rintro ⟨ht, hu, hs, hm, hi, hn, hf, hr⟩
      refine ⟨⟨⟨ht, hu⟩, hi⟩, ⟨fun v hv => (hf v hv).1, hn⟩, ⟨hs, fun v hv => (hf v hv).2⟩,
        ⟨hm, hr⟩⟩
    · rintro ⟨⟨⟨ht, hu⟩, hi⟩, ⟨hf, hn⟩, ⟨hs, hg⟩, ⟨hm, hr⟩⟩
      exact ⟨ht, hu, hs, hm, hi, hn, fun v hv => ⟨hf v hv, hg v hv⟩, hr⟩

theorem validateProfile_eq_ok_iff (profile : PprofProfile) (u : Unit) :
    validateProfile profile = .ok u ↔ Valid profile := by
  simp only [validateProfile, bind_eq_ok, forM_eq_ok_iff, require_eq_ok_iff, exists_const,
    uniqueIds_eq_ok_iff, checkMetrics_eq_ok_iff, validString]
  constructor
  · rintro ⟨he, _, ⟨hm, rfl⟩, _, ⟨hf, rfl⟩, _, ⟨hl, rfl⟩, hms, hfs, hls, hss, hh, hv,
      ⟨ht, hn, -, hu⟩,
      hc⟩
    simp only [List.mem_toFinset] at hls hss
    refine ⟨he, hm, hf, hl, hms, hfs, hls, hss, hh, hv, ht, ?_, ?_, hc⟩
    · simpa only [types, List.map_map, Function.comp_def] using hn
    · simpa only [types, List.forall_mem_map] using hu
  · intro h
    refine ⟨h.emptyFirst, _, ⟨h.mappingIds, rfl⟩, _, ⟨h.functionIds, rfl⟩, _,
      ⟨h.locationIds, rfl⟩, h.mapping, h.function, ?_, ?_, h.header, h.hasMetrics,
      ⟨h.valueType, ?_, by simp, ?_⟩, h.values⟩
    · simpa only [List.mem_toFinset] using h.location
    · intro s hs
      obtain ⟨hids, hlabels⟩ := h.sample s hs
      exact ⟨by simpa only [List.mem_toFinset] using hids, hlabels⟩
    · simpa only [types, List.map_map, Function.comp_def] using h.names
    · simpa only [types, List.forall_mem_map] using h.supported

theorem Valid.types_nodup {profile : PprofProfile} (h : Valid profile) :
    (types profile).Nodup := h.names.of_map _

end PProfessor.Heap
