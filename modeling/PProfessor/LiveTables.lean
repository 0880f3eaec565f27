import PProfessor.IndexedTable
import PProfessor.LiveAccumulator

set_option autoImplicit false

/-!
# The tables of the live accumulator

What a sample says apart from its ids, and what the loops over the header, the
mappings, the functions and the locations of a delta do to the accumulated tables.
-/
namespace PProfessor.Kit
open Fallible IndexedTable NumberedTable Pprof

namespace DecodedProfile

/-- What `string(at:)` returns when it does not trap. -/
def text (d : DecodedProfile) (index : UInt64) : String := d.stringTable[index.toNat]?.getD ""

theorem string_eq_ok {d : DecodedProfile} {index : UInt64} (h : index.toNat < 2 ^ 63) :
    d.string index = .ok (d.text index) := by
  unfold string text
  rw [if_neg (by omega)]
  split_ifs with hout
  · rw [List.getElem?_eq_none hout]
    rfl
  · rw [List.getElem?_eq_getElem (by omega)]
    rfl

/-- The string tables, mappings, functions and locations of `d` are prefixes of
those of `d'`. -/
structure Prefix (d d' : DecodedProfile) : Prop where
  strings : d.stringTable <+: d'.stringTable
  mappings : d.mappings <+: d'.mappings
  functions : d.functions <+: d'.functions
  locations : d.locations <+: d'.locations

theorem Prefix.refl (d : DecodedProfile) : d.Prefix d :=
  ⟨List.prefix_refl _, List.prefix_refl _, List.prefix_refl _, List.prefix_refl _⟩

theorem Prefix.trans {a b c : DecodedProfile} (h : a.Prefix b) (h' : b.Prefix c) : a.Prefix c :=
  ⟨h.strings.trans h'.strings, h.mappings.trans h'.mappings, h.functions.trans h'.functions,
    h.locations.trans h'.locations⟩

def HasString (d : DecodedProfile) (index : UInt64) : Prop := index.toNat < d.stringTable.length

theorem HasString.of_extension {d d' : DecodedProfile} {index : UInt64} (h : d.HasString index)
    (hp : d.stringTable <+: d'.stringTable) : d'.HasString index :=
  lt_of_lt_of_le h hp.length_le

theorem text_of_extension {d d' : DecodedProfile} (hp : d.stringTable <+: d'.stringTable)
    {index : UInt64} (h : d.HasString index) : d'.text index = d.text index := by
  unfold text
  rw [List.getElem?_eq_getElem h, getElem?_of_extension hp (List.getElem?_eq_getElem h)]

end DecodedProfile

structure LineView where
  function : FunctionKey
  line : Int64
  column : Int64
  deriving DecidableEq

structure LocationView where
  mapping : Option MappingKey
  address : UInt64
  lines : List LineView
  isFolded : Bool
  deriving DecidableEq

structure LabelView where
  key : String
  str : String
  num : Int64
  unit : String
  deriving DecidableEq

structure SampleView where
  stackLocations : List LocationView
  labels : List LabelView
  deriving DecidableEq

section
variable (canon : String → String) (d : DecodedProfile)

def mappingContent (m : Mapping) : MappingKey :=
  ⟨canon (d.text m.buildId), canon (d.text m.filename), m.memoryStart, m.memoryLimit,
    m.fileOffset⟩

def functionContent (f : Function) : FunctionKey :=
  ⟨canon (d.text f.name), canon (d.text f.systemName), canon (d.text f.filename), f.startLine⟩

def lineView (line : Line) : Option LineView :=
  (lookup Function.id d.functions line.functionId).map fun f =>
    ⟨functionContent canon d f, line.line, line.column⟩

def locationView (l : Location) : LocationView :=
  ⟨(lookup Mapping.id d.mappings l.mappingId).map (mappingContent canon d), l.address,
    l.lines.filterMap (lineView canon d), l.isFolded⟩

def stackView (ids : List UInt64) : List LocationView :=
  ids.filterMap fun id => (lookup Location.id d.locations id).map (locationView canon d)

def optionalText (index : UInt64) : String :=
  if index = 0 then canon "" else canon (d.text index)

def labelView (label : Label) : LabelView :=
  ⟨canon (d.text label.key), optionalText canon d label.strIndex, label.num,
    optionalText canon d label.numUnit⟩

def sampleView (s : Sample) : SampleView :=
  ⟨stackView canon d s.locationIds, s.labels.map (labelView canon d)⟩

end

structure MappingIn (d : DecodedProfile) (m : Mapping) : Prop where
  filename : d.HasString m.filename
  buildId : d.HasString m.buildId

structure FunctionIn (d : DecodedProfile) (f : Function) : Prop where
  name : d.HasString f.name
  systemName : d.HasString f.systemName
  filename : d.HasString f.filename

structure LocationIn (d : DecodedProfile) (l : Location) : Prop where
  mapping : l.mappingId = 0 ∨
    ∃ m, lookup Mapping.id d.mappings l.mappingId = some m ∧ MappingIn d m
  lines : ∀ line ∈ l.lines,
    ∃ f, lookup Function.id d.functions line.functionId = some f ∧ FunctionIn d f

structure LabelIn (d : DecodedProfile) (label : Label) : Prop where
  key : d.HasString label.key
  str : d.HasString label.strIndex
  unit : d.HasString label.numUnit

structure SampleIn (d : DecodedProfile) (s : Sample) : Prop where
  locations : ∀ id ∈ s.locationIds,
    ∃ l, lookup Location.id d.locations id = some l ∧ LocationIn d l
  labels : ∀ label ∈ s.labels, LabelIn d label

section
variable {d d' : DecodedProfile} (canon : String → String)

theorem MappingIn.of_extension {m : Mapping} (h : MappingIn d m)
    (hp : d.stringTable <+: d'.stringTable) : MappingIn d' m :=
  ⟨h.filename.of_extension hp, h.buildId.of_extension hp⟩

theorem mappingContent_of_extension (hp : d.stringTable <+: d'.stringTable) {m : Mapping}
    (h : MappingIn d m) : mappingContent canon d' m = mappingContent canon d m := by
  unfold mappingContent
  rw [DecodedProfile.text_of_extension hp h.buildId, DecodedProfile.text_of_extension hp h.filename]

theorem FunctionIn.of_extension {f : Function} (h : FunctionIn d f)
    (hp : d.stringTable <+: d'.stringTable) : FunctionIn d' f :=
  ⟨h.name.of_extension hp, h.systemName.of_extension hp, h.filename.of_extension hp⟩

theorem functionContent_of_extension (hp : d.stringTable <+: d'.stringTable) {f : Function}
    (h : FunctionIn d f) : functionContent canon d' f = functionContent canon d f := by
  unfold functionContent
  rw [DecodedProfile.text_of_extension hp h.name, DecodedProfile.text_of_extension hp h.systemName,
    DecodedProfile.text_of_extension hp h.filename]

variable (hp : d.Prefix d')
include hp

theorem LocationIn.of_extension {l : Location} (h : LocationIn d l) : LocationIn d' l := by
  constructor
  · refine h.mapping.imp id ?_
    rintro ⟨m, hm, hin⟩
    exact ⟨m, lookup_of_extension _ hp.mappings hm, hin.of_extension hp.strings⟩
  · intro line hline
    obtain ⟨f, hf, hin⟩ := h.lines line hline
    exact ⟨f, lookup_of_extension _ hp.functions hf, hin.of_extension hp.strings⟩

theorem locationView_of_extension (hz : lookup Mapping.id d'.mappings 0 = none) {l : Location}
    (h : LocationIn d l) : locationView canon d' l = locationView canon d l := by
  have hz' : lookup Mapping.id d.mappings 0 = none := by
    cases hl : lookup Mapping.id d.mappings 0 with
    | none => rfl
    | some m => rw [lookup_of_extension _ hp.mappings hl] at hz; cases hz
  unfold locationView
  congr 1
  · rcases h.mapping with h0 | ⟨m, hm, hin⟩
    · rw [h0, hz, hz']
      rfl
    · rw [hm, lookup_of_extension _ hp.mappings hm, Option.map_some, Option.map_some,
        mappingContent_of_extension canon hp.strings hin]
  · apply List.filterMap_congr
    intro line hline
    obtain ⟨f, hf, hin⟩ := h.lines line hline
    unfold lineView
    rw [hf, lookup_of_extension _ hp.functions hf, Option.map_some, Option.map_some,
      functionContent_of_extension canon hp.strings hin]

theorem LabelIn.of_extension {label : Label} (h : LabelIn d label) : LabelIn d' label :=
  ⟨h.key.of_extension hp.strings, h.str.of_extension hp.strings, h.unit.of_extension hp.strings⟩

theorem labelView_of_extension {label : Label} (h : LabelIn d label) :
    labelView canon d' label = labelView canon d label := by
  unfold labelView optionalText
  rw [DecodedProfile.text_of_extension hp.strings h.key,
    DecodedProfile.text_of_extension hp.strings h.str,
    DecodedProfile.text_of_extension hp.strings h.unit]

theorem SampleIn.of_extension {s : Sample} (h : SampleIn d s) : SampleIn d' s := by
  refine ⟨fun id hid => ?_, fun label hl => (h.labels label hl).of_extension hp⟩
  obtain ⟨l, hl, hin⟩ := h.locations id hid
  exact ⟨l, lookup_of_extension _ hp.locations hl, hin.of_extension hp⟩

theorem sampleView_of_extension (hz : lookup Mapping.id d'.mappings 0 = none) {s : Sample}
    (h : SampleIn d s) : sampleView canon d' s = sampleView canon d s := by
  unfold sampleView stackView
  congr 1
  · apply List.filterMap_congr
    intro id hid
    obtain ⟨l, hl, hin⟩ := h.locations id hid
    rw [hl, lookup_of_extension _ hp.locations hl, Option.map_some, Option.map_some,
      locationView_of_extension canon hp hz hin]
  · apply List.map_congr_left
    exact fun label hl => labelView_of_extension canon hp (h.labels label hl)

end

/-- `Int(_:)` converts the index. -/
abbrev Converts (index : UInt64) : Prop := index.toNat < 2 ^ 63

structure HeaderConverts (d : DecodedProfile) : Prop where
  sampleTypes : ∀ vt ∈ d.sampleTypes, Converts vt.type ∧ Converts vt.unit
  periodType : ∀ vt, d.periodType = some vt → Converts vt.type ∧ Converts vt.unit
  defaultSampleType : Converts d.defaultSampleType
  comments : ∀ c ∈ d.comments, Converts c
  dropFrames : Converts d.dropFrames
  keepFrames : Converts d.keepFrames
  docURL : Converts d.docURL

structure FunctionConverts (f : Function) : Prop where
  name : Converts f.name
  systemName : Converts f.systemName
  filename : Converts f.filename

structure LabelConverts (label : Label) : Prop where
  key : Converts label.key
  str : Converts label.strIndex
  unit : Converts label.numUnit

structure BodyConverts (d : DecodedProfile) : Prop where
  mappings : ∀ m ∈ d.mappings, Converts m.buildId ∧ Converts m.filename
  functions : ∀ l ∈ d.locations, ∀ line ∈ l.lines, ∀ f,
    lookup Function.id d.functions line.functionId = some f → FunctionConverts f
  labels : ∀ s ∈ d.samples, ∀ label ∈ s.labels, LabelConverts label

namespace LiveProfileAccumulator

def entries (acc : LiveProfileAccumulator) : ℕ :=
  acc.profile.stringTable.length + acc.profile.mappings.length + acc.profile.functions.length +
    acc.profile.locations.length

theorem countID_returns {n : ℕ} (h : n < 2 ^ 63) :
    Returns (fun id => id = UInt64.ofNat n) (countID n) :=
  ⟨UInt64.ofNat n, if_pos h, rfl⟩

/-- The string table starts with the empty string and is indexed, and there is
room for `n` more entries. -/
structure Strings (canon : String → String) (n : ℕ) (acc : LiveProfileAccumulator) : Prop where
  empty : acc.profile.stringTable[0]? = some ""
  index : Indexes UInt64.ofNat canon acc.profile.stringTable acc.stringIDs
  room : acc.entries + n < 2 ^ 63

structure SameTables (a b : LiveProfileAccumulator) : Prop where
  sampleTypes : b.profile.sampleTypes = a.profile.sampleTypes
  mappings : b.profile.mappings = a.profile.mappings
  functions : b.profile.functions = a.profile.functions
  locations : b.profile.locations = a.profile.locations
  samples : b.profile.samples = a.profile.samples
  mappingIDs : b.mappingIDs = a.mappingIDs
  functionIDs : b.functionIDs = a.functionIDs
  locationIDs : b.locationIDs = a.locationIDs
  sampleIndexes : b.sampleIndexes = a.sampleIndexes

theorem SameTables.refl (a : LiveProfileAccumulator) : SameTables a a :=
  ⟨rfl, rfl, rfl, rfl, rfl, rfl, rfl, rfl, rfl⟩

theorem SameTables.trans {a b c : LiveProfileAccumulator} (h : SameTables a b)
    (h' : SameTables b c) : SameTables a c :=
  ⟨h'.sampleTypes.trans h.sampleTypes, h'.mappings.trans h.mappings,
    h'.functions.trans h.functions, h'.locations.trans h.locations, h'.samples.trans h.samples,
    h'.mappingIDs.trans h.mappingIDs, h'.functionIDs.trans h.functionIDs,
    h'.locationIDs.trans h.locationIDs, h'.sampleIndexes.trans h.sampleIndexes⟩

/-- A step that only interns; it leaves room for `n` more entries. -/
structure Interns (canon : String → String) (n : ℕ) (acc acc' : LiveProfileAccumulator) :
    Prop where
  strings : Strings canon n acc'
  grows : acc.profile.stringTable <+: acc'.profile.stringTable
  same : SameTables acc acc'

section
variable {canon : String → String} {m n : ℕ} {acc acc' : LiveProfileAccumulator}

theorem Strings.mono (h : Strings canon m acc) (hle : n ≤ m) : Strings canon n acc :=
  ⟨h.empty, h.index, by have := h.room; omega⟩

theorem Strings.of_eq {k : ℕ} (h : Strings canon (n + k) acc)
    (hstrings : acc'.profile.stringTable = acc.profile.stringTable)
    (hids : acc'.stringIDs = acc.stringIDs) (hentries : acc'.entries ≤ acc.entries + k) :
    Strings canon n acc' := by
  refine ⟨hstrings ▸ h.empty, ?_, ?_⟩
  · rw [hstrings, hids]
    exact h.index
  · have := h.room
    omega

theorem Strings.text_zero (h : Strings canon n acc) : acc.profile.text 0 = "" := by
  change acc.profile.stringTable[0]?.getD "" = ""
  rw [h.empty]
  rfl

theorem Strings.index_inj (h : Strings canon n acc) {i j : UInt64} (hi : acc.profile.HasString i)
    (hj : acc.profile.HasString j)
    (hij : canon (acc.profile.text i) = canon (acc.profile.text j)) : i = j := by
  unfold DecodedProfile.text at hij
  rw [List.getElem?_eq_getElem hi, List.getElem?_eq_getElem hj] at hij
  have hnum := h.index.number_eq (List.getElem?_eq_getElem hi) (List.getElem?_eq_getElem hj) hij
  rwa [UInt64.ofNat_toNat, UInt64.ofNat_toNat] at hnum

theorem Interns.refl (h : Strings canon n acc) : Interns canon n acc acc :=
  ⟨h, List.prefix_refl _, .refl _⟩

theorem Interns.trans {acc'' : LiveProfileAccumulator} (h : Interns canon m acc acc')
    (h' : Interns canon n acc' acc'') : Interns canon n acc acc'' :=
  ⟨h'.strings, h.grows.trans h'.grows, h.same.trans h'.same⟩

theorem intern_returns (h : Strings canon (n + 1) acc) (value : String) :
    Returns (fun r => Interns canon n acc r.2 ∧ r.2.profile.HasString r.1 ∧
      canon (r.2.profile.text r.1) = canon value) (acc.intern canon value) := by
  have hroom := h.room
  unfold intern
  cases hs : acc.stringIDs[canon value]? with
  | some existing =>
    obtain ⟨i, s, hget, hc, hi⟩ := h.index.sound _ _ hs
    have hlt := (List.getElem?_eq_some_iff.mp hget).choose
    have hi63 : i < 2 ^ 63 := by
      unfold entries at hroom
      omega
    have hnat : existing.toNat = i := by
      rw [← hi, UInt64.toNat_ofNat_of_lt' (lt_trans hi63 (by norm_num))]
    refine .of_ok ⟨.refl (h.mono (Nat.le_succ n)), ?_, ?_⟩
    · exact hnat.trans_lt hlt
    · rw [DecodedProfile.text, hnat, hget]
      exact hc
  | none =>
    have hlt : acc.profile.stringTable.length < 2 ^ 63 := by
      unfold entries at hroom
      omega
    refine (countID_returns hlt).bind fun id hid => .of_ok ?_
    subst hid
    have hnat : (UInt64.ofNat acc.profile.stringTable.length).toNat =
        acc.profile.stringTable.length :=
      UInt64.toNat_ofNat_of_lt' (lt_trans hlt (by norm_num))
    have hget : (acc.profile.stringTable ++ [value])[(UInt64.ofNat
        acc.profile.stringTable.length).toNat]? = some value := by
      rw [hnat]
      exact List.getElem?_concat_length
    refine ⟨⟨⟨?_, h.index.insert hs rfl, ?_⟩, List.prefix_append _ _,
      ⟨rfl, rfl, rfl, rfl, rfl, rfl, rfl, rfl, rfl⟩⟩,
      (List.getElem?_eq_some_iff.mp hget).choose, ?_⟩
    · exact getElem?_of_extension (List.prefix_append _ _) h.empty
    · change (acc.profile.stringTable ++ [value]).length + acc.profile.mappings.length +
        acc.profile.functions.length + acc.profile.locations.length + n < 2 ^ 63
      unfold entries at hroom
      rw [List.length_append, List.length_singleton]
      omega
    · change canon ((acc.profile.stringTable ++ [value])[_]?.getD "") = canon value
      rw [hget]
      rfl

variable {delta : DecodedProfile}

theorem internAt_returns (h : Strings canon (n + 1) acc) {index : UInt64} (hi : Converts index) :
    Returns (fun r => Interns canon n acc r.2 ∧ r.2.profile.HasString r.1 ∧
      canon (r.2.profile.text r.1) = canon (delta.text index))
      (acc.internAt canon delta index) := by
  unfold internAt
  rw [DecodedProfile.string_eq_ok hi]
  exact intern_returns h _

theorem internUnlessZero_returns (h : Strings canon (n + 1) acc) {index : UInt64}
    (hi : Converts index) :
    Returns (fun r => Interns canon n acc r.2 ∧ r.2.profile.HasString r.1 ∧
      optionalText canon r.2.profile r.1 = optionalText canon delta index)
      (acc.internUnlessZero canon delta index) := by
  unfold internUnlessZero
  split_ifs with hz
  · refine .of_ok ⟨.refl (h.mono (Nat.le_succ n)), ?_, ?_⟩
    · exact (List.getElem?_eq_some_iff.mp h.empty).choose
    · rw [optionalText, if_pos rfl, hz, optionalText, if_pos rfl]
  · refine (internAt_returns h hi).mono fun r hr => ⟨hr.1, hr.2.1, ?_⟩
    rw [optionalText, optionalText, if_neg hz]
    split_ifs with hr0
    · rw [← hr.2.2, hr0, hr.1.strings.text_zero]
    · exact hr.2.2

/-- Interning one after the other, at a cost of `c` each, keeps what the earlier
results say. -/
theorem internEach_returns {α β : Type} (c : ℕ)
    {f : LiveProfileAccumulator → α → Except Trap (β × LiveProfileAccumulator)}
    (Q : DecodedProfile → α → β → Prop)
    (hmono : ∀ d d' x y, d.Prefix d' → Q d x y → Q d' x y) {xs : List α}
    (hf : ∀ a x m, x ∈ xs → Strings canon (m + c) a →
      Returns (fun r => Interns canon m a r.2 ∧ Q r.2.profile x r.1) (f a x))
    (h : Strings canon (n + c * xs.length) acc) :
    Returns (fun r => Interns canon n acc r.2 ∧ List.Forall₂ (Q r.2.profile) xs r.1)
      (internEach f acc xs) := by
  induction xs generalizing acc with
  | nil => exact .of_ok ⟨.refl h, .nil⟩
  | cons x xs ih =>
    rw [List.length_cons, Nat.mul_succ, ← Nat.add_assoc] at h
    refine (hf acc x _ List.mem_cons_self h).bind fun r hr => ?_
    refine (ih (fun a y m hy => hf a y m (List.mem_cons_of_mem _ hy)) hr.1.strings).bind
      fun r' hr' => .of_ok ⟨hr.1.trans hr'.1, .cons (hmono _ _ _ _ ⟨hr'.1.grows, ?_, ?_, ?_⟩ hr.2)
        hr'.2⟩
    · rw [hr'.1.same.mappings]
    · rw [hr'.1.same.functions]
    · rw [hr'.1.same.locations]

/-- The label `y` of `d` says what `x` says in the delta. -/
def LabelCopied (canon : String → String) (delta d : DecodedProfile) (x y : Label) : Prop :=
  LabelIn d y ∧ labelView canon d y = labelView canon delta x

theorem LabelCopied.of_extension {d d' : DecodedProfile} {x y : Label} (hp : d.Prefix d')
    (h : LabelCopied canon delta d x y) : LabelCopied canon delta d' x y :=
  ⟨h.1.of_extension hp, (labelView_of_extension canon hp h.1).trans h.2⟩

theorem internLabel_returns (h : Strings canon (n + 3) acc) {label : Label}
    (hfit : LabelConverts label) :
    Returns (fun r => Interns canon n acc r.2 ∧ LabelCopied canon delta r.2.profile label r.1)
      (acc.internLabel canon delta label) := by
  unfold internLabel
  refine (internAt_returns h hfit.key).bind fun key hkey => ?_
  refine (internUnlessZero_returns hkey.1.strings hfit.str).bind fun str hstr => ?_
  refine (internUnlessZero_returns hstr.1.strings hfit.unit).bind fun unit hunit => .of_ok ?_
  have hgrow := hstr.1.grows.trans hunit.1.grows
  refine ⟨(hkey.1.trans hstr.1).trans hunit.1, ⟨hkey.2.1.of_extension hgrow,
    hstr.2.1.of_extension hunit.1.grows, hunit.2.1⟩, ?_⟩
  unfold labelView
  dsimp only
  rw [DecodedProfile.text_of_extension hgrow hkey.2.1, hkey.2.2, hunit.2.2, ← hstr.2.2]
  congr 1
  unfold optionalText
  rw [DecodedProfile.text_of_extension hunit.1.grows hstr.2.1]

theorem internValueType_returns (h : Strings canon (n + 2) acc) {vt : ValueType}
    (hfit : Converts vt.type ∧ Converts vt.unit) :
    Returns (fun r => Interns canon n acc r.2) (acc.internValueType canon delta vt) := by
  unfold internValueType
  refine (internAt_returns h hfit.1).bind fun type htype => ?_
  refine (internAt_returns htype.1.strings hfit.2).bind fun unit hunit => .of_ok ?_
  exact htype.1.trans hunit.1

theorem mergePeriodType_returns (h : Strings canon (n + 2) acc)
    (hfit : ∀ vt, delta.periodType = some vt → Converts vt.type ∧ Converts vt.unit) :
    Returns (Interns canon n acc) (acc.mergePeriodType canon delta) := by
  unfold mergePeriodType
  cases hp : delta.periodType with
  | none => exact .of_ok (.refl (h.mono (Nat.le_add_right n 2)))
  | some vt =>
    refine (internValueType_returns h (hfit vt hp)).bind fun r hr => .of_ok ?_
    exact ⟨hr.strings.of_eq (k := 0) rfl rfl (le_refl _), hr.grows,
      hr.same.trans ⟨rfl, rfl, rfl, rfl, rfl, rfl, rfl, rfl, rfl⟩⟩

def headerCost (delta : DecodedProfile) : ℕ :=
  2 * delta.sampleTypes.length + delta.comments.length + 6

structure HeaderStep (canon : String → String) (n : ℕ) (delta : DecodedProfile)
    (acc acc' : LiveProfileAccumulator) : Prop where
  strings : Strings canon n acc'
  grows : acc.profile.stringTable <+: acc'.profile.stringTable
  same : SameTables { acc with profile := { acc.profile with
    sampleTypes := acc'.profile.sampleTypes } } acc'
  sampleTypes : acc'.profile.sampleTypes = [] ↔
    acc.profile.sampleTypes = [] ∧ delta.sampleTypes = []

theorem HeaderStep.of_same (h : Interns canon n acc acc')
    (hs : acc.profile.sampleTypes = [] ↔ acc.profile.sampleTypes = [] ∧ delta.sampleTypes = []) :
    HeaderStep canon n delta acc acc' := by
  refine ⟨h.strings, h.grows, ?_, ?_⟩
  · rw [h.same.sampleTypes]
    exact h.same
  · rw [h.same.sampleTypes]
    exact hs

theorem mergeHeader_returns (h : Strings canon (n + headerCost delta) acc)
    (hfit : acc.profile.sampleTypes = [] → HeaderConverts delta) :
    Returns (HeaderStep canon n delta acc) (acc.mergeHeader canon delta) := by
  unfold mergeHeader
  split_ifs with hempty
  · refine .of_ok (.of_same (.refl (h.mono (Nat.le_add_right _ _))) ?_)
    simp [hempty]
  · rw [not_not] at hempty
    have hf := hfit hempty
    have hroom : Strings canon ((n + delta.comments.length + 6) + 2 * delta.sampleTypes.length)
        acc := h.mono (by unfold headerCost; omega)
    refine (internEach_returns 2 (fun _ _ _ => True) (fun _ _ _ _ _ => id)
      (fun a vt m hvt ha => (internValueType_returns ha (hf.sampleTypes vt hvt)).mono
        fun _ hr => ⟨hr, trivial⟩) hroom).bind fun types htypes => ?_
    have h₁ : Strings canon (n + delta.comments.length + 6) { types.2 with
        profile := { types.2.profile with sampleTypes := types.1 } } :=
      htypes.1.strings.of_eq (k := 0) rfl rfl (le_refl _)
    refine (mergePeriodType_returns (n := n + delta.comments.length + 4) h₁
      hf.periodType).bind fun a₂ h₂ => ?_
    refine (internUnlessZero_returns (n := n + delta.comments.length + 3) h₂.strings
      hf.defaultSampleType).bind fun a₃ h₃ => ?_
    have hroom₃ : Strings canon ((n + 3) + 1 * delta.comments.length) a₃.2 :=
      h₃.1.strings.mono (by omega)
    refine (internEach_returns 1 (fun _ _ _ => True) (fun _ _ _ _ _ => id) (fun a c m hc ha =>
      (internAt_returns ha (hf.comments c hc)).mono fun _ hr => ⟨hr.1, trivial⟩)
      hroom₃).bind fun a₄ h₄ => ?_
    refine (internUnlessZero_returns h₄.1.strings hf.dropFrames).bind fun a₅ h₅ => ?_
    refine (internUnlessZero_returns h₅.1.strings hf.keepFrames).bind fun a₆ h₆ => ?_
    refine (internUnlessZero_returns h₆.1.strings hf.docURL).bind fun a₇ h₇ => .of_ok ?_
    have hlast := (((h₂.trans h₃.1).trans h₄.1).trans h₅.1).trans (h₆.1.trans h₇.1)
    have htypes' : a₇.2.profile.sampleTypes = types.1 := hlast.same.sampleTypes
    refine ⟨hlast.strings.of_eq (k := 0) rfl rfl (le_refl _), htypes.1.grows.trans hlast.grows,
      ?_, ?_⟩
    · refine SameTables.trans ?_ (hlast.same.trans ⟨rfl, rfl, rfl, rfl, rfl, rfl, rfl, rfl, rfl⟩)
      exact ⟨htypes'.symm, htypes.1.same.mappings, htypes.1.same.functions,
        htypes.1.same.locations, htypes.1.same.samples, htypes.1.same.mappingIDs,
        htypes.1.same.functionIDs, htypes.1.same.locationIDs, htypes.1.same.sampleIndexes⟩
    · change a₇.2.profile.sampleTypes = [] ↔ _
      rw [htypes', ← List.length_eq_zero_iff, ← htypes.2.length_eq, List.length_eq_zero_iff]
      simp [hempty]

end

end LiveProfileAccumulator

end PProfessor.Kit
