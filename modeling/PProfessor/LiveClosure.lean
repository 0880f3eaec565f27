import PProfessor.LiveOverflow

set_option autoImplicit false

/-!
# What a live profile refers to

Whatever deltas are merged, the references of the accumulated profile resolve, its entries are
numbered in order and the dictionaries of the accumulator are the inverses of its tables.
-/
namespace PProfessor.Kit
open Columns Fallible IndexedTable NumberedTable Pprof

def valueTypeStrings (vt : ValueType) : List UInt64 := [vt.type, vt.unit]

namespace DecodedProfile

def headerStrings (d : DecodedProfile) : List UInt64 :=
  d.sampleTypes.flatMap valueTypeStrings ++ d.periodType.toList.flatMap valueTypeStrings ++
    d.comments ++ [d.defaultSampleType, d.dropFrames, d.keepFrames, d.docURL]

end DecodedProfile

def HeaderIn (d : DecodedProfile) : Prop := ∀ index ∈ d.headerStrings, d.HasString index

theorem HeaderIn.of_extension {d d' : DecodedProfile} (h : HeaderIn d)
    (hp : d.stringTable <+: d'.stringTable) (hheader : d'.headerStrings = d.headerStrings) :
    HeaderIn d' := by
  intro index hindex
  rw [hheader] at hindex
  exact (h index hindex).of_extension hp

def Resolves {α : Type} (id : α → UInt64) (xs : List α) (map : LiveProfileAccumulator.IDMap) :
    Prop :=
  ∀ k gid : UInt64, map[k]? = some gid → ∃ x, lookup id xs gid = some x

namespace Resolves

variable {α : Type} {id : α → UInt64} {xs ys : List α} {map : LiveProfileAccumulator.IDMap}

theorem nil : Resolves id xs ∅ := by
  intro k gid hk
  simp at hk

theorem of_extension (h : Resolves id xs map) (hp : xs <+: ys) : Resolves id ys map := by
  intro k gid hk
  obtain ⟨x, hx⟩ := h k gid hk
  exact ⟨x, lookup_of_extension id hp hx⟩

theorem insert (h : Resolves id xs map) {gid : UInt64} {x : α} (hx : lookup id xs gid = some x)
    (k : UInt64) : Resolves id xs (map.insert k gid) := by
  intro k' gid' hk
  rw [Std.ExtHashMap.getElem?_insert] at hk
  split_ifs at hk
  · rw [← Option.some.inj hk]
    exact ⟨x, hx⟩
  · exact h k' gid' hk

end Resolves

namespace LiveProfileAccumulator

structure Texts (canon : String → String) (acc : LiveProfileAccumulator) : Prop where
  empty : acc.profile.stringTable[0]? = some ""
  index : Indexes UInt64.ofNat canon acc.profile.stringTable acc.stringIDs
  short : acc.profile.stringTable.length ≤ 2 ^ 63

/-- Everything that the profile refers to is in it, under ids from one on, and the dictionaries
hold the numbers of its entries. -/
structure Closed (canon : String → String) (acc : LiveProfileAccumulator) : Prop extends
    Texts canon acc where
  header : HeaderIn acc.profile
  mappings : Numbered Mapping.id acc.profile.mappings
  mappingIndex : Indexes nextId (mappingContent canon acc.profile) acc.profile.mappings
    acc.mappingIDs
  mappingIn : ∀ m ∈ acc.profile.mappings, MappingIn acc.profile m
  functions : Numbered Function.id acc.profile.functions
  functionIndex : Indexes nextId (functionContent canon acc.profile) acc.profile.functions
    acc.functionIDs
  functionIn : ∀ f ∈ acc.profile.functions, FunctionIn acc.profile f
  locations : Numbered Location.id acc.profile.locations
  locationIndex : Indexes nextId locationKey acc.profile.locations acc.locationIDs
  locationIn : ∀ l ∈ acc.profile.locations, LocationIn acc.profile l
  sampleIndex : Indexes id sampleKey acc.profile.samples acc.sampleIndexes
  sampleIn : ∀ s ∈ acc.profile.samples, SampleIn acc.profile s

def setStrings (acc : LiveProfileAccumulator) (table : List String)
    (ids : Std.ExtHashMap String UInt64) : LiveProfileAccumulator :=
  { acc with profile := { acc.profile with stringTable := table }, stringIDs := ids }

def Interned (canon : String → String) (acc acc' : LiveProfileAccumulator) : Prop :=
  ∃ table ids, acc' = acc.setStrings table ids ∧ acc.profile.stringTable <+: table ∧
    Texts canon acc'

variable {canon : String → String} {acc acc' : LiveProfileAccumulator} {delta : DecodedProfile}

theorem Interned.refl (h : Texts canon acc) : Interned canon acc acc :=
  ⟨acc.profile.stringTable, acc.stringIDs, rfl, List.prefix_refl _, h⟩

theorem Interned.trans {acc'' : LiveProfileAccumulator} (h : Interned canon acc acc')
    (h' : Interned canon acc' acc'') : Interned canon acc acc'' := by
  obtain ⟨_, _, rfl, hp, -⟩ := h
  obtain ⟨table, ids, rfl, hp', htexts⟩ := h'
  exact ⟨table, ids, rfl, hp.trans hp', htexts⟩

theorem Interned.texts (h : Interned canon acc acc') : Texts canon acc' := by
  obtain ⟨_, _, -, -, htexts⟩ := h
  exact htexts

theorem Interned.grows (h : Interned canon acc acc') :
    acc.profile.stringTable <+: acc'.profile.stringTable := by
  obtain ⟨_, _, rfl, hp, -⟩ := h
  exact hp

theorem Closed.rewrite (h : Closed canon acc) {d : DecodedProfile}
    {ids : Std.ExtHashMap String UInt64}
    (htexts : Texts canon { acc with profile := d, stringIDs := ids })
    (hp : acc.profile.stringTable <+: d.stringTable) (hheader : HeaderIn d)
    (hmappings : d.mappings = acc.profile.mappings)
    (hfunctions : d.functions = acc.profile.functions)
    (hlocations : d.locations = acc.profile.locations)
    (hsamples : d.samples = acc.profile.samples) :
    Closed canon { acc with profile := d, stringIDs := ids } := by
  have hextends : acc.profile.Prefix d :=
    ⟨hp, hmappings ▸ List.prefix_refl _, hfunctions ▸ List.prefix_refl _,
      hlocations ▸ List.prefix_refl _⟩
  refine ⟨htexts, hheader, hmappings ▸ h.mappings, ?_, ?_, hfunctions ▸ h.functions, ?_, ?_,
    hlocations ▸ h.locations, hlocations ▸ h.locationIndex, ?_, hsamples ▸ h.sampleIndex, ?_⟩
  · rw [hmappings]
    exact h.mappingIndex.congr fun m hm => mappingContent_of_extension canon hp (h.mappingIn m hm)
  · rw [hmappings]
    exact fun m hm => (h.mappingIn m hm).of_extension hp
  · rw [hfunctions]
    exact h.functionIndex.congr fun f hf =>
      functionContent_of_extension canon hp (h.functionIn f hf)
  · rw [hfunctions]
    exact fun f hf => (h.functionIn f hf).of_extension hp
  · rw [hlocations]
    exact fun l hl => (h.locationIn l hl).of_extension hextends
  · rw [hsamples]
    exact fun s hs => (h.sampleIn s hs).of_extension hextends

theorem Closed.interned (h : Closed canon acc) (hi : Interned canon acc acc') :
    Closed canon acc' := by
  obtain ⟨table, ids, rfl, hp, htexts⟩ := hi
  exact h.rewrite htexts hp (h.header.of_extension hp rfl) rfl rfl rfl rfl

theorem countID_yields (n : ℕ) :
    Yields (fun id => n < 2 ^ 63 ∧ id = UInt64.ofNat n) (countID n) := by
  unfold countID
  split_ifs with h
  · exact .of_ok ⟨h, rfl⟩
  · exact .of_error

theorem intern_yields (h : Texts canon acc) (value : String) :
    Yields (fun r => Interned canon acc r.2 ∧ r.2.profile.HasString r.1 ∧
      canon (r.2.profile.text r.1) = canon value) (acc.intern canon value) := by
  unfold intern
  cases hs : acc.stringIDs[canon value]? with
  | some existing =>
    obtain ⟨i, s, hget, hc, hi⟩ := h.index.sound _ _ hs
    have hlt := (List.getElem?_eq_some_iff.mp hget).choose
    have hnat : existing.toNat = i := by
      rw [← hi, UInt64.toNat_ofNat_of_lt' (lt_trans (lt_of_lt_of_le hlt h.short) (by norm_num))]
    refine .of_ok ⟨.refl h, hnat.trans_lt hlt, ?_⟩
    rw [DecodedProfile.text, hnat, hget]
    exact hc
  | none =>
    refine (countID_yields _).bind fun id hid => .of_ok ?_
    obtain ⟨hlt, rfl⟩ := hid
    have hnat : (UInt64.ofNat acc.profile.stringTable.length).toNat =
        acc.profile.stringTable.length :=
      UInt64.toNat_ofNat_of_lt' (lt_trans hlt (by norm_num))
    have hget : (acc.profile.stringTable ++ [value])[(UInt64.ofNat
        acc.profile.stringTable.length).toNat]? = some value := by
      rw [hnat]
      exact List.getElem?_concat_length
    have htexts : Texts canon (acc.setStrings (acc.profile.stringTable ++ [value])
        (acc.stringIDs.insert (canon value) (.ofNat acc.profile.stringTable.length))) := by
      refine ⟨getElem?_of_extension (List.prefix_append _ _) h.empty, h.index.insert hs rfl, ?_⟩
      change (acc.profile.stringTable ++ [value]).length ≤ 2 ^ 63
      rw [List.length_append, List.length_singleton]
      omega
    refine ⟨⟨_, _, rfl, List.prefix_append _ _, htexts⟩,
      (List.getElem?_eq_some_iff.mp hget).choose, ?_⟩
    change canon ((acc.profile.stringTable ++ [value])[_]?.getD "") = canon value
    rw [hget]
    rfl

def InternsOne (canon : String → String) (acc : LiveProfileAccumulator)
    (r : UInt64 × LiveProfileAccumulator) : Prop :=
  Interned canon acc r.2 ∧ r.2.profile.HasString r.1

theorem internAt_yields (h : Texts canon acc) (index : UInt64) :
    Yields (InternsOne canon acc) (acc.internAt canon delta index) := by
  refine (Yields.any (delta.string index)).bind fun value _ r hr => ?_
  obtain ⟨hi, hstring, -⟩ := intern_yields h value r hr
  exact ⟨hi, hstring⟩

theorem Texts.hasString_zero (h : Texts canon acc) : acc.profile.HasString 0 :=
  (List.getElem?_eq_some_iff.mp h.empty).choose

theorem internUnlessZero_yields (h : Texts canon acc) (index : UInt64) :
    Yields (InternsOne canon acc) (acc.internUnlessZero canon delta index) := by
  unfold internUnlessZero
  split_ifs
  · exact .of_ok ⟨.refl h, h.hasString_zero⟩
  · exact internAt_yields h index

theorem internEach_yields {α β : Type}
    {f : LiveProfileAccumulator → α → Except Trap (β × LiveProfileAccumulator)}
    {Q : DecodedProfile → β → Prop}
    (hmono : ∀ d d' y, d.stringTable <+: d'.stringTable → Q d y → Q d' y)
    (hf : ∀ a x, Texts canon a →
      Yields (fun r => Interned canon a r.2 ∧ Q r.2.profile r.1) (f a x))
    (h : Texts canon acc) (xs : List α) :
    Yields (fun r => Interned canon acc r.2 ∧ ∀ y ∈ r.1, Q r.2.profile y)
      (internEach f acc xs) := by
  induction xs generalizing acc with
  | nil => exact .of_ok ⟨.refl h, fun _ hy => nomatch hy⟩
  | cons x xs ih =>
    refine (hf acc x h).bind fun r hr => (ih hr.1.texts).bind fun r' hr' => .of_ok ?_
    refine ⟨hr.1.trans hr'.1, List.forall_mem_cons.mpr ⟨?_, hr'.2⟩⟩
    exact hmono _ _ _ hr'.1.grows hr.2

theorem internValueType_yields (h : Texts canon acc) (vt : ValueType) :
    Yields (fun r => Interned canon acc r.2 ∧ ∀ index ∈ valueTypeStrings r.1,
      r.2.profile.HasString index) (acc.internValueType canon delta vt) := by
  refine (internAt_yields h vt.type).bind fun type htype => ?_
  refine (internAt_yields htype.1.texts vt.unit).bind fun unit hunit => .of_ok ?_
  refine ⟨htype.1.trans hunit.1, ?_⟩
  simp only [valueTypeStrings, List.forall_mem_cons]
  exact ⟨htype.2.of_extension hunit.1.grows, hunit.2, fun _ hi => nomatch hi⟩

def PeriodTyped (canon : String → String) (acc acc' : LiveProfileAccumulator) : Prop :=
  ∃ acc₁ periodType, acc' = { acc₁ with profile := { acc₁.profile with periodType } } ∧
    Interned canon acc acc₁ ∧ ∀ index ∈ periodType.toList.flatMap valueTypeStrings,
      acc₁.profile.HasString index

theorem mergePeriodType_yields (h : Texts canon acc)
    (hperiod : ∀ index ∈ acc.profile.periodType.toList.flatMap valueTypeStrings,
      acc.profile.HasString index) :
    Yields (PeriodTyped canon acc) (acc.mergePeriodType canon delta) := by
  unfold mergePeriodType
  cases hp : delta.periodType with
  | none => exact .of_ok ⟨acc, acc.profile.periodType, rfl, .refl h, hperiod⟩
  | some vt =>
    refine (internValueType_yields h vt).bind fun r hr => .of_ok ?_
    refine ⟨r.2, some r.1, rfl, hr.1, ?_⟩
    simpa using hr.2

theorem Closed.periodType (h : Closed canon acc) :
    ∀ index ∈ acc.profile.periodType.toList.flatMap valueTypeStrings,
      acc.profile.HasString index := by
  intro index hindex
  refine h.header index ?_
  unfold DecodedProfile.headerStrings
  simp only [List.mem_append]
  exact .inl (.inl (.inr hindex))

theorem mergeHeader_yields (h : Closed canon acc) :
    Yields (Closed canon) (acc.mergeHeader canon delta) := by
  have hmono (d d' : DecodedProfile) (vt : ValueType) (hp : d.stringTable <+: d'.stringTable)
      (hvt : ∀ index ∈ valueTypeStrings vt, d.HasString index) :
      ∀ index ∈ valueTypeStrings vt, d'.HasString index :=
    fun index hindex => (hvt index hindex).of_extension hp
  unfold mergeHeader
  split_ifs
  · exact .of_ok h
  refine (internEach_yields hmono (fun a vt ha => internValueType_yields ha vt) h.toTexts
    delta.sampleTypes).bind ?_
  rintro ⟨types, a₁⟩ ⟨h₁, htypes⟩
  have htexts₁ : Texts canon { a₁ with profile := { a₁.profile with sampleTypes := types } } :=
    ⟨h₁.texts.empty, h₁.texts.index, h₁.texts.short⟩
  have hperiod₁ : ∀ index ∈ a₁.profile.periodType.toList.flatMap valueTypeStrings,
      a₁.profile.HasString index := by
    obtain ⟨_, _, rfl, hp, -⟩ := h₁
    exact fun index hindex => (h.periodType index hindex).of_extension hp
  refine (mergePeriodType_yields htexts₁ hperiod₁).bind ?_
  rintro _ ⟨a₂, periodType, rfl, h₂, hperiod⟩
  have htexts₂ : Texts canon { a₂ with profile := { a₂.profile with periodType } } :=
    ⟨h₂.texts.empty, h₂.texts.index, h₂.texts.short⟩
  refine (internUnlessZero_yields htexts₂ _).bind ?_
  rintro ⟨defaultSampleType, a₃⟩ ⟨h₃, hdefault⟩
  refine (internEach_yields (Q := fun d index => d.HasString index)
    (fun _ _ _ hp hindex => hindex.of_extension hp) (fun a index ha => internAt_yields ha index)
    h₃.texts delta.comments).bind ?_
  rintro ⟨comments, a₄⟩ ⟨h₄, hcomments⟩
  refine (internUnlessZero_yields h₄.texts _).bind ?_
  rintro ⟨dropFrames, a₅⟩ ⟨h₅, hdrop⟩
  refine (internUnlessZero_yields h₅.texts _).bind ?_
  rintro ⟨keepFrames, a₆⟩ ⟨h₆, hkeep⟩
  refine (internUnlessZero_yields h₆.texts _).bind ?_
  rintro ⟨docURL, a₇⟩ ⟨h₇, hdoc⟩
  refine .of_ok ?_
  have h₅₇ := h₆.trans h₇
  have h₄₇ := h₅.trans h₅₇
  have h₃₇ := h₄.trans h₄₇
  have h₂₇ := h₃.trans h₃₇
  have hgrows := (h₁.grows.trans h₂.grows).trans h₂₇.grows
  have hheader : ∀ index ∈ types.flatMap valueTypeStrings ++
      periodType.toList.flatMap valueTypeStrings ++ comments ++
        [defaultSampleType, dropFrames, keepFrames, docURL], a₇.profile.HasString index := by
    simp only [List.forall_mem_append, List.forall_mem_cons, List.mem_flatMap]
    refine ⟨⟨⟨?_, ?_⟩, ?_⟩, ?_, ?_, ?_, hdoc, fun _ hi => nomatch hi⟩
    · rintro index ⟨vt, hvt, hindex⟩
      exact (htypes vt hvt index hindex).of_extension (h₂.grows.trans h₂₇.grows)
    · rintro index ⟨vt, hvt, hindex⟩
      exact (hperiod index (List.mem_flatMap.mpr ⟨vt, hvt, hindex⟩)).of_extension h₂₇.grows
    · exact fun index hindex => (hcomments index hindex).of_extension h₄₇.grows
    · exact hdefault.of_extension h₃₇.grows
    · exact hdrop.of_extension h₅₇.grows
    · exact hkeep.of_extension h₇.grows
  obtain ⟨_, _, rfl, -, -⟩ := h₁
  obtain ⟨_, _, rfl, -, -⟩ := h₂
  obtain ⟨table, ids, rfl, -, htexts⟩ := h₂₇
  exact h.rewrite ⟨htexts.empty, htexts.index, htexts.short⟩ hgrows hheader rfl rfl rfl rfl

theorem Closed.add_mapping (h : Closed canon acc) {x : Mapping} {k : MappingKey}
    (hk : acc.mappingIDs[k]? = none) (hx : mappingContent canon acc.profile x = k)
    (hin : MappingIn acc.profile x) (hid : x.id = nextId acc.profile.mappings.length)
    (hlt : acc.profile.mappings.length + 1 < 2 ^ 63) :
    Closed canon { acc with
      mappingIDs := acc.mappingIDs.insert k x.id
      profile := { acc.profile with mappings := acc.profile.mappings ++ [x] } } := by
  have hextends : acc.profile.Prefix
      { acc.profile with mappings := acc.profile.mappings ++ [x] } :=
    ⟨List.prefix_refl _, List.prefix_append _ _, List.prefix_refl _, List.prefix_refl _⟩
  refine ⟨⟨h.empty, h.index, h.short⟩, h.header, h.mappings.concat ?_, ?_, ?_, h.functions,
    h.functionIndex, fun f hf => (h.functionIn f hf).of_extension (List.prefix_refl _),
    h.locations, h.locationIndex, fun l hl => (h.locationIn l hl).of_extension hextends,
    h.sampleIndex, fun s hs => (h.sampleIn s hs).of_extension hextends⟩
  · rw [hid, nextId_toNat hlt]
  · rw [hid]
    exact h.mappingIndex.insert hk hx
  · intro m hm
    rcases List.mem_append.mp hm with hm | hm
    · exact (h.mappingIn m hm).of_extension (List.prefix_refl _)
    · rw [List.mem_singleton.mp hm]
      exact hin.of_extension (List.prefix_refl _)

theorem Closed.add_function (h : Closed canon acc) {x : Function} {k : FunctionKey}
    (hk : acc.functionIDs[k]? = none) (hx : functionContent canon acc.profile x = k)
    (hin : FunctionIn acc.profile x) (hid : x.id = nextId acc.profile.functions.length)
    (hlt : acc.profile.functions.length + 1 < 2 ^ 63) :
    Closed canon { acc with
      functionIDs := acc.functionIDs.insert k x.id
      profile := { acc.profile with functions := acc.profile.functions ++ [x] } } := by
  have hextends : acc.profile.Prefix
      { acc.profile with functions := acc.profile.functions ++ [x] } :=
    ⟨List.prefix_refl _, List.prefix_refl _, List.prefix_append _ _, List.prefix_refl _⟩
  refine ⟨⟨h.empty, h.index, h.short⟩, h.header, h.mappings, h.mappingIndex,
    fun m hm => (h.mappingIn m hm).of_extension (List.prefix_refl _), h.functions.concat ?_, ?_,
    ?_, h.locations, h.locationIndex, fun l hl => (h.locationIn l hl).of_extension hextends,
    h.sampleIndex, fun s hs => (h.sampleIn s hs).of_extension hextends⟩
  · rw [hid, nextId_toNat hlt]
  · rw [hid]
    exact h.functionIndex.insert hk hx
  · intro f hf
    rcases List.mem_append.mp hf with hf | hf
    · exact (h.functionIn f hf).of_extension (List.prefix_refl _)
    · rw [List.mem_singleton.mp hf]
      exact hin.of_extension (List.prefix_refl _)

theorem Closed.add_location (h : Closed canon acc) {x : Location} {k : LocationKey}
    (hk : acc.locationIDs[k]? = none) (hx : locationKey x = k) (hin : LocationIn acc.profile x)
    (hid : x.id = nextId acc.profile.locations.length)
    (hlt : acc.profile.locations.length + 1 < 2 ^ 63) :
    Closed canon { acc with
      locationIDs := acc.locationIDs.insert k x.id
      profile := { acc.profile with locations := acc.profile.locations ++ [x] } } := by
  have hextends : acc.profile.Prefix
      { acc.profile with locations := acc.profile.locations ++ [x] } :=
    ⟨List.prefix_refl _, List.prefix_refl _, List.prefix_refl _, List.prefix_append _ _⟩
  refine ⟨⟨h.empty, h.index, h.short⟩, h.header, h.mappings, h.mappingIndex,
    fun m hm => (h.mappingIn m hm).of_extension (List.prefix_refl _), h.functions, h.functionIndex,
    fun f hf => (h.functionIn f hf).of_extension (List.prefix_refl _), h.locations.concat ?_, ?_,
    ?_, h.sampleIndex, fun s hs => (h.sampleIn s hs).of_extension hextends⟩
  · rw [hid, nextId_toNat hlt]
  · rw [hid]
    exact h.locationIndex.insert hk hx
  · intro l hl
    rcases List.mem_append.mp hl with hl | hl
    · exact (h.locationIn l hl).of_extension hextends
    · rw [List.mem_singleton.mp hl]
      exact hin.of_extension hextends

theorem Closed.set_samples (h : Closed canon acc) {samples : List Sample}
    {indexes : Std.ExtHashMap SampleKey ℕ} (hindex : Indexes id sampleKey samples indexes)
    (hin : ∀ s ∈ samples, SampleIn acc.profile s) :
    Closed canon { acc with
      sampleIndexes := indexes, profile := { acc.profile with samples := samples } } := by
  have hextends : acc.profile.Prefix { acc.profile with samples := samples } :=
    ⟨List.prefix_refl _, List.prefix_refl _, List.prefix_refl _, List.prefix_refl _⟩
  exact ⟨⟨h.empty, h.index, h.short⟩, h.header, h.mappings, h.mappingIndex,
    fun m hm => (h.mappingIn m hm).of_extension (List.prefix_refl _), h.functions, h.functionIndex,
    fun f hf => (h.functionIn f hf).of_extension (List.prefix_refl _), h.locations,
    h.locationIndex, fun l hl => (h.locationIn l hl).of_extension hextends, hindex,
    fun s hs => (hin s hs).of_extension hextends⟩

/-! ## The loops over a delta -/

/-- A step that keeps everything closed and only adds to the tables. -/
structure ClosedStep (canon : String → String) (acc acc' : LiveProfileAccumulator) : Prop where
  closed : Closed canon acc'
  grows : acc.profile.Prefix acc'.profile

theorem ClosedStep.trans {acc'' : LiveProfileAccumulator} (h : ClosedStep canon acc acc')
    (h' : ClosedStep canon acc' acc'') : ClosedStep canon acc acc'' :=
  ⟨h'.closed, h.grows.trans h'.grows⟩

structure MappingsRead (canon : String → String) (state : LiveProfileAccumulator × IDMap) :
    Prop where
  closed : Closed canon state.1
  mappings : Resolves Mapping.id state.1.profile.mappings state.2

theorem mergeMapping_yields {state : LiveProfileAccumulator × IDMap}
    (h : MappingsRead canon state) (x : Mapping) :
    Yields (MappingsRead canon) (mergeMapping canon delta state x) := by
  obtain ⟨acc, map⟩ := state
  obtain ⟨hclosed, hmap⟩ := h
  unfold mergeMapping
  refine (Yields.any _).bind fun buildID _ => (Yields.any _).bind fun filename _ => ?_
  dsimp only
  cases hk : acc.mappingIDs[(⟨canon buildID, canon filename, x.memoryStart, x.memoryLimit,
    x.fileOffset⟩ : MappingKey)]? with
  | some existing =>
    obtain ⟨g, hg, -⟩ := hclosed.mappingIndex.lookup_of_some hclosed.mappings hk
    exact .of_ok ⟨hclosed, hmap.insert hg x.id⟩
  | none =>
    refine (countID_yields _).bind fun gid hgid => ?_
    obtain ⟨hlt, rfl⟩ := hgid
    have htexts (ids : Std.ExtHashMap MappingKey UInt64) :
        Texts canon { acc with mappingIDs := ids } :=
      ⟨hclosed.empty, hclosed.index, hclosed.short⟩
    refine (intern_yields (htexts _) filename).bind ?_
    rintro ⟨filenameID, a₂⟩ ⟨h₂, hfilename, hfilenameText⟩
    refine (intern_yields h₂.texts buildID).bind ?_
    rintro ⟨buildIDID, a₃⟩ ⟨h₃, hbuildID, hbuildIDText⟩
    refine .of_ok ?_
    have htext : canon (a₃.profile.text filenameID) = canon filename := by
      rw [DecodedProfile.text_of_extension h₃.grows hfilename, hfilenameText]
    have hfilename₃ := hfilename.of_extension h₃.grows
    obtain ⟨table, ids, rfl, hp, htexts₃⟩ := h₂.trans h₃
    have hinterned : Interned canon acc (acc.setStrings table ids) :=
      ⟨table, ids, rfl, hp, htexts₃.empty, htexts₃.index, htexts₃.short⟩
    let added : Mapping := { x with
      id := nextId acc.profile.mappings.length
      filename := filenameID
      buildId := buildIDID }
    have hcontent : mappingContent canon (acc.setStrings table ids).profile added =
        ⟨canon buildID, canon filename, x.memoryStart, x.memoryLimit, x.fileOffset⟩ := by
      rw [← htext, ← hbuildIDText]
      rfl
    have hadded := (hclosed.interned hinterned).add_mapping hk hcontent ⟨hfilename₃, hbuildID⟩ rfl
      hlt
    refine ⟨hadded, ?_⟩
    have hmem := hadded.mappings.lookup_eq (List.mem_append_right _ List.mem_cons_self)
    exact (hmap.of_extension (List.prefix_append _ _)).insert hmem x.id

theorem mergeFunction_yields (h : Closed canon acc) (x : Function) :
    Yields (fun r => ClosedStep canon acc r.2 ∧
      ∃ f, lookup Function.id r.2.profile.functions r.1 = some f)
      (acc.mergeFunction canon delta x) := by
  unfold mergeFunction
  refine (Yields.any _).bind fun name _ => (Yields.any _).bind fun systemName _ =>
    (Yields.any _).bind fun filename _ => ?_
  dsimp only
  cases hk : acc.functionIDs[(⟨canon name, canon systemName, canon filename,
    x.startLine⟩ : FunctionKey)]? with
  | some existing =>
    obtain ⟨g, hg, -⟩ := h.functionIndex.lookup_of_some h.functions hk
    exact .of_ok ⟨⟨h, .refl _⟩, g, hg⟩
  | none =>
    refine (countID_yields _).bind fun gid hgid => ?_
    obtain ⟨hlt, rfl⟩ := hgid
    have htexts (ids : Std.ExtHashMap FunctionKey UInt64) :
        Texts canon { acc with functionIDs := ids } :=
      ⟨h.empty, h.index, h.short⟩
    refine (intern_yields (htexts _) name).bind ?_
    rintro ⟨nameID, a₂⟩ ⟨h₂, hname, hnameText⟩
    refine (intern_yields h₂.texts systemName).bind ?_
    rintro ⟨systemNameID, a₃⟩ ⟨h₃, hsystemName, hsystemNameText⟩
    refine (intern_yields h₃.texts filename).bind ?_
    rintro ⟨filenameID, a₄⟩ ⟨h₄, hfilename, hfilenameText⟩
    refine .of_ok ?_
    have hname₃ := hname.of_extension h₃.grows
    have htext : canon (a₄.profile.text nameID) = canon name := by
      rw [DecodedProfile.text_of_extension h₄.grows hname₃,
        DecodedProfile.text_of_extension h₃.grows hname, hnameText]
    have hsystemText : canon (a₄.profile.text systemNameID) = canon systemName := by
      rw [DecodedProfile.text_of_extension h₄.grows hsystemName, hsystemNameText]
    have hname₄ := hname₃.of_extension h₄.grows
    have hsystemName₄ := hsystemName.of_extension h₄.grows
    obtain ⟨table, ids, rfl, hp, htexts₄⟩ := (h₂.trans h₃).trans h₄
    have hinterned : Interned canon acc (acc.setStrings table ids) :=
      ⟨table, ids, rfl, hp, htexts₄.empty, htexts₄.index, htexts₄.short⟩
    have hcontent : functionContent canon (acc.setStrings table ids).profile
        ⟨nextId acc.profile.functions.length, nameID, systemNameID, filenameID, x.startLine⟩ =
          ⟨canon name, canon systemName, canon filename, x.startLine⟩ := by
      rw [← htext, ← hsystemText, ← hfilenameText]
      rfl
    have hadded := (h.interned hinterned).add_function hk hcontent
      ⟨hname₄, hsystemName₄, hfilename⟩ rfl hlt
    have hmem := hadded.functions.lookup_eq (List.mem_append_right _ List.mem_cons_self)
    exact ⟨⟨hadded, hp, List.prefix_refl _, List.prefix_append _ _, List.prefix_refl _⟩, _, hmem⟩

theorem mergeLines_yields (h : Closed canon acc) (functions : Std.ExtHashMap UInt64 Function)
    (lines : List Line) :
    Yields (fun r => ClosedStep canon acc r.2 ∧ ∀ line ∈ r.1,
      ∃ f, lookup Function.id r.2.profile.functions line.functionId = some f)
      (mergeLines canon delta functions acc lines) := by
  induction lines generalizing acc with
  | nil => exact .of_ok ⟨⟨h, .refl _⟩, fun _ hl => nomatch hl⟩
  | cons line rest ih =>
    unfold mergeLines
    cases hf : functions[line.functionId]? with
    | none => exact ih h
    | some function =>
      refine (mergeFunction_yields h function).bind fun r hr => (ih hr.1.closed).bind
        fun r' hr' => .of_ok ?_
      obtain ⟨f, hf⟩ := hr.2
      refine ⟨hr.1.trans hr'.1, List.forall_mem_cons.mpr ⟨?_, hr'.2⟩⟩
      exact ⟨f, lookup_of_extension _ hr'.1.grows.functions hf⟩

structure LocationsRead (canon : String → String) (mappingIDs : IDMap)
    (state : LiveProfileAccumulator × IDMap) : Prop where
  closed : Closed canon state.1
  mappings : Resolves Mapping.id state.1.profile.mappings mappingIDs
  locations : Resolves Location.id state.1.profile.locations state.2

theorem mergeLocation_yields {functions : Std.ExtHashMap UInt64 Function} {mappingIDs : IDMap}
    {state : LiveProfileAccumulator × IDMap} (h : LocationsRead canon mappingIDs state)
    (x : Location) :
    Yields (LocationsRead canon mappingIDs)
      (mergeLocation canon delta functions mappingIDs state x) := by
  obtain ⟨acc, map⟩ := state
  obtain ⟨hclosed, hmappings, hmap⟩ := h
  unfold mergeLocation
  refine (mergeLines_yields hclosed functions x.lines).bind ?_
  rintro ⟨lines, a⟩ ⟨⟨ha, hgrows⟩, hlines⟩
  have hmappingsA := hmappings.of_extension hgrows.mappings
  have hmapA := hmap.of_extension hgrows.locations
  dsimp only
  cases hk : a.locationIDs[(⟨mappingIDs[x.mappingId]?.getD 0, x.address, lines.map lineKey,
    x.isFolded⟩ : LocationKey)]? with
  | some existing =>
    obtain ⟨g, hg, -⟩ := ha.locationIndex.lookup_of_some ha.locations hk
    exact .of_ok ⟨ha, hmappingsA, hmapA.insert hg x.id⟩
  | none =>
    refine (countID_yields _).bind fun gid hgid => .of_ok ?_
    obtain ⟨hlt, rfl⟩ := hgid
    have hmapping : mappingIDs[x.mappingId]?.getD 0 = 0 ∨ ∃ m, lookup Mapping.id
        a.profile.mappings (mappingIDs[x.mappingId]?.getD 0) = some m ∧ MappingIn a.profile m := by
      cases hm : mappingIDs[x.mappingId]? with
      | none => exact .inl rfl
      | some id =>
        obtain ⟨m, hm⟩ := hmappingsA _ id hm
        exact .inr ⟨m, hm, ha.mappingIn m (lookup_eq_some _ hm).1⟩
    have hin : LocationIn a.profile { x with
        id := nextId a.profile.locations.length
        mappingId := mappingIDs[x.mappingId]?.getD 0
        lines := lines } := by
      refine ⟨hmapping, fun line hline => ?_⟩
      obtain ⟨f, hf⟩ := hlines line hline
      exact ⟨f, hf, ha.functionIn f (lookup_eq_some _ hf).1⟩
    have hadded := ha.add_location hk rfl hin rfl hlt
    have hmem := hadded.locations.lookup_eq (List.mem_append_right _ List.mem_cons_self)
    exact ⟨hadded, hmappingsA, (hmapA.of_extension (List.prefix_append _ _)).insert hmem x.id⟩

theorem internLabel_yields (h : Texts canon acc) (x : Label) :
    Yields (fun r => Interned canon acc r.2 ∧ LabelIn r.2.profile r.1)
      (acc.internLabel canon delta x) := by
  refine (internAt_yields h x.key).bind fun key hkey => ?_
  refine (internUnlessZero_yields hkey.1.texts x.strIndex).bind fun str hstr => ?_
  refine (internUnlessZero_yields hstr.1.texts x.numUnit).bind fun unit hunit => .of_ok ?_
  have hgrows := hstr.1.grows.trans hunit.1.grows
  exact ⟨(hkey.1.trans hstr.1).trans hunit.1, hkey.2.of_extension hgrows,
    hstr.2.of_extension hunit.1.grows, hunit.2⟩

structure SamplesRead (canon : String → String) (locationIDs : IDMap)
    (acc : LiveProfileAccumulator) : Prop where
  closed : Closed canon acc
  locations : Resolves Location.id acc.profile.locations locationIDs

theorem mergeSample_yields {locationIDs : IDMap} (h : SamplesRead canon locationIDs acc)
    (x : Sample) :
    Yields (SamplesRead canon locationIDs) (mergeSample canon delta locationIDs acc x) := by
  have hmono (d d' : DecodedProfile) (label : Label) (hp : d.stringTable <+: d'.stringTable)
      (hlabel : LabelIn d label) : LabelIn d' label :=
    ⟨hlabel.key.of_extension hp, hlabel.str.of_extension hp, hlabel.unit.of_extension hp⟩
  unfold mergeSample
  refine (internEach_yields hmono (fun a label ha => internLabel_yields ha label)
    h.closed.toTexts x.labels).bind ?_
  rintro ⟨labels, a⟩ ⟨hinterned, hlabels⟩
  have ha := h.closed.interned hinterned
  have hlocations : Resolves Location.id a.profile.locations locationIDs := by
    obtain ⟨_, _, rfl, -, -⟩ := hinterned
    exact h.locations
  dsimp only
  cases hk : a.sampleIndexes[(⟨x.locationIds.filterMap fun id => locationIDs[id]?,
    labels.map labelKey⟩ : SampleKey)]? with
  | some index =>
    obtain ⟨i, existing, hi, -, rfl⟩ := ha.sampleIndex.sound _ _ hk
    change a.profile.samples[id i]? = some existing at hi
    dsimp only
    rw [hi]
    refine (Yields.any _).bind fun values _ => .of_ok ⟨?_, hlocations⟩
    refine ha.set_samples (ha.sampleIndex.set hi rfl) fun s hs => ?_
    rcases List.mem_or_eq_of_mem_set hs with hs | rfl
    · exact ha.sampleIn s hs
    · exact (ha.sampleIn existing (List.mem_of_getElem? hi)).set_values values
  | none =>
    refine .of_ok ⟨ha.set_samples (ha.sampleIndex.insert hk rfl) fun s hs => ?_, hlocations⟩
    rcases List.mem_append.mp hs with hs | hs
    · exact ha.sampleIn s hs
    · rw [List.mem_singleton.mp hs]
      refine ⟨fun gid hgid => ?_, hlabels⟩
      obtain ⟨id, -, hid⟩ := List.mem_filterMap.mp hgid
      obtain ⟨l, hl⟩ := hlocations id gid hid
      exact ⟨l, hl, ha.locationIn l (lookup_eq_some _ hl).1⟩

theorem merge_yields (h : Closed canon acc) (delta : DecodedProfile) :
    Yields (Closed canon) (acc.merge canon delta) := by
  unfold merge
  refine (mergeHeader_yields h).bind fun a ha => ?_
  have hduration : Closed canon { a with profile := { a.profile with
      durationNanos := max a.profile.durationNanos delta.durationNanos } } :=
    ha.rewrite ⟨ha.empty, ha.index, ha.short⟩ (List.prefix_refl _) ha.header rfl rfl rfl rfl
  refine (Yields.foldlM (MappingsRead canon) (fun s x hs => mergeMapping_yields hs x)
    ⟨hduration, .nil⟩).bind ?_
  rintro ⟨a₂, mappingIDs⟩ ⟨h₂, hmappings⟩
  have hstart : LocationsRead canon mappingIDs (a₂, ∅) := ⟨h₂, hmappings, .nil⟩
  refine (Yields.foldlM (LocationsRead canon mappingIDs) (fun s x hs => mergeLocation_yields hs x)
    hstart).bind ?_
  rintro ⟨a₃, locationIDs⟩ ⟨h₃, -, hlocations⟩
  refine fun acc' hok => (Yields.foldlM (SamplesRead canon locationIDs)
    (fun s x hs => mergeSample_yields hs x) ⟨h₃, hlocations⟩ acc' hok).closed

theorem new_closed (canon : String → String) : Closed canon (new canon) := by
  have hempty : Indexes UInt64.ofNat canon [] (∅ : Std.ExtHashMap String UInt64) := Indexes.nil
  have hindex : Indexes UInt64.ofNat canon [""]
      ((∅ : Std.ExtHashMap String UInt64).insert (canon "") 0) :=
    hempty.insert Std.ExtHashMap.getElem?_empty rfl
  refine ⟨⟨rfl, hindex, by change 1 ≤ 2 ^ 63; norm_num⟩, ?_, numbered_nil _, Indexes.nil, ?_,
    numbered_nil _, Indexes.nil, ?_, numbered_nil _, Indexes.nil, ?_, Indexes.nil, ?_⟩
  · intro index hindex
    have hzero : index = 0 := by
      simpa [new, DecodedProfile.new, DecodedProfile.headerStrings] using hindex
    rw [hzero]
    exact Nat.one_pos
  · exact List.forall_mem_nil _
  · exact List.forall_mem_nil _
  · exact List.forall_mem_nil _
  · exact List.forall_mem_nil _

/-- The calls that change an accumulator. -/
inductive Call where
  | merge (delta : DecodedProfile)
  | replace (checkpoint : DecodedProfile)

def call (canon : String → String) (acc : LiveProfileAccumulator) :
    Call → Except Trap LiveProfileAccumulator
  | .merge delta => acc.merge canon delta
  | .replace checkpoint => replace canon checkpoint

theorem call_yields (h : Closed canon acc) (c : Call) :
    Yields (Closed canon) (acc.call canon c) := by
  cases c with
  | merge delta => exact merge_yields h delta
  | replace checkpoint => exact merge_yields (new_closed canon) checkpoint

theorem calls_yield (canon : String → String) (calls : List Call) :
    Yields (Closed canon) (calls.foldlM (call canon) (new canon)) :=
  Yields.foldlM (Closed canon) (fun _ c hs => call_yields hs c) (new_closed canon)

theorem ofNat_toNat_of_short {n i : ℕ} (hn : n ≤ 2 ^ 63) (hi : i < n) :
    (UInt64.ofNat i).toNat = i :=
  UInt64.toNat_ofNat_of_lt' (lt_trans (lt_of_lt_of_le hi hn) (by norm_num))

theorem Texts.stringIDs_iff (h : Texts canon acc) (key : String) (id : UInt64) :
    acc.stringIDs[key]? = some id ↔
      (acc.profile.stringTable[id.toNat]?).map canon = some key :=
  h.index.getElem?_eq_some_iff (fun _ hn => ofNat_toNat_of_short h.short hn)
    (fun _ _ => UInt64.ofNat_toNat) key id

theorem Texts.nodup (h : Texts canon acc) : (acc.profile.stringTable.map canon).Nodup := by
  refine h.index.keys_nodup fun m hm n hn hmn => ?_
  rw [← ofNat_toNat_of_short h.short hm, hmn, ofNat_toNat_of_short h.short hn]

theorem Closed.samples_nodup (h : Closed canon acc) :
    (acc.profile.samples.map fun s => (s.locationIds, s.labels)).Nodup := by
  have hkeys := h.sampleIndex.keys_nodup fun m _ n _ hmn => hmn
  refine List.Nodup.of_map (fun s : List UInt64 × List Label =>
    (⟨s.1, s.2.map labelKey⟩ : SampleKey)) ?_
  rw [List.map_map]
  exact hkeys

/-- Live profiles are closed: after any calls of `merge` and `replace` that return, the strings
begin with the empty one and differ, the entries are numbered from one, what they refer to is
there, no two samples have the same stack and labels, and the dictionaries are the inverses of
the tables. -/
theorem live_profile_closed (canon : String → String) (calls : List Call)
    (acc : LiveProfileAccumulator) (h : calls.foldlM (call canon) (new canon) = .ok acc) :
    (acc.profile.stringTable[0]? = some "" ∧ (acc.profile.stringTable.map canon).Nodup ∧
      acc.profile.stringTable.length ≤ 2 ^ 63) ∧
    (Numbered Mapping.id acc.profile.mappings ∧ Numbered Function.id acc.profile.functions ∧
      Numbered Location.id acc.profile.locations) ∧
    (HeaderIn acc.profile ∧ (∀ m ∈ acc.profile.mappings, MappingIn acc.profile m) ∧
      (∀ f ∈ acc.profile.functions, FunctionIn acc.profile f) ∧
      (∀ l ∈ acc.profile.locations, LocationIn acc.profile l) ∧
      ∀ s ∈ acc.profile.samples, SampleIn acc.profile s) ∧
    (acc.profile.samples.map fun s => (s.locationIds, s.labels)).Nodup ∧
    (∀ key id, acc.stringIDs[key]? = some id ↔
      (acc.profile.stringTable[id.toNat]?).map canon = some key) ∧
    (∀ key id, acc.mappingIDs[key]? = some id ↔
      (lookup Mapping.id acc.profile.mappings id).map (mappingContent canon acc.profile) =
        some key) ∧
    (∀ key id, acc.functionIDs[key]? = some id ↔
      (lookup Function.id acc.profile.functions id).map (functionContent canon acc.profile) =
        some key) ∧
    (∀ key id, acc.locationIDs[key]? = some id ↔
      (lookup Location.id acc.profile.locations id).map locationKey = some key) ∧
    ∀ key index, acc.sampleIndexes[key]? = some index ↔
      (acc.profile.samples[index]?).map sampleKey = some key := by
  have hclosed := calls_yield canon calls acc h
  refine ⟨⟨hclosed.empty, hclosed.nodup, hclosed.short⟩,
    ⟨hclosed.mappings, hclosed.functions, hclosed.locations⟩,
    ⟨hclosed.header, hclosed.mappingIn, hclosed.functionIn, hclosed.locationIn,
      hclosed.sampleIn⟩, hclosed.samples_nodup, hclosed.stringIDs_iff, ?_, ?_, ?_, ?_⟩
  · exact hclosed.mappingIndex.getElem?_eq_some_iff_lookup hclosed.mappings
  · exact hclosed.functionIndex.getElem?_eq_some_iff_lookup hclosed.functions
  · exact hclosed.locationIndex.getElem?_eq_some_iff_lookup hclosed.locations
  · exact hclosed.sampleIndex.getElem?_eq_some_iff (fun _ _ => rfl) (fun _ _ => rfl)

/-- A mapping twice, a line without a function, a location without a mapping, a stack with an
unknown location and a label beyond the string table. -/
def dangling : DecodedProfile :=
  { DecodedProfile.new with
    stringTable := ["", "cpu", "nanoseconds", "main", "a.out"]
    sampleTypes := [⟨1, 2⟩]
    mappings := [⟨1, 0, 16, 0, 4, 0, false, false, false, false⟩,
      ⟨1, 0, 16, 0, 4, 0, false, false, false, false⟩]
    functions := [⟨1, 3, 3, 0, 0⟩]
    locations := [⟨1, 1, 8, [⟨1, 0, 0⟩, ⟨7, 0, 0⟩], false⟩, ⟨2, 9, 8, [], false⟩]
    samples := [⟨[1, 2, 5], [3], [⟨3, 99, 0, 0⟩]⟩] }

theorem dangling_merged : ∃ acc, (new id).merge id dangling = .ok acc := by
  have hconvert : AllConvert false [dangling] := by
    unfold AllConvert AllConvert
    decide
  have hsums : SumsFit (reached id false [dangling]) := by
    rw [reached_of_convert id hconvert]
    refine .of_abs fun j => ?_
    change |Row.col j (Row.ofValues [3])| + 0 < 2 ^ 63
    rw [Row.col_ofValues]
    match j with
    | 0 => decide
    | j + 1 => simp
  have hsize : 1 + (0 + ([dangling].map cost).sum) < 2 ^ 63 := by decide
  obtain ⟨acc, hacc, -⟩ := (mergeAll_ends id hsize).returns hconvert hsums
  obtain ⟨a, ha, -⟩ := bind_eq_ok.mp hacc
  exact ⟨a, ha⟩

theorem live_profile_closed_dangling : ∃ acc,
    [Call.merge dangling, .replace dangling].foldlM (call id) (new id) = .ok acc ∧
      ∀ s ∈ acc.profile.samples, SampleIn acc.profile s := by
  obtain ⟨acc, hacc⟩ := dangling_merged
  have hcalls : [Call.merge dangling, .replace dangling].foldlM (call id) (new id) = .ok acc := by
    rw [List.foldlM_cons, call, hacc, ok_bind, List.foldlM_cons, call, replace, hacc]
    rfl
  obtain ⟨-, -, ⟨-, -, -, -, hsamples⟩, -⟩ := live_profile_closed id _ acc hcalls
  exact ⟨acc, hcalls, hsamples⟩

end LiveProfileAccumulator

end PProfessor.Kit
