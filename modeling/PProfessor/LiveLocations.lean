import PProfessor.LiveTables

set_option autoImplicit false

/-!
# Mappings, functions and locations of a delta

The loops that give every mapping, function and location of a delta an accumulated
id of the same content.
-/
namespace PProfessor.Kit
open Fallible IndexedTable NumberedTable Pprof

/-- The profile with the mapping and the location that an id stands for at last. -/
def DecodedProfile.effective (d : DecodedProfile) : DecodedProfile :=
  { d with
    mappings := lastWins Mapping.id d.mappings
    locations := lastWins Location.id d.locations }

namespace LiveProfileAccumulator

def locationKey (l : Location) : LocationKey :=
  ⟨l.mappingId, l.address, l.lines.map lineKey, l.isFolded⟩

structure Tables (canon : String → String) (n : ℕ) (acc : LiveProfileAccumulator) : Prop extends
    Strings canon n acc where
  mappings : Numbered Mapping.id acc.profile.mappings
  mappingIndex : Indexes nextId (mappingContent canon acc.profile) acc.profile.mappings
    acc.mappingIDs
  mappingIn : ∀ m ∈ acc.profile.mappings, MappingIn acc.profile m
  functions : Numbered Function.id acc.profile.functions
  functionIndex : Indexes nextId (functionContent canon acc.profile) acc.profile.functions
    acc.functionIDs
  functionIn : ∀ f ∈ acc.profile.functions, FunctionIn acc.profile f
  locations : Numbered Location.id acc.profile.locations
  locationIndex : Indexes nextId locationKey acc.profile.locations acc.locationIDs
  locationIn : ∀ l ∈ acc.profile.locations, LocationIn acc.profile l

/-- A step that only adds to the tables; it leaves room for `n` more entries. -/
structure Step (canon : String → String) (n : ℕ) (acc acc' : LiveProfileAccumulator) : Prop where
  tables : Tables canon n acc'
  grows : acc.profile.Prefix acc'.profile
  sampleTypes : acc'.profile.sampleTypes = acc.profile.sampleTypes
  samples : acc'.profile.samples = acc.profile.samples
  sampleIndexes : acc'.sampleIndexes = acc.sampleIndexes

variable {canon : String → String} {m n : ℕ} {acc acc' : LiveProfileAccumulator}

theorem Tables.mono (h : Tables canon m acc) (hle : n ≤ m) : Tables canon n acc :=
  { h with toStrings := h.toStrings.mono hle }

theorem Tables.mapping_zero (h : Tables canon n acc) :
    lookup Mapping.id acc.profile.mappings 0 = none :=
  h.mappings.lookup_zero

theorem Step.refl (h : Tables canon n acc) : Step canon n acc acc :=
  ⟨h, .refl _, rfl, rfl, rfl⟩

theorem Step.trans {acc'' : LiveProfileAccumulator} (h : Step canon m acc acc')
    (h' : Step canon n acc' acc'') : Step canon n acc acc'' :=
  ⟨h'.tables, h.grows.trans h'.grows, h'.sampleTypes.trans h.sampleTypes,
    h'.samples.trans h.samples, h'.sampleIndexes.trans h.sampleIndexes⟩

theorem Interns.extension (h : Interns canon n acc acc') : acc.profile.Prefix acc'.profile :=
  ⟨h.grows, by rw [h.same.mappings], by rw [h.same.functions], by rw [h.same.locations]⟩

theorem Tables.of_strings (h : Tables canon m acc) (hs : Strings canon n acc')
    (hp : acc.profile.stringTable <+: acc'.profile.stringTable)
    (hmappings : acc'.profile.mappings = acc.profile.mappings ∧ acc'.mappingIDs = acc.mappingIDs)
    (hfunctions : acc'.profile.functions = acc.profile.functions ∧
      acc'.functionIDs = acc.functionIDs)
    (hlocations : acc'.profile.locations = acc.profile.locations ∧
      acc'.locationIDs = acc.locationIDs) : Tables canon n acc' := by
  have hextends : acc.profile.Prefix acc'.profile :=
    ⟨hp, by rw [hmappings.1], by rw [hfunctions.1], by rw [hlocations.1]⟩
  refine ⟨hs, ?_, ?_, ?_, ?_, ?_, ?_, ?_, ?_, ?_⟩
  · rw [hmappings.1]
    exact h.mappings
  · rw [hmappings.1, hmappings.2]
    exact h.mappingIndex.congr fun m hm => mappingContent_of_extension canon hp (h.mappingIn m hm)
  · rw [hmappings.1]
    exact fun m hm => (h.mappingIn m hm).of_extension hp
  · rw [hfunctions.1]
    exact h.functions
  · rw [hfunctions.1, hfunctions.2]
    exact h.functionIndex.congr fun f hf =>
      functionContent_of_extension canon hp (h.functionIn f hf)
  · rw [hfunctions.1]
    exact fun f hf => (h.functionIn f hf).of_extension hp
  · rw [hlocations.1]
    exact h.locations
  · rw [hlocations.1, hlocations.2]
    exact h.locationIndex
  · rw [hlocations.1]
    exact fun l hl => (h.locationIn l hl).of_extension hextends

theorem Tables.of_interns (h : Tables canon m acc) (hi : Interns canon n acc acc') :
    Step canon n acc acc' :=
  ⟨h.of_strings hi.strings hi.grows ⟨hi.same.mappings, hi.same.mappingIDs⟩
    ⟨hi.same.functions, hi.same.functionIDs⟩ ⟨hi.same.locations, hi.same.locationIDs⟩, hi.extension,
    hi.same.sampleTypes, hi.same.samples, hi.same.sampleIndexes⟩

theorem nextId_toNat {k : ℕ} (h : k + 1 < 2 ^ 63) : (nextId k).toNat = k + 1 :=
  ofNat_succ_toNat (lt_trans h (by norm_num))

theorem Tables.add_mapping {x : Mapping} {k : MappingKey} {ids : Std.ExtHashMap MappingKey UInt64}
    (h : Tables canon (n + 1) { acc with mappingIDs := ids }) (hk : ids[k]? = none)
    (hids : acc.mappingIDs = ids.insert k (nextId acc.profile.mappings.length))
    (hx : mappingContent canon acc.profile x = k) (hin : MappingIn acc.profile x)
    (hid : x.id = nextId acc.profile.mappings.length) :
    Step canon n { acc with mappingIDs := ids }
      { acc with profile := { acc.profile with mappings := acc.profile.mappings ++ [x] } } := by
  have hroom := h.room
  have hextends : acc.profile.Prefix
      { acc.profile with mappings := acc.profile.mappings ++ [x] } :=
    ⟨List.prefix_refl _, List.prefix_append _ _, List.prefix_refl _, List.prefix_refl _⟩
  refine ⟨⟨⟨h.empty, h.index, ?_⟩, h.mappings.concat ?_, ?_, ?_,
    h.functions, h.functionIndex, fun f hf => (h.functionIn f hf).of_extension (List.prefix_refl _),
    h.locations, h.locationIndex, fun l hl => (h.locationIn l hl).of_extension hextends⟩, hextends,
    rfl, rfl, rfl⟩
  · change acc.profile.stringTable.length + (acc.profile.mappings ++ [x]).length +
      acc.profile.functions.length + acc.profile.locations.length + n < 2 ^ 63
    unfold entries at hroom
    dsimp only at hroom
    rw [List.length_append, List.length_singleton]
    omega
  · rw [hid]
    apply nextId_toNat
    unfold entries at hroom
    dsimp only at hroom
    omega
  · dsimp only
    rw [hids]
    exact h.mappingIndex.insert hk hx
  · intro m hm
    rcases List.mem_append.mp hm with hm | hm
    · exact (h.mappingIn m hm).of_extension (List.prefix_refl _)
    · rw [List.mem_singleton.mp hm]
      exact hin.of_extension (List.prefix_refl _)

/-- A function with new content goes to the end of the table. -/
theorem Tables.add_function {x : Function} {k : FunctionKey}
    {ids : Std.ExtHashMap FunctionKey UInt64}
    (h : Tables canon (n + 1) { acc with functionIDs := ids }) (hk : ids[k]? = none)
    (hids : acc.functionIDs = ids.insert k (nextId acc.profile.functions.length))
    (hx : functionContent canon acc.profile x = k) (hin : FunctionIn acc.profile x)
    (hid : x.id = nextId acc.profile.functions.length) :
    Step canon n { acc with functionIDs := ids }
      { acc with profile := { acc.profile with functions := acc.profile.functions ++ [x] } } := by
  have hroom := h.room
  have hextends : acc.profile.Prefix
      { acc.profile with functions := acc.profile.functions ++ [x] } :=
    ⟨List.prefix_refl _, List.prefix_refl _, List.prefix_append _ _, List.prefix_refl _⟩
  refine ⟨⟨⟨h.empty, h.index, ?_⟩, h.mappings, h.mappingIndex,
    fun m hm => (h.mappingIn m hm).of_extension (List.prefix_refl _), h.functions.concat ?_,
    ?_, ?_, h.locations, h.locationIndex,
    fun l hl => (h.locationIn l hl).of_extension hextends⟩, hextends, rfl, rfl, rfl⟩
  · change acc.profile.stringTable.length + acc.profile.mappings.length +
      (acc.profile.functions ++ [x]).length + acc.profile.locations.length + n < 2 ^ 63
    unfold entries at hroom
    dsimp only at hroom
    rw [List.length_append, List.length_singleton]
    omega
  · rw [hid]
    apply nextId_toNat
    unfold entries at hroom
    dsimp only at hroom
    omega
  · dsimp only
    rw [hids]
    exact h.functionIndex.insert hk hx
  · intro f hf
    rcases List.mem_append.mp hf with hf | hf
    · exact (h.functionIn f hf).of_extension (List.prefix_refl _)
    · rw [List.mem_singleton.mp hf]
      exact hin.of_extension (List.prefix_refl _)

variable (acc) in
/-- A location with a new key goes to the end of the table. -/
theorem Tables.add_location {x : Location} {k : LocationKey}
    {ids : Std.ExtHashMap LocationKey UInt64}
    (h : Tables canon (n + 1) { acc with locationIDs := ids }) (hk : ids[k]? = none)
    (hids : acc.locationIDs = ids.insert k (nextId acc.profile.locations.length))
    (hx : locationKey x = k) (hin : LocationIn acc.profile x)
    (hid : x.id = nextId acc.profile.locations.length) :
    Step canon n { acc with locationIDs := ids }
      { acc with profile := { acc.profile with locations := acc.profile.locations ++ [x] } } := by
  have hroom := h.room
  have hextends : acc.profile.Prefix
      { acc.profile with locations := acc.profile.locations ++ [x] } :=
    ⟨List.prefix_refl _, List.prefix_refl _, List.prefix_refl _, List.prefix_append _ _⟩
  refine ⟨⟨⟨h.empty, h.index, ?_⟩, h.mappings, h.mappingIndex,
    fun m hm => (h.mappingIn m hm).of_extension (List.prefix_refl _), h.functions, h.functionIndex,
    fun f hf => (h.functionIn f hf).of_extension (List.prefix_refl _), h.locations.concat ?_,
    ?_, ?_⟩, hextends, rfl, rfl, rfl⟩
  · change acc.profile.stringTable.length + acc.profile.mappings.length +
      acc.profile.functions.length + (acc.profile.locations ++ [x]).length + n < 2 ^ 63
    unfold entries at hroom
    dsimp only at hroom
    rw [List.length_append, List.length_singleton]
    omega
  · rw [hid]
    apply nextId_toNat
    unfold entries at hroom
    dsimp only at hroom
    omega
  · dsimp only
    rw [hids]
    exact h.locationIndex.insert hk hx
  · intro l hl
    rcases List.mem_append.mp hl with hl | hl
    · exact (h.locationIn l hl).of_extension hextends
    · rw [List.mem_singleton.mp hl]
      exact hin.of_extension hextends

variable {delta : DecodedProfile}

/-- `gid` is the accumulated id of a mapping with the content of `x`. -/
def MappingKnown (canon : String → String) (delta : DecodedProfile)
    (acc : LiveProfileAccumulator) (gid : UInt64) (x : Mapping) : Prop :=
  ∃ g, lookup Mapping.id acc.profile.mappings gid = some g ∧ MappingIn acc.profile g ∧
    mappingContent canon acc.profile g = mappingContent canon delta x

def FunctionKnown (canon : String → String) (delta : DecodedProfile)
    (acc : LiveProfileAccumulator) (gid : UInt64) (x : Function) : Prop :=
  ∃ g, lookup Function.id acc.profile.functions gid = some g ∧ FunctionIn acc.profile g ∧
    functionContent canon acc.profile g = functionContent canon delta x

/-- `gid` is the accumulated id of a location that says what `x` says. -/
def LocationKnown (canon : String → String) (delta : DecodedProfile)
    (acc : LiveProfileAccumulator) (gid : UInt64) (x : Location) : Prop :=
  ∃ g, lookup Location.id acc.profile.locations gid = some g ∧ LocationIn acc.profile g ∧
    locationView canon acc.profile g = locationView canon delta x

theorem MappingKnown.of_step {gid : UInt64} {x : Mapping} (h : MappingKnown canon delta acc gid x)
    (hs : Step canon n acc acc') : MappingKnown canon delta acc' gid x := by
  obtain ⟨g, hg, hin, hc⟩ := h
  exact ⟨g, lookup_of_extension _ hs.grows.mappings hg, hin.of_extension hs.grows.strings,
    (mappingContent_of_extension canon hs.grows.strings hin).trans hc⟩

theorem FunctionKnown.of_step {gid : UInt64} {x : Function}
    (h : FunctionKnown canon delta acc gid x) (hs : Step canon n acc acc') :
    FunctionKnown canon delta acc' gid x := by
  obtain ⟨g, hg, hin, hc⟩ := h
  exact ⟨g, lookup_of_extension _ hs.grows.functions hg, hin.of_extension hs.grows.strings,
    (functionContent_of_extension canon hs.grows.strings hin).trans hc⟩

theorem LocationKnown.of_extension {gid : UInt64} {x : Location}
    (h : LocationKnown canon delta acc gid x) (hp : acc.profile.Prefix acc'.profile)
    (hz : lookup Mapping.id acc'.profile.mappings 0 = none) :
    LocationKnown canon delta acc' gid x := by
  obtain ⟨g, hg, hin, hc⟩ := h
  exact ⟨g, lookup_of_extension _ hp.locations hg, hin.of_extension hp,
    (locationView_of_extension canon hp hz hin).trans hc⟩

theorem LocationKnown.of_step {gid : UInt64} {x : Location}
    (h : LocationKnown canon delta acc gid x) (hs : Step canon n acc acc') :
    LocationKnown canon delta acc' gid x :=
  h.of_extension hs.grows hs.tables.mapping_zero

structure Translates {α : Type} (known : LiveProfileAccumulator → UInt64 → α → Prop)
    (id : α → UInt64) (xs : List α) (acc : LiveProfileAccumulator) (map : IDMap) : Prop where
  entry : ∀ x ∈ xs, ∃ gid, map[id x]? = some gid ∧ known acc gid x
  other : ∀ k, (∀ x ∈ xs, id x ≠ k) → map[k]? = none

section Loop
variable {α : Type} {known : LiveProfileAccumulator → UInt64 → α → Prop} {id : α → UInt64}

theorem Translates.of_step {xs : List α} {map : IDMap} (h : Translates known id xs acc map)
    (hknown : ∀ gid x, known acc gid x → known acc' gid x) : Translates known id xs acc' map := by
  refine ⟨fun x hx => ?_, h.other⟩
  obtain ⟨gid, hgid, hk⟩ := h.entry x hx
  exact ⟨gid, hgid, hknown gid x hk⟩

theorem Translates.insert {xs : List α} {map : IDMap} (h : Translates known id xs acc map) {x : α}
    {gid : UInt64} (hk : known acc gid x) :
    Translates known id ((xs.filter fun y => id y ≠ id x) ++ [x]) acc
      (map.insert (id x) gid) := by
  constructor
  · intro y hy
    rcases List.mem_append.mp hy with hy | hy
    · obtain ⟨hy, hne⟩ := List.mem_filter.mp hy
      obtain ⟨gid', hgid', hk'⟩ := h.entry y hy
      refine ⟨gid', ?_, hk'⟩
      rw [Std.ExtHashMap.getElem?_insert, if_neg (by simpa using (of_decide_eq_true hne).symm),
        hgid']
    · rw [List.mem_singleton.mp hy]
      exact ⟨gid, by rw [Std.ExtHashMap.getElem?_insert, if_pos BEq.rfl], hk⟩
  · intro k hk'
    have hne := hk' x (List.mem_append_right _ List.mem_cons_self)
    rw [Std.ExtHashMap.getElem?_insert, if_neg (by simpa using hne)]
    refine h.other k fun y hy hyk =>
      hk' y (List.mem_append_left _ (List.mem_filter.mpr ⟨hy, ?_⟩)) hyk
    rw [hyk]
    exact decide_eq_true (Ne.symm hne)

/-- The invariant of a loop that translates ids, over entries of the given costs. -/
structure TranslateLoop (canon : String → String)
    (known : LiveProfileAccumulator → UInt64 → α → Prop) (id : α → UInt64) (cost : α → ℕ) (n : ℕ)
    (acc : LiveProfileAccumulator) (xs done rest : List α) (r : LiveProfileAccumulator × IDMap) :
    Prop where
  step : Step canon (n + (rest.map cost).sum) acc r.1
  translates : Translates known id (lastWins id done) r.1 r.2
  split : done ++ rest = xs

theorem translate_returns {xs : List α} (cost : α → ℕ)
    {f : LiveProfileAccumulator × IDMap → α → Except Trap (LiveProfileAccumulator × IDMap)}
    (hknown : ∀ a a' m gid x, Step canon m a a' → known a gid x → known a' gid x)
    (hf : ∀ a map x m, x ∈ xs → Step canon (m + cost x) acc a →
      Returns (fun r => Step canon m a r.1 ∧ ∃ gid, r.2 = map.insert (id x) gid ∧ known r.1 gid x)
        (f (a, map) x))
    (h : Tables canon (n + (xs.map cost).sum) acc) :
    Returns (fun r => Step canon n acc r.1 ∧ Translates known id (lastWins id xs) r.1 r.2)
      (xs.foldlM f (acc, (∅ : IDMap))) := by
  have hinit : TranslateLoop canon known id cost n acc xs [] xs (acc, (∅ : IDMap)) :=
    ⟨.refl h, ⟨by simp [lastWins], by simp⟩, rfl⟩
  refine (Returns.foldlM (TranslateLoop canon known id cost n acc xs) ?_ hinit).mono
    fun r hr => ⟨hr.step, hr.translates⟩
  rintro done x rest ⟨a, map⟩ hr
  have hx : x ∈ xs := by
    rw [← hr.split]
    exact List.mem_append_right _ List.mem_cons_self
  have hstep := hr.step
  rw [List.map_cons, List.sum_cons, Nat.add_comm (cost x), ← Nat.add_assoc] at hstep
  refine (hf a map x _ hx hstep).mono fun r' hr' => ?_
  obtain ⟨hs, gid, hmap, hk⟩ := hr'
  refine ⟨hr.step.trans hs, ?_, ?_⟩
  · rw [hmap, lastWins_concat]
    exact (hr.translates.of_step fun gid x hk => hknown _ _ _ gid x hs hk).insert hk
  · rw [← hr.split, List.append_assoc, List.singleton_append]

end Loop

theorem mergeMapping_returns (h : Tables canon (n + 3) acc) {map : IDMap} {x : Mapping}
    (hfit : Converts x.buildId ∧ Converts x.filename) :
    Returns (fun r => Step canon n acc r.1 ∧ ∃ gid, r.2 = map.insert x.id gid ∧
      MappingKnown canon delta r.1 gid x) (mergeMapping canon delta (acc, map) x) := by
  have hroom := h.room
  unfold mergeMapping
  rw [DecodedProfile.string_eq_ok hfit.1, DecodedProfile.string_eq_ok hfit.2]
  dsimp only [bind, Except.bind]
  split
  · next existing hs =>
    obtain ⟨g, hg, hc⟩ := h.mappingIndex.lookup_of_some h.mappings hs
    exact .of_ok ⟨.refl (h.mono (by omega)), existing, rfl, g, hg,
      h.mappingIn g (lookup_eq_some _ hg).1, hc⟩
  · next hs =>
    have hlt : acc.profile.mappings.length + 1 < 2 ^ 63 := by
      unfold entries at hroom
      omega
    refine (countID_returns hlt).bind fun id hid => ?_
    subst hid
    have h₁ : ∀ ids, Strings canon (n + 3) { acc with mappingIDs := ids } :=
      fun ids => h.toStrings.of_eq (k := 0) rfl rfl (le_refl _)
    refine (intern_returns (h₁ _) _).bind fun ⟨filename, acc₂⟩ h₂ => ?_
    refine (intern_returns h₂.1.strings _).bind fun ⟨buildID, acc₃⟩ h₃ => .of_ok ?_
    dsimp only at h₂ h₃ ⊢
    have hi := h₂.1.trans h₃.1
    -- The tables without the new key, which the index has already.
    have hacc : Step canon (n + 1) acc { acc₃ with mappingIDs := acc.mappingIDs } :=
      ⟨h.of_strings (hi.strings.of_eq (k := 0) rfl rfl (le_refl _)) hi.grows
        ⟨hi.same.mappings, rfl⟩ ⟨hi.same.functions, hi.same.functionIDs⟩
        ⟨hi.same.locations, hi.same.locationIDs⟩, hi.extension, hi.same.sampleTypes,
        hi.same.samples, hi.same.sampleIndexes⟩
    have hlen : acc₃.profile.mappings = acc.profile.mappings := hi.same.mappings
    have hcontent : mappingContent canon acc₃.profile { x with
        id := UInt64.ofNat (acc.profile.mappings.length + 1), filename := filename,
        buildId := buildID } = mappingContent canon delta x := by
      unfold mappingContent
      rw [h₃.2.2, DecodedProfile.text_of_extension h₃.1.grows h₂.2.1, h₂.2.2]
    have hadd := hacc.tables.add_mapping hs (by rw [hlen]; exact hi.same.mappingIDs) hcontent
      ⟨h₂.2.1.of_extension h₃.1.grows, h₃.2.1⟩ (by rw [hlen]; rfl)
    refine ⟨hacc.trans hadd, _, rfl, _, hadd.tables.mappings.lookup_eq
      (List.mem_append_right _ List.mem_cons_self), hadd.tables.mappingIn _
      (List.mem_append_right _ List.mem_cons_self), hcontent⟩

theorem Translates.mapping {map : IDMap} (h : Tables canon n acc)
    (ht : Translates (MappingKnown canon delta) Mapping.id delta.mappings acc map) (k : UInt64) :
    (lookup Mapping.id acc.profile.mappings (map[k]?.getD 0)).map
        (mappingContent canon acc.profile) =
      (lookup Mapping.id delta.mappings k).map (mappingContent canon delta) ∧
    (map[k]?.getD 0 = 0 ∨ ∃ g, lookup Mapping.id acc.profile.mappings (map[k]?.getD 0) = some g ∧
      MappingIn acc.profile g) := by
  cases hl : lookup Mapping.id delta.mappings k with
  | none =>
    have hnone : map[k]? = none := by
      apply ht.other
      rintro x hx rfl
      unfold lookup at hl
      rw [List.find?_eq_none] at hl
      exact hl x hx (by simp)
    rw [hnone, Option.getD_none, h.mapping_zero]
    exact ⟨rfl, .inl rfl⟩
  | some x =>
    obtain ⟨hx, rfl⟩ := lookup_eq_some _ hl
    obtain ⟨gid, hgid, g, hg, hin, hc⟩ := ht.entry x hx
    rw [hgid, Option.getD_some, hg, Option.map_some, Option.map_some, hc]
    exact ⟨rfl, .inr ⟨g, rfl, hin⟩⟩

theorem mergeMappings_returns
    (hfit : ∀ x ∈ delta.mappings, Converts x.buildId ∧ Converts x.filename)
    (h : Tables canon (n + 3 * delta.mappings.length) acc) :
    Returns (fun r => Step canon n acc r.1 ∧ Translates (MappingKnown canon delta) Mapping.id
        (lastWins Mapping.id delta.mappings) r.1 r.2)
      (delta.mappings.foldlM (mergeMapping canon delta) (acc, (∅ : IDMap))) := by
  refine translate_returns (fun _ => 3) (fun _ _ _ _ _ hs hk => hk.of_step hs)
    (fun a map x m hx hs => mergeMapping_returns hs.tables (hfit x hx)) ?_
  rw [List.map_const', List.sum_replicate, smul_eq_mul, Nat.mul_comm]
  exact h

theorem mergeFunction_returns (h : Tables canon (n + 4) acc) {x : Function}
    (hfit : FunctionConverts x) :
    Returns (fun r => Step canon n acc r.2 ∧ FunctionKnown canon delta r.2 r.1 x)
      (acc.mergeFunction canon delta x) := by
  have hroom := h.room
  unfold mergeFunction
  rw [DecodedProfile.string_eq_ok hfit.name, DecodedProfile.string_eq_ok hfit.systemName,
    DecodedProfile.string_eq_ok hfit.filename]
  dsimp only [bind, Except.bind]
  split
  · next existing hs =>
    obtain ⟨g, hg, hc⟩ := h.functionIndex.lookup_of_some h.functions hs
    exact .of_ok ⟨.refl (h.mono (by omega)), g, hg, h.functionIn g (lookup_eq_some _ hg).1, hc⟩
  · next hs =>
    have hlt : acc.profile.functions.length + 1 < 2 ^ 63 := by
      unfold entries at hroom
      omega
    refine (countID_returns hlt).bind fun id hid => ?_
    subst hid
    have h₁ : ∀ ids, Strings canon (n + 4) { acc with functionIDs := ids } :=
      fun ids => h.toStrings.of_eq (k := 0) rfl rfl (le_refl _)
    refine (intern_returns (h₁ _) _).bind fun ⟨name, acc₂⟩ h₂ => ?_
    refine (intern_returns h₂.1.strings _).bind fun ⟨systemName, acc₃⟩ h₃ => ?_
    refine (intern_returns h₃.1.strings _).bind fun ⟨filename, acc₄⟩ h₄ => .of_ok ?_
    dsimp only at h₂ h₃ h₄ ⊢
    have h₃₄ := h₃.1.grows.trans h₄.1.grows
    have hi := (h₂.1.trans h₃.1).trans h₄.1
    have hacc : Step canon (n + 1) acc { acc₄ with functionIDs := acc.functionIDs } :=
      ⟨h.of_strings (hi.strings.of_eq (k := 0) rfl rfl (le_refl _)) hi.grows
        ⟨hi.same.mappings, hi.same.mappingIDs⟩ ⟨hi.same.functions, rfl⟩
        ⟨hi.same.locations, hi.same.locationIDs⟩, hi.extension, hi.same.sampleTypes,
        hi.same.samples, hi.same.sampleIndexes⟩
    have hlen : acc₄.profile.functions = acc.profile.functions := hi.same.functions
    have hcontent : functionContent canon acc₄.profile
        { id := UInt64.ofNat (acc.profile.functions.length + 1), name := name,
          systemName := systemName, filename := filename, startLine := x.startLine } =
        functionContent canon delta x := by
      unfold functionContent
      rw [h₄.2.2, DecodedProfile.text_of_extension h₄.1.grows h₃.2.1, h₃.2.2,
        DecodedProfile.text_of_extension h₃₄ h₂.2.1, h₂.2.2]
    have hadd := hacc.tables.add_function hs (by rw [hlen]; exact hi.same.functionIDs) hcontent
      ⟨h₂.2.1.of_extension h₃₄, h₃.2.1.of_extension h₄.1.grows, h₄.2.1⟩ (by rw [hlen]; rfl)
    exact ⟨hacc.trans hadd, _, hadd.tables.functions.lookup_eq
      (List.mem_append_right _ List.mem_cons_self), hadd.tables.functionIn _
      (List.mem_append_right _ List.mem_cons_self), hcontent⟩

theorem incomingFunctions_getElem? (k : UInt64) :
    (incomingFunctions delta)[k]? = lookup Function.id delta.functions k := by
  have hgen : ∀ (fs : List Function) (map : Std.ExtHashMap UInt64 Function),
      (fs.foldl (fun map function => map.insertIfNew function.id function) map)[k]? =
        map[k]?.or (lookup Function.id fs k) := by
    intro fs
    induction fs with
    | nil => simp [lookup]
    | cons f fs ih =>
      intro map
      rw [List.foldl_cons, ih, Std.ExtHashMap.getElem?_insertIfNew]
      unfold lookup
      by_cases hk : f.id = k
      · subst hk
        by_cases hm : f.id ∈ map
        · simp [hm]
        · simp [hm]
      · simp [hk]
  unfold incomingFunctions
  rw [hgen]
  simp

/-- The lines of a location keep their order and what they say. -/
theorem mergeLines_returns (lines : List Line)
    (hfit : ∀ line ∈ lines, ∀ f, lookup Function.id delta.functions line.functionId = some f →
      FunctionConverts f) (h : Tables canon (n + 4 * lines.length) acc) :
    Returns (fun r => Step canon n acc r.2 ∧
        (∀ line ∈ r.1, ∃ f, lookup Function.id r.2.profile.functions line.functionId = some f ∧
          FunctionIn r.2.profile f) ∧
        r.1.filterMap (lineView canon r.2.profile) = lines.filterMap (lineView canon delta))
      (mergeLines canon delta (incomingFunctions delta) acc lines) := by
  induction lines generalizing acc with
  | nil => exact .of_ok ⟨.refl h, by simp, rfl⟩
  | cons line rest ih =>
    rw [List.forall_mem_cons] at hfit
    rw [List.length_cons, Nat.mul_succ, ← Nat.add_assoc] at h
    unfold mergeLines
    rw [incomingFunctions_getElem?]
    cases hf : lookup Function.id delta.functions line.functionId with
    | none =>
      have hnone : lineView canon delta line = none := by
        unfold lineView
        rw [hf]
        rfl
      refine (ih hfit.2 (h.mono (Nat.le_add_right _ _))).mono fun r hr => ?_
      rw [List.filterMap_cons_none hnone]
      exact hr
    | some x =>
      refine (mergeFunction_returns h (hfit.1 x hf)).bind fun ⟨gid, a₁⟩ h₁ => ?_
      refine (ih hfit.2 h₁.1.tables).bind fun ⟨lines, a₂⟩ h₂ => .of_ok ?_
      dsimp only at h₁ h₂ ⊢
      obtain ⟨g, hg, hin, hc⟩ := h₁.2.of_step h₂.1
      have hdelta : lineView canon delta line =
          some ⟨functionContent canon delta x, line.line, line.column⟩ := by
        unfold lineView
        rw [hf]
        rfl
      have hacc : lineView canon a₂.profile { line with functionId := gid } =
          some ⟨functionContent canon delta x, line.line, line.column⟩ := by
        unfold lineView
        dsimp only
        rw [hg, Option.map_some, hc]
      refine ⟨h₁.1.trans h₂.1, ?_, ?_⟩
      · rw [List.forall_mem_cons]
        exact ⟨⟨g, hg, hin⟩, h₂.2.1⟩
      · rw [List.filterMap_cons_some hdelta, List.filterMap_cons_some hacc, h₂.2.2]

theorem lineKey_injective {a b : Line} (h : lineKey a = lineKey b) : a = b := by
  cases a
  cases b
  cases h
  rfl

theorem mergeLocation_returns {mappingIDs map : IDMap} {x : Location}
    (h : Tables canon (n + (4 * x.lines.length + 1)) acc)
    (hmaps : Translates (MappingKnown canon delta) Mapping.id delta.mappings acc mappingIDs)
    (hfit : ∀ line ∈ x.lines, ∀ f, lookup Function.id delta.functions line.functionId = some f →
      FunctionConverts f) :
    Returns (fun r => Step canon n acc r.1 ∧ ∃ gid, r.2 = map.insert x.id gid ∧
      LocationKnown canon delta r.1 gid x)
      (mergeLocation canon delta (incomingFunctions delta) mappingIDs (acc, map) x) := by
  unfold mergeLocation
  have hlines : Tables canon ((n + 1) + 4 * x.lines.length) acc := h.mono (by omega)
  refine (mergeLines_returns x.lines hfit hlines).bind fun ⟨globalLines, a₁⟩ h₁ => ?_
  dsimp only at h₁ ⊢
  have hmapping := (hmaps.of_step fun gid x hk => hk.of_step h₁.1).mapping h₁.1.tables x.mappingId
  have hview : ∀ (d : DecodedProfile) (id : UInt64), d.mappings = a₁.profile.mappings →
      d.functions = a₁.profile.functions → d.stringTable = a₁.profile.stringTable →
      locationView canon d { x with
        id := id, mappingId := mappingIDs[x.mappingId]?.getD 0, lines := globalLines } =
      locationView canon delta x := by
    intro d id hm hf hs
    have htext : d.text = a₁.profile.text := by
      funext i
      rw [DecodedProfile.text, DecodedProfile.text, hs]
    unfold locationView
    dsimp only
    congr 1
    · rw [← hmapping.1, hm]
      unfold mappingContent
      rw [htext]
    · rw [← h₁.2.2]
      unfold lineView functionContent
      rw [htext, hf]
  split
  · next existing hs =>
    obtain ⟨g, hg, hc⟩ := h₁.1.tables.locationIndex.lookup_of_some h₁.1.tables.locations hs
    have hin := h₁.1.tables.locationIn g (lookup_eq_some _ hg).1
    have heq : g = { x with
        id := g.id, mappingId := mappingIDs[x.mappingId]?.getD 0, lines := globalLines } := by
      unfold locationKey at hc
      rw [LocationKey.mk.injEq] at hc
      obtain ⟨hm, ha, hl, hfold⟩ := hc
      rw [← hm, ← List.map_injective_iff.mpr (fun _ _ => lineKey_injective) hl]
      cases g
      cases ha
      cases hfold
      rfl
    refine .of_ok ⟨⟨h₁.1.tables.mono (by omega), h₁.1.grows, h₁.1.sampleTypes, h₁.1.samples,
      h₁.1.sampleIndexes⟩, existing, rfl, g, hg, hin, ?_⟩
    rw [heq]
    exact hview _ _ rfl rfl rfl
  · next hs =>
    have hroom := h₁.1.tables.room
    have hlt : a₁.profile.locations.length + 1 < 2 ^ 63 := by
      unfold entries at hroom
      omega
    refine (countID_returns hlt).bind fun id hid => .of_ok ?_
    subst hid
    have hadd := Tables.add_location { a₁ with
        locationIDs := a₁.locationIDs.insert
          ⟨mappingIDs[x.mappingId]?.getD 0, x.address, globalLines.map lineKey, x.isFolded⟩
          (nextId a₁.profile.locations.length) }
      (x := { x with
        id := UInt64.ofNat (a₁.profile.locations.length + 1)
        mappingId := mappingIDs[x.mappingId]?.getD 0, lines := globalLines })
      h₁.1.tables hs rfl rfl ⟨hmapping.2, h₁.2.1⟩ rfl
    exact ⟨h₁.1.trans hadd, _, rfl, _, hadd.tables.locations.lookup_eq
      (List.mem_append_right _ List.mem_cons_self), hadd.tables.locationIn _
      (List.mem_append_right _ List.mem_cons_self), hview _ _ rfl rfl rfl⟩

theorem mergeLocation_effective (functions : Std.ExtHashMap UInt64 Function) (mappingIDs : IDMap) :
    mergeLocation canon delta.effective functions mappingIDs =
      mergeLocation canon delta functions mappingIDs := by
  have hlines (a : LiveProfileAccumulator) (lines : List Line) :
      mergeLines canon delta.effective functions a lines =
        mergeLines canon delta functions a lines := by
    induction lines generalizing a with
    | nil => rfl
    | cons line rest ih =>
      unfold mergeLines
      cases functions[line.functionId]? with
      | none => exact ih a
      | some function =>
        dsimp only
        simp only [ih]
        rfl
  funext state location
  unfold mergeLocation
  simp only [hlines]

def locationCost (x : Location) : ℕ := 4 * x.lines.length + 1

theorem mergeLocations_returns {mappingIDs : IDMap}
    (hfit : ∀ x ∈ delta.locations, ∀ line ∈ x.lines, ∀ f,
      lookup Function.id delta.functions line.functionId = some f → FunctionConverts f)
    (h : Tables canon (n + (delta.locations.map locationCost).sum) acc)
    (hmaps : Translates (MappingKnown canon delta) Mapping.id
      (lastWins Mapping.id delta.mappings) acc mappingIDs) :
    Returns (fun r => Step canon n acc r.1 ∧
        Translates (LocationKnown canon delta.effective) Location.id
          (lastWins Location.id delta.locations) r.1 r.2)
      (delta.locations.foldlM (mergeLocation canon delta (incomingFunctions delta) mappingIDs)
        (acc, (∅ : IDMap))) := by
  refine translate_returns locationCost (fun _ _ _ _ _ hs hk => hk.of_step hs) ?_ h
  intro a map x m hx hs
  rw [← mergeLocation_effective]
  exact mergeLocation_returns hs.tables (hmaps.of_step fun _ _ hk => hk.of_step hs) (hfit x hx)

end LiveProfileAccumulator

end PProfessor.Kit
