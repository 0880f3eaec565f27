import PProfessor.ImageMappings

set_option autoImplicit false

/-!
# The ranges of mappings

Which locations of an export lie between the start and the limit of their mapping.
-/
namespace PProfessor.Capture
open CheckedArith KeyedSum NumberedTable PartitionPoint Pprof

/-- Locations with a mapping lie in its range. -/
def LocationsInside (p : PprofProfile) : Prop :=
  ∀ l ∈ p.locations, l.mappingId ≠ 0 →
    ∃ m, lookup Mapping.id p.mappings l.mappingId = some m ∧
      m.memoryStart ≤ l.address ∧ l.address < m.memoryLimit

/-- The addresses for which `build_proto` writes a location. -/
def SymbolicatedProfile.Located (profile : SymbolicatedProfile) (addr : UInt64) : Prop :=
  ∃ s ∈ profile.samples, addr ∈ s.stack ∧ addr ∈ profile.frames

section
variable (images : List LoadedImage)

theorem locationFor_addresses (addr : UInt64) (frame : StackFrame) (b : Builder) :
    ∀ l ∈ (locationFor images addr frame b).2.enc.locations,
      l ∈ b.enc.locations ∨ l.address = addr := by
  intro l hl
  unfold locationFor at hl
  cases hid : b.locIdMap[addr]? with
  | some id =>
    rw [hid] at hl
    exact .inl hl
  | none =>
    rw [hid] at hl
    rcases List.mem_append.mp hl with hold | hnew
    · rw [(functionFor_locations addr frame b).1] at hold
      exact .inl hold
    · rw [List.mem_singleton.mp hnew]
      exact .inr rfl

theorem locationIds_addresses (frames : Std.ExtHashMap UInt64 StackFrame) (stack : List UInt64)
    (b : Builder) : ∀ l ∈ (locationIds images frames stack b).2.enc.locations,
      l ∈ b.enc.locations ∨ (l.address ∈ stack ∧ l.address ∈ frames) := by
  induction stack generalizing b with
  | nil => exact fun l hl => .inl hl
  | cons addr rest ih =>
    intro l hl
    unfold locationIds at hl
    cases hframe : frames[addr]? with
    | none =>
      rw [hframe] at hl
      exact (ih b l hl).imp_right fun h => ⟨List.mem_cons_of_mem _ h.1, h.2⟩
    | some frame =>
      rw [hframe] at hl
      rcases ih _ l hl with hl | hl
      · rcases locationFor_addresses images addr frame b l hl with hold | hnew
        · exact .inl hold
        · refine .inr ⟨hnew ▸ List.mem_cons_self, ?_⟩
          rw [hnew, Std.ExtHashMap.mem_iff_isSome_getElem?, hframe]
          rfl
      · exact .inr ⟨List.mem_cons_of_mem _ hl.1, hl.2⟩

variable (profile : SymbolicatedProfile) (names : LabelNames) (periodNs : Int64)

theorem addSample_locations (b : Builder) (s : Sample) :
    (addSample images profile names periodNs b s).enc.locations =
      (locationIds images profile.frames s.stack b).2.enc.locations := by
  unfold addSample
  dsimp only
  split_ifs <;> rfl

theorem addSamples_addresses (samples : List Sample) (b : Builder) :
    ∀ l ∈ (samples.foldl (addSample images profile names periodNs) b).enc.locations,
      l ∈ b.enc.locations ∨ ∃ s ∈ samples, l.address ∈ s.stack ∧ l.address ∈ profile.frames := by
  induction samples generalizing b with
  | nil => exact fun l hl => .inl hl
  | cons s samples ih =>
    intro l hl
    rcases ih _ l hl with hl | ⟨s', hs', haddr⟩
    · rw [addSample_locations] at hl
      exact (locationIds_addresses images profile.frames s.stack b l hl).imp_right
        fun haddr => ⟨s, List.mem_cons_self, haddr⟩
    · exact .inr ⟨s', List.mem_cons_of_mem _ hs', haddr⟩

end

theorem pushMappings_getElem? (fileLen : String → Option UInt64) {images : List LoadedImage}
    (index : ℕ) (enc : PprofProfile) {i : ℕ} {image : LoadedImage}
    (h : images[i]? = some image) :
    ∃ m, (pushMappings fileLen images index enc).mappings[enc.mappings.length + i]? = some m ∧
      m.memoryStart = image.loadAddress ∧
      m.memoryLimit = memoryLimit fileLen image (images.drop (i + 1)) := by
  induction images generalizing index enc i with
  | nil => cases h
  | cons first rest ih =>
    unfold pushMappings
    cases i with
    | zero =>
      rw [List.getElem?_cons_zero, Option.some.injEq] at h
      obtain ⟨-, -, strings, mappings, heq, -⟩ := pushMappings_spec fileLen rest (index + 1)
        { enc with
          strings := (enc.strings.intern first.path).2
          mappings := enc.mappings ++
            [imageMapping fileLen first rest index (enc.strings.intern first.path).1] }
      refine ⟨imageMapping fileLen first rest index (enc.strings.intern first.path).1, ?_, ?_, ?_⟩
      · dsimp only at heq ⊢
        rw [heq, List.append_assoc, Nat.add_zero, List.getElem?_append_right (Nat.le_refl _),
          Nat.sub_self]
        rfl
      · rw [← h]
        rfl
      · rw [← h]
        rfl
    | succ i =>
      rw [List.getElem?_cons_succ] at h
      have hrest := ih (index + 1)
        { enc with
          strings := (enc.strings.intern first.path).2
          mappings := enc.mappings ++
            [imageMapping fileLen first rest index (enc.strings.intern first.path).1] } h
      rw [List.length_append, List.length_singleton, Nat.add_right_comm] at hrest
      exact hrest

theorem builtProfile_mappings (fileLen : String → Option UInt64) (profile : SymbolicatedProfile) :
    (builtProfile fileLen profile).mappings = (pushMappings fileLen (sortedImages profile) 0
      (started profile (periodNanos profile.freqHz))).mappings := by
  rw [builtProfile_eq, (addSamples_grows _ _ _ _ _ _).header]

/-- The end of an image: its load address and the length of its file, or one byte
where there is none, within 64 bits. -/
def imageEnd (fileLen : String → Option UInt64) (image : LoadedImage) : ℕ :=
  min (image.loadAddress.toNat + ((fileLen image.path).getD 1).toNat) (2 ^ 64 - 1)

theorem lt_memoryLimit_iff (fileLen : String → Option UInt64) (image : LoadedImage)
    (rest : List LoadedImage) (addr : UInt64) : addr < memoryLimit fileLen image rest ↔
      match rest.head? with
      | some next => addr < next.loadAddress
      | none => addr.toNat < imageEnd fileLen image := by
  unfold memoryLimit imageEnd
  cases rest.head? with
  | some next => rfl
  | none =>
    cases fileLen image.path with
    | some len => exact lt_saturatingAddU64_iff _ _ _
    | none => exact lt_saturatingAddU64_iff _ _ _

/-- Locations at or above the last image lie before its end. -/
def BelowEnd (fileLen : String → Option UInt64) (images : List LoadedImage) (addr : UInt64) :
    Prop :=
  ∀ last, (sortByKey LoadedImage.loadAddress images).getLast? = some last →
    last.loadAddress ≤ addr → addr.toNat < imageEnd fileLen last

section
variable {fileLen : String → Option UInt64} {profile : SymbolicatedProfile} {names : LabelNames}

/-- The mapping of an address above some image is that of the image before the
partition point. -/
theorem mapping_found (hc : Contents profile names (builtProfile fileLen profile)) {i : ℕ}
    {image : LoadedImage} (h : (sortedImages profile)[i]? = some image) {id : UInt64}
    (hid : id.toNat = i + 1) :
    ∃ m, lookup Mapping.id (builtProfile fileLen profile).mappings id = some m ∧
      m.memoryStart = image.loadAddress ∧
      m.memoryLimit = memoryLimit fileLen image ((sortedImages profile).drop (i + 1)) := by
  obtain ⟨m, hm, hrange⟩ := pushMappings_getElem? fileLen 0
    (started profile (periodNanos profile.freqHz)) h
  have hget : (builtProfile fileLen profile).mappings[i]? = some m := by
    rw [builtProfile_mappings, ← hm]
    exact congrArg _ (Nat.zero_add i).symm
  have hsame : m.id = id := UInt64.toNat_inj.mp ((hc.mappings i m hget).trans hid.symm)
  refine ⟨m, ?_, hrange⟩
  rw [← hsame]
  exact hc.mappings.lookup_eq (List.mem_of_getElem? hget)

theorem mappingId_toNat (hc : Contents profile names (builtProfile fileLen profile))
    (hfit : (builtProfile fileLen profile).mappings.length < 2 ^ 63) {l : Location}
    (hl : l ∈ (builtProfile fileLen profile).locations) : l.mappingId.toNat =
      partitionPoint (fun image => decide (image.loadAddress ≤ l.address))
        (sortedImages profile) := by
  have hlen : (sortedImages profile).length < 2 ^ 64 := by
    rw [hc.mappingCount] at hfit
    rw [sortedImages, List.length_mergeSort]
    omega
  rw [(hc.shown l hl).mapping]
  exact mappingFor_toNat hlen l.address

theorem location_inside_iff_lt (hc : Contents profile names (builtProfile fileLen profile))
    (hfit : (builtProfile fileLen profile).mappings.length < 2 ^ 63) {l : Location}
    (hl : l ∈ (builtProfile fileLen profile).locations) {k : ℕ} {image : LoadedImage}
    (hk : l.mappingId.toNat = k + 1) (himage : (sortedImages profile)[k]? = some image) :
    (∃ m, lookup Mapping.id (builtProfile fileLen profile).mappings l.mappingId = some m ∧
      m.memoryStart ≤ l.address ∧ l.address < m.memoryLimit) ↔
      l.address < memoryLimit fileLen image ((sortedImages profile).drop (k + 1)) := by
  obtain ⟨m, hm, hstart, hlimit⟩ := mapping_found hc himage hk
  have hbelow : image.loadAddress ≤ l.address := by
    rw [mappingId_toNat hc hfit hl] at hk
    have hprec : preceding (fun image => decide (image.loadAddress ≤ l.address))
        (sortedImages profile) = some image := by
      rw [preceding_eq_getElem? (by omega), hk]
      exact himage
    exact of_decide_eq_true (preceding_spec hprec).1
  constructor
  · rintro ⟨m', hm', -, hlt⟩
    rw [hm, Option.some.injEq] at hm'
    rwa [← hm', hlimit] at hlt
  · intro hlt
    exact ⟨m, hm, hstart ▸ hbelow, hlimit ▸ hlt⟩

theorem location_inside_iff (hc : Contents profile names (builtProfile fileLen profile))
    (hfit : (builtProfile fileLen profile).mappings.length < 2 ^ 63) {l : Location}
    (hl : l ∈ (builtProfile fileLen profile).locations) :
    (l.mappingId ≠ 0 → ∃ m,
      lookup Mapping.id (builtProfile fileLen profile).mappings l.mappingId = some m ∧
        m.memoryStart ≤ l.address ∧ l.address < m.memoryLimit) ↔
      BelowEnd fileLen profile.images l.address := by
  have hpart : Partitioned (fun image => decide (image.loadAddress ≤ l.address))
      (sortedImages profile) :=
    partitioned_of_sorted (sortByKey_sorted LoadedImage.loadAddress profile.images) l.address
  have hid := mappingId_toNat hc hfit hl
  unfold BelowEnd
  change _ ↔ ∀ last, (sortedImages profile).getLast? = some last → _
  cases hlast : (sortedImages profile).getLast? with
  | none =>
    rw [List.getLast?_eq_none_iff.mp hlast] at hid
    refine iff_of_true (fun hne => absurd (UInt64.toNat_inj.mp hid) hne) fun last h => ?_
    cases h
  | some last =>
    have hend := partitionPoint_eq_length_iff hpart hlast
    rw [decide_eq_true_eq] at hend
    by_cases hle : last.loadAddress ≤ l.address
    -- The last image has no image behind it.
    · have hpoint := hend.mpr hle
      have hpos : 0 < (sortedImages profile).length :=
        List.length_pos_of_mem (List.mem_of_getLast? hlast)
      have hk : l.mappingId.toNat = (sortedImages profile).length - 1 + 1 := by omega
      have hne : l.mappingId ≠ 0 := by
        intro hzero
        rw [hzero] at hk
        cases hk
      rw [List.getLast?_eq_getElem?] at hlast
      rw [imp_iff_right hne, location_inside_iff_lt hc hfit hl hk hlast, lt_memoryLimit_iff,
        Nat.sub_add_cancel hpos, List.drop_length]
      constructor
      · intro hlt last' hlast' _
        rwa [← Option.some.inj hlast']
      · exact fun h => h last rfl hle
    -- The image behind that of the mapping is above the address.
    · have hlt : partitionPoint (fun image => decide (image.loadAddress ≤ l.address))
          (sortedImages profile) < (sortedImages profile).length :=
        lt_of_le_of_ne (partitionPoint_le _ _) (mt hend.mp hle)
      refine iff_of_true (fun hne => ?_) fun last' hlast' hle' => ?_
      · obtain ⟨k, hk⟩ := Nat.exists_eq_succ_of_ne_zero fun h => hne (UInt64.toNat_inj.mp h)
        have hkey := List.getElem?_eq_getElem (show k < (sortedImages profile).length by omega)
        obtain ⟨next, hnext⟩ : ∃ next, (sortedImages profile)[k + 1]? = some next :=
          ⟨_, List.getElem?_eq_getElem (by omega)⟩
        rw [location_inside_iff_lt hc hfit hl hk hkey, lt_memoryLimit_iff, List.head?_drop, hnext]
        rw [← Nat.succ_eq_add_one, ← hk, hid] at hnext
        exact UInt64.not_le.mp fun h => not_of_getElem?_partitionPoint hnext (decide_eq_true h)
      · rw [← Option.some.inj hlast'] at hle'
        exact absurd hle' hle

theorem locationsInside_iff (hc : Contents profile names (builtProfile fileLen profile))
    (hfit : (builtProfile fileLen profile).mappings.length < 2 ^ 63) :
    LocationsInside (builtProfile fileLen profile) ↔
      ∀ addr, profile.Located addr → BelowEnd fileLen profile.images addr := by
  constructor
  · rintro h addr ⟨s, hs, hstack, hframe⟩
    have hknown : addr ∈ knownStack profile.frames s.stack :=
      List.mem_filter.mpr ⟨hstack, decide_eq_true hframe⟩
    have hkept : s ∈ profile.kept :=
      List.mem_filter.mpr ⟨hs, decide_eq_true (List.ne_nil_of_mem hknown)⟩
    obtain ⟨t, -, hrenders⟩ := forall₂_exists_right hc.samples hkept
    have hmem := List.mem_map_of_mem (f := some) hknown
    rw [← hrenders.locations] at hmem
    obtain ⟨id, -, haddr⟩ := List.mem_map.mp hmem
    obtain ⟨l, hl, rfl⟩ := Option.map_eq_some_iff.mp haddr
    have hin := (lookup_eq_some _ hl).1
    exact (location_inside_iff hc hfit hin).mp (h l hin)
  · intro h l hl
    rw [location_inside_iff hc hfit hl]
    have hl' := hl
    rw [builtProfile_eq] at hl'
    rcases addSamples_addresses _ _ _ _ _ _ l hl' with hold | ⟨s, hs, hstack, hframe⟩
    · obtain ⟨-, -, strings, mappings, hpush, -⟩ := pushMappings_spec fileLen
        (sortedImages profile) 0 (started profile (periodNanos profile.freqHz))
      dsimp only at hold
      rw [hpush] at hold
      exact absurd hold List.not_mem_nil
    · exact h l.address ⟨s, hs, hstack, hframe⟩

end

theorem buildProto_decodes {fileLen : String → Option UInt64} {profile : SymbolicatedProfile}
    (hfreq : profile.freqHz ≠ 0) (hfit : VecsFit (builtProfile fileLen profile)) :
    ∃ bytes, buildProto fileLen profile = .ok bytes ∧
      PprofProfile.decode bytes = .ok (builtProfile fileLen profile) := by
  obtain ⟨names, hc⟩ := builtProfile_contents fileLen profile hfit
  have hdecode := decode_encode (builtProfile fileLen profile) hc.built
    (hfit.encoding.trans (by norm_num))
  rw [(PprofProfile.survivor_eq_self_iff _).mpr hc.noDefault] at hdecode
  exact ⟨_, if_neg hfreq, hdecode⟩

/-- The locations that `build_proto` writes lie in their mappings exactly if no
address with a frame lies behind the end of the last image. -/
theorem buildProto_locations_inside (fileLen : String → Option UInt64)
    (profile : SymbolicatedProfile) (hfit : VecsFit (builtProfile fileLen profile)) :
    (∀ bytes p, buildProto fileLen profile = .ok bytes → PprofProfile.decode bytes = .ok p →
      LocationsInside p) ↔
    profile.freqHz = 0 ∨
      ∀ addr, profile.Located addr → BelowEnd fileLen profile.images addr := by
  obtain ⟨names, hc⟩ := builtProfile_contents fileLen profile hfit
  rw [← locationsInside_iff hc hfit.mappings]
  by_cases hfreq : profile.freqHz = 0
  · refine iff_of_true (fun bytes p h => ?_) (.inl hfreq)
    rw [buildProto, if_pos hfreq] at h
    cases h
  · obtain ⟨bytes, hbytes, hdecode⟩ := buildProto_decodes hfreq hfit
    rw [or_iff_right hfreq]
    constructor
    · exact fun h => h bytes _ hbytes hdecode
    · intro h bytes' p hbytes' hp
      rw [hbytes] at hbytes'
      rw [← Except.ok.inj hbytes', hdecode] at hp
      rwa [← Except.ok.inj hp]

def jitted (addr : UInt64) : SymbolicatedProfile where
  images := [⟨0x1000, "app"⟩]
  frames := (∅ : Std.ExtHashMap UInt64 StackFrame).insert addr ⟨addr, "main", "main.c", 3⟩
  threads := (∅ : Std.ExtHashMap UInt64 String)
  samples := [⟨7, [addr], 1, none⟩]
  startTime := 0
  duration := 0
  freqHz := 1000

def appLength (_path : String) : Option UInt64 := some 0x100

theorem jitted_built (addr : UInt64) : builtProfile appLength (jitted addr) =
    { started (jitted addr) (periodNanos 1000) with
      strings := .ofStrings (exportStrings ++ ["app", "main", "main.c"])
      mappings := [imageMapping appLength ⟨0x1000, "app"⟩ [] 0 8]
      functions := [⟨1, 9, 9, 10, 0⟩]
      locations := [⟨1, mappingFor [⟨0x1000, "app"⟩] addr, addr, [⟨1, 3, 0⟩], false⟩]
      samples := [⟨[1], [1, saturatingMulI64 1 (periodNanos 1000)], [⟨5, 0, 7, 0⟩]⟩] } := by
  have hframe : (jitted addr).frames[addr]? = some ⟨addr, "main", "main.c", 3⟩ := by
    simp [jitted]
  have hthread : (jitted addr).threads[(7 : UInt64)]? = none := by simp [jitted]
  have happ : (StringTable.ofStrings exportStrings).intern "app" =
      (8, .ofStrings (exportStrings ++ ["app"])) := StringTable.intern_ofStrings _ _
  have hmain : (StringTable.ofStrings (exportStrings ++ ["app"])).intern "main" =
      (9, .ofStrings (exportStrings ++ ["app", "main"])) := StringTable.intern_ofStrings _ _
  have hfile : (StringTable.ofStrings (exportStrings ++ ["app", "main"])).intern "main.c" =
      (10, .ofStrings (exportStrings ++ ["app", "main", "main.c"])) :=
    StringTable.intern_ofStrings _ _
  have hempty : (∅ : Std.ExtHashMap UInt64 UInt64)[addr]? = none := by simp
  have himages : sortedImages (jitted addr) = [⟨0x1000, "app"⟩] := by
    simp [sortedImages, jitted]
  rw [builtProfile_eq, himages]
  unfold pushMappings
  simp only [started, PprofProfile.withStrings, happ]
  change (addSample [⟨0x1000, "app"⟩] (jitted addr) ⟨5, 6, 7, 4⟩ (periodNanos 1000) _
    ⟨7, [addr], 1, none⟩).enc = _
  unfold addSample
  simp only [locationIds, hframe, locationFor, hempty, functionFor, pushMappings, hmain, hfile,
    hthread, Option.getD_none, if_true]
  rw [if_neg (List.cons_ne_nil _ _)]
  rfl

theorem jitted_vecsFit (addr : UInt64) : VecsFit (builtProfile appLength (jitted addr)) := by
  rw [jitted_built]
  refine ⟨⟨?_, ?_, ?_⟩, ?_, lt_of_le_of_lt (PprofProfile.encode_length_le _) ?_⟩
  · change 11 < 2 ^ 63
    norm_num
  · change 1 < 2 ^ 63
    norm_num
  · change 1 < 2 ^ 63
    norm_num
  · change 1 < 2 ^ 63
    norm_num
  · change 782 < 2 ^ 63
    norm_num

theorem jitted_belowEnd_iff {addr a : UInt64} : BelowEnd appLength (jitted addr).images a ↔
    (0x1000 ≤ a → a.toNat < 0x1100) := by
  unfold BelowEnd
  rw [show sortByKey LoadedImage.loadAddress (jitted addr).images = [⟨0x1000, "app"⟩] from
    sortByKey_of_sorted (List.pairwise_singleton _ _)]
  constructor
  · exact fun h => h ⟨0x1000, "app"⟩ rfl
  · intro h last hlast
    rw [← Option.some.inj hlast]
    exact h

theorem buildProto_locations_inside_app :
    ∃ bytes p, buildProto appLength (jitted 0x1080) = .ok bytes ∧
      PprofProfile.decode bytes = .ok p ∧ LocationsInside p := by
  obtain ⟨bytes, hbytes, hdecode⟩ := buildProto_decodes (show (jitted 0x1080).freqHz ≠ 0 by decide)
    (jitted_vecsFit 0x1080)
  refine ⟨bytes, _, hbytes, hdecode, ?_⟩
  refine (buildProto_locations_inside appLength (jitted 0x1080) (jitted_vecsFit _)).mpr (.inr ?_)
    bytes _ hbytes hdecode
  rintro addr ⟨s, hs, haddr, -⟩
  rw [List.mem_singleton.mp hs, List.mem_singleton] at haddr
  rw [haddr, jitted_belowEnd_iff]
  decide

/-- An address behind the file of the only image, such as one of generated code. -/
theorem buildProto_locations_inside_jitted :
    ¬ ∀ bytes p, buildProto appLength (jitted 0x2000) = .ok bytes →
      PprofProfile.decode bytes = .ok p → LocationsInside p := by
  intro h
  obtain ⟨names, hc⟩ := builtProfile_contents appLength (jitted 0x2000) (jitted_vecsFit _)
  obtain ⟨bytes, hbytes, hdecode⟩ := buildProto_decodes (show (jitted 0x2000).freqHz ≠ 0 by decide)
    (jitted_vecsFit 0x2000)
  have hinside := (locationsInside_iff hc (jitted_vecsFit _).mappings).mp (h _ _ hbytes hdecode)
  have hlocated : (jitted 0x2000).Located 0x2000 :=
    ⟨_, List.mem_singleton_self _, List.mem_singleton_self _, by simp [jitted]⟩
  have hbelow := jitted_belowEnd_iff.mp (hinside 0x2000 hlocated)
  exact absurd hbelow (by decide)

end PProfessor.Capture
