import PProfessor.HeapDifference

set_option autoImplicit false

/-!
# A difference is a heap profile

The output of `difference` passes `validate_profile`: the tables of `current`
stay as they are and the locations of `base` resolve behind them to what they
were in `base`.
-/
namespace PProfessor.Heap
open CheckedArith Fallible Pprof

/-- A mapping without its id, with its strings. -/
structure MappingContents where
  memoryStart : UInt64
  memoryLimit : UInt64
  fileOffset : UInt64
  filename : String
  buildId : String
  hasFunctions : Bool
  hasFilenames : Bool
  hasLineNumbers : Bool
  hasInlineFrames : Bool

/-- A function without its id, with its strings. -/
structure FunctionContents where
  name : String
  systemName : String
  filename : String
  startLine : Int64

structure LineContents where
  function : Option FunctionContents
  line : Int64
  column : Int64

structure LocationContents where
  mapping : Option MappingContents
  address : UInt64
  lines : List LineContents
  isFolded : Bool

variable (p : PprofProfile)

def mappingContents (m : Mapping) : MappingContents where
  memoryStart := m.memoryStart
  memoryLimit := m.memoryLimit
  fileOffset := m.fileOffset
  filename := stringAt p m.filename
  buildId := stringAt p m.buildId
  hasFunctions := m.hasFunctions
  hasFilenames := m.hasFilenames
  hasLineNumbers := m.hasLineNumbers
  hasInlineFrames := m.hasInlineFrames

def functionContents (f : Function) : FunctionContents where
  name := stringAt p f.name
  systemName := stringAt p f.systemName
  filename := stringAt p f.filename
  startLine := f.startLine

def lineContents (line : Line) : LineContents where
  function := (ProfileIndex.new p).functions[line.functionId]?.map (functionContents p)
  line := line.line
  column := line.column

def locationContents (l : Location) : LocationContents where
  mapping := (ProfileIndex.new p).mappings[l.mappingId]?.map (mappingContents p)
  address := l.address
  lines := l.lines.map (lineContents p)
  isFolded := l.isFolded

variable {p}

theorem stringAt_eq {id : UInt64} {s : String} (h : p.strings.strings[id.toNat]? = some s) :
    stringAt p id = s := by
  rw [stringAt, h]
  rfl

theorem inStrings_of_some {id : UInt64} {s : String}
    (h : p.strings.strings[id.toNat]? = some s) : InStrings p id :=
  (List.getElem?_eq_some_iff.mp h).choose

theorem Relocated.lookup {α : Type} {id : α → UInt64}
    {copy : α → UInt64 → Except ProfileError α} {xs out copies : List α} {next : UInt64}
    {ids ids' : Std.ExtHashMap UInt64 UInt64} (h : Relocated id copy xs next ids ids' copies)
    (hxs : (xs.map id).Nodup) (hout : ((out ++ copies).map id).Nodup) {k : UInt64}
    (hk : k ∈ xs.map id) : ∃ x ∈ xs, ∃ y ∈ copies, copy x (id y) = .ok y ∧ ids'[k]? = some (id y) ∧
      (indexBy id xs)[k]? = some x ∧ (indexBy id (out ++ copies))[id y]? = some y := by
  obtain ⟨x, hx, rfl⟩ := List.mem_map.mp hk
  obtain ⟨y, hy, hcopy, hid⟩ := h.copied x hx
  exact ⟨x, hx, y, hy, hcopy, hid, (indexBy_eq_some_iff hxs _ x).mpr ⟨hx, rfl⟩,
    (indexBy_eq_some_iff hout _ y).mpr ⟨List.mem_append_right _ hy, rfl⟩⟩

namespace Merged

variable {base current out : PprofProfile} {strings : List UInt64}
  {functionIds locationIds : Std.ExtHashMap UInt64 UInt64}
  (h : Merged base current out strings functionIds locationIds)
include h

theorem string_kept {id : UInt64} (hid : InStrings current id) :
    InStrings out id ∧ stringAt out id = stringAt current id := by
  have hs := List.getElem?_eq_getElem (l := current.strings.strings) hid
  have hs' := getElem?_of_extension h.stringsKept hs
  exact ⟨inStrings_of_some hs', (stringAt_eq hs').trans (stringAt_eq hs).symm⟩

theorem string_moved {id id' : UInt64} (hid : InStrings base id)
    (hmove : remapString strings id = .ok id') :
    InStrings out id' ∧ stringAt out id' = stringAt base id := by
  have hs := List.getElem?_eq_getElem (l := base.strings.strings) hid
  obtain ⟨k, hk, hs'⟩ := h.stringsMoved _ _ hs
  rw [remapString, orError_eq_ok_iff, hk, Option.some.injEq] at hmove
  subst hmove
  exact ⟨inStrings_of_some hs', (stringAt_eq hs').trans (stringAt_eq hs).symm⟩

theorem mapping_kept {m : Mapping} (hm : m ∈ current.mappings) :
    (InStrings out m.filename ∧ InStrings out m.buildId) ∧
      mappingContents out m = mappingContents current m := by
  obtain ⟨hf, hb⟩ := h.currentValid.mapping m hm
  obtain ⟨hf', hfilename⟩ := h.string_kept hf
  obtain ⟨hb', hbuild⟩ := h.string_kept hb
  refine ⟨⟨hf', hb'⟩, ?_⟩
  rw [mappingContents, hfilename, hbuild]
  rfl

theorem function_kept {f : Function} (hf : f ∈ current.functions) :
    (InStrings out f.name ∧ InStrings out f.systemName ∧ InStrings out f.filename) ∧
      functionContents out f = functionContents current f := by
  obtain ⟨hn, hs, hf⟩ := h.currentValid.function f hf
  obtain ⟨hn', hname⟩ := h.string_kept hn
  obtain ⟨hs', hsystem⟩ := h.string_kept hs
  obtain ⟨hf', hfilename⟩ := h.string_kept hf
  refine ⟨⟨hn', hs', hf'⟩, ?_⟩
  rw [functionContents, hname, hsystem, hfilename]
  rfl

theorem mapping_moved {m m' : Mapping} (hm : m ∈ base.mappings) {n : UInt64}
    (hcopy : copyMapping strings m n = .ok m') :
    (InStrings out m'.filename ∧ InStrings out m'.buildId) ∧
      mappingContents out m' = mappingContents base m := by
  obtain ⟨hf, hb⟩ := h.baseValid.mapping m hm
  simp only [copyMapping, bind_eq_ok, Except.ok.injEq] at hcopy
  obtain ⟨filename, hmf, buildId, hmb, rfl⟩ := hcopy
  obtain ⟨hf', hfilename⟩ := h.string_moved hf hmf
  obtain ⟨hb', hbuild⟩ := h.string_moved hb hmb
  refine ⟨⟨hf', hb'⟩, ?_⟩
  rw [mappingContents, hfilename, hbuild]
  rfl

theorem function_moved {f f' : Function} (hf : f ∈ base.functions) {n : UInt64}
    (hcopy : copyFunction strings f n = .ok f') :
    (InStrings out f'.name ∧ InStrings out f'.systemName ∧ InStrings out f'.filename) ∧
      functionContents out f' = functionContents base f := by
  obtain ⟨hn, hs, hf⟩ := h.baseValid.function f hf
  simp only [copyFunction, bind_eq_ok, Except.ok.injEq] at hcopy
  obtain ⟨name, hmn, systemName, hms, filename, hmf, rfl⟩ := hcopy
  obtain ⟨hn', hname⟩ := h.string_moved hn hmn
  obtain ⟨hs', hsystem⟩ := h.string_moved hs hms
  obtain ⟨hf', hfilename⟩ := h.string_moved hf hmf
  refine ⟨⟨hn', hs', hf'⟩, ?_⟩
  rw [functionContents, hname, hsystem, hfilename]
  rfl

end Merged

theorem sampleKey_references {toJson : List FrameKey × List LabelKey → String}
    (hids : (p.locations.map Location.id).Nodup) {s : Sample} {key : String}
    (h : (ProfileIndex.new p).sampleKey toJson s = .ok key) :
    (∀ id ∈ s.locationIds, id ∈ p.locations.map Location.id) ∧
    ∀ label ∈ s.labels, InStrings p label.key ∧ InStrings p label.strIndex ∧
      InStrings p label.numUnit := by
  simp only [ProfileIndex.sampleKey, bind_eq_ok] at h
  obtain ⟨stack, hstack, labels, hlabels, -⟩ := h
  constructor
  · intro id hid
    obtain ⟨frame, hframe⟩ := forall_ok_of_mapM hstack id hid
    simp only [ProfileIndex.frameKey, bind_eq_ok, orError_eq_ok_iff] at hframe
    obtain ⟨l, hl, -⟩ := hframe
    obtain ⟨hmem, rfl⟩ := (indexBy_eq_some_iff hids id l).mp hl
    exact List.mem_map_of_mem hmem
  · intro label hl
    obtain ⟨key, hkey⟩ := forall_ok_of_mapM hlabels label hl
    simp only [ProfileIndex.labelKey, ProfileIndex.string, bind_eq_ok, orError_eq_ok_iff] at hkey
    obtain ⟨name, hname, text, htext, unit, hunit, -⟩ := hkey
    exact ⟨inStrings_of_some hname, inStrings_of_some htext, inStrings_of_some hunit⟩

namespace Stages

variable {toJson : List FrameKey × List LabelKey → String} {base current out : PprofProfile}
  {strings : List UInt64} {mappingIds functionIds locationIds : Std.ExtHashMap UInt64 UInt64}
  {mappings : List Mapping} {functions : List Function} {locations : List Location}
  {order : List ℕ} {samples samples' : SampleMap}
  (h : Stages toJson base current out strings mappingIds functionIds locationIds mappings
    functions locations order samples samples')
include h

theorem line_moved {l : Location} (hl : l ∈ base.locations) {line line' : Line}
    (hline : line ∈ l.lines) (hcopy : copyLine functionIds line = .ok line') :
    line'.functionId ∈ out.functions.map Function.id ∧
      lineContents out line' = lineContents base line := by
  have hin := (h.merged.baseValid.location l hl).2 line hline
  have hunique := h.merged.uniqueIds.2.1
  obtain ⟨hout, hrel, -⟩ := h.functions
  rw [hout] at hunique
  obtain ⟨f, hf, f', hf', hmoved, hid, hbase, hnew⟩ :=
    hrel.lookup h.merged.baseValid.functionIds.1 hunique.1 hin
  simp only [copyLine, bind_eq_ok, orError_eq_ok_iff, hid, Option.some.injEq,
    Except.ok.injEq] at hcopy
  obtain ⟨_, rfl, rfl⟩ := hcopy
  rw [← hout] at hnew
  constructor
  · rw [hout]
    exact List.mem_map_of_mem (List.mem_append_right _ hf')
  · have hold : (ProfileIndex.new base).functions[line.functionId]? = some f := hbase
    have hnew' : (ProfileIndex.new out).functions[f'.id]? = some f' := hnew
    simp only [lineContents, hold, hnew', Option.map_some, (h.merged.function_moved hf hmoved).2]

theorem mapping_of_moved {l : Location} (hl : l ∈ base.locations) {id : UInt64}
    (hid : mappingIds[l.mappingId]? = some id) :
    (id = 0 ∨ id ∈ out.mappings.map Mapping.id) ∧
      (ProfileIndex.new out).mappings[id]?.map (mappingContents out) =
        (ProfileIndex.new base).mappings[l.mappingId]?.map (mappingContents base) := by
  have hunique := h.merged.uniqueIds.1
  obtain ⟨hout, hrel, -⟩ := h.mappings
  rcases (h.merged.baseValid.location l hl).1 with hz | hin
  · rw [hz, hrel.other 0 h.merged.baseValid.mappingIds.2] at hid
    have hid0 : id = 0 := by simpa [eq_comm] using hid
    have hold : (ProfileIndex.new base).mappings[(0 : UInt64)]? = none :=
      (indexBy_eq_none_iff h.merged.baseValid.mappingIds.1 0).mpr h.merged.baseValid.mappingIds.2
    have hnew : (ProfileIndex.new out).mappings[(0 : UInt64)]? = none :=
      (indexBy_eq_none_iff hunique.1 0).mpr hunique.2
    refine ⟨.inl hid0, ?_⟩
    rw [hid0, hz, hold, hnew]
    rfl
  · rw [hout] at hunique
    obtain ⟨m, hm, m', hm', hmoved, hmid, hbase, hnew⟩ :=
      hrel.lookup h.merged.baseValid.mappingIds.1 hunique.1 hin
    rw [hid, Option.some.injEq] at hmid
    rw [← hmid, ← hout] at hnew
    have hold : (ProfileIndex.new base).mappings[l.mappingId]? = some m := hbase
    have hnew' : (ProfileIndex.new out).mappings[id]? = some m' := hnew
    refine ⟨.inr ?_, ?_⟩
    · rw [hout, hmid]
      exact List.mem_map_of_mem (List.mem_append_right _ hm')
    · rw [hold, hnew', Option.map_some, Option.map_some, (h.merged.mapping_moved hm hmoved).2]

theorem location_moved {l l' : Location} (hl : l ∈ base.locations) {n : UInt64}
    (hcopy : copyLocation mappingIds functionIds l n = .ok l') :
    ((l'.mappingId = 0 ∨ l'.mappingId ∈ out.mappings.map Mapping.id) ∧
      ∀ line ∈ l'.lines, line.functionId ∈ out.functions.map Function.id) ∧
    locationContents out l' = locationContents base l := by
  simp only [copyLocation, bind_eq_ok, orError_eq_ok_iff, Except.ok.injEq] at hcopy
  obtain ⟨mappingId, hm, lines, hlines, rfl⟩ := hcopy
  obtain ⟨hvalid, hmapping⟩ := h.mapping_of_moved hl hm
  refine ⟨⟨hvalid, ?_⟩, ?_⟩
  · intro line' hline'
    obtain ⟨line, hline, hcopy⟩ := mapM_mem hlines hline'
    exact (h.line_moved hl hline hcopy).1
  · have hmap : lines.map (lineContents out) = l.lines.map (lineContents base) := by
      apply mapM_map_eq hlines
      intro line hline line' hcopy
      exact (h.line_moved hl hline hcopy).2
    simp only [locationContents, hmapping, hmap]

theorem location_kept {l : Location} (hl : l ∈ current.locations) :
    ((l.mappingId = 0 ∨ l.mappingId ∈ out.mappings.map Mapping.id) ∧
      ∀ line ∈ l.lines, line.functionId ∈ out.functions.map Function.id) ∧
    locationContents out l = locationContents current l := by
  obtain ⟨hmu, hfu, -⟩ := h.merged.uniqueIds
  have hms : current.mappings <+: out.mappings := ⟨_, h.mappings.1.symm⟩
  have hfs : current.functions <+: out.functions := ⟨_, h.functions.1.symm⟩
  obtain ⟨hmapping, hlines⟩ := h.merged.currentValid.location l hl
  refine ⟨⟨hmapping.imp_right fun hin => (hms.sublist.map _).subset hin,
    fun line hline => (hfs.sublist.map _).subset (hlines line hline)⟩, ?_⟩
  have hmap : l.lines.map (lineContents out) = l.lines.map (lineContents current) := by
    apply List.map_congr_left
    intro line hline
    obtain ⟨f, hf, hid⟩ := List.mem_map.mp (hlines line hline)
    have hold : (ProfileIndex.new current).functions[line.functionId]? = some f :=
      (indexBy_eq_some_iff h.merged.currentValid.functionIds.1 _ f).mpr ⟨hf, hid⟩
    have hnew : (ProfileIndex.new out).functions[line.functionId]? = some f :=
      (indexBy_eq_some_iff hfu.1 _ f).mpr ⟨hfs.subset hf, hid⟩
    simp only [lineContents, hold, hnew, Option.map_some, (h.merged.function_kept hf).2]
  have hm : (ProfileIndex.new out).mappings[l.mappingId]?.map (mappingContents out) =
      (ProfileIndex.new current).mappings[l.mappingId]?.map (mappingContents current) := by
    rcases hmapping with hz | hin
    · have hold : (ProfileIndex.new current).mappings[l.mappingId]? = none := by
        rw [hz]
        exact (indexBy_eq_none_iff h.merged.currentValid.mappingIds.1 0).mpr
          h.merged.currentValid.mappingIds.2
      have hnew : (ProfileIndex.new out).mappings[l.mappingId]? = none := by
        rw [hz]
        exact (indexBy_eq_none_iff hmu.1 0).mpr hmu.2
      rw [hold, hnew]
      rfl
    · obtain ⟨m, hmem, hid⟩ := List.mem_map.mp hin
      have hold : (ProfileIndex.new current).mappings[l.mappingId]? = some m :=
        (indexBy_eq_some_iff h.merged.currentValid.mappingIds.1 _ m).mpr ⟨hmem, hid⟩
      have hnew : (ProfileIndex.new out).mappings[l.mappingId]? = some m :=
        (indexBy_eq_some_iff hmu.1 _ m).mpr ⟨hms.subset hmem, hid⟩
      rw [hold, hnew, Option.map_some, Option.map_some, (h.merged.mapping_kept hmem).2]
  simp only [locationContents, hm, hmap]

theorem entry_of_mem {s : Sample} (hs : s ∈ out.samples) : ∃ k : String, samples'[k]? = some s := by
  rw [h.shown, List.mem_filter] at hs
  obtain ⟨e, he, rfl⟩ := List.mem_map.mp hs.1
  exact ⟨e.1, Std.ExtTreeMap.mem_toList_iff_getElem?_eq_some.mp he⟩

theorem header_inStrings : ∀ id ∈ out.comments ++ [out.defaultSampleType, out.docUrl,
    out.dropFrames, out.keepFrames, out.periodType.type, out.periodType.unit],
    InStrings out id := by
  obtain ⟨comment, hcomment, hout⟩ := h.header
  intro id hid
  rw [hout] at hid
  change id ∈ (current.comments ++ [comment]) ++ _ at hid
  rw [List.append_assoc, List.mem_append, List.mem_append, List.mem_singleton] at hid
  have hkept := fun hin => (h.merged.string_kept (h.merged.currentValid.header id hin)).1
  rcases hid with hid | rfl | hid
  · exact hkept (List.mem_append_left _ hid)
  · exact inStrings_of_some hcomment
  · exact hkept (List.mem_append_right _ hid)

theorem valid_out : Valid out := by
  obtain ⟨hmu, hfu, hlu⟩ := h.merged.uniqueIds
  have hcurrent := h.merged.currentValid
  have htypes := h.types_out
  have hcolumns : out.valueTypes = current.valueTypes := by
    obtain ⟨_, -, hout⟩ := h.header
    rw [hout]
  refine ⟨?_, hmu, hfu, hlu, ?_, ?_, ?_, ?_, h.header_inStrings, ?_, ?_, ?_, ?_, ?_⟩
  · have hhead := hcurrent.emptyFirst
    rw [List.head?_eq_getElem?] at hhead ⊢
    exact getElem?_of_extension h.merged.stringsKept hhead
  · intro m hm
    rw [h.mappings.1, List.mem_append] at hm
    rcases hm with hm | hm
    · exact (h.merged.mapping_kept hm).1
    · obtain ⟨m₀, hm₀, hcopy⟩ := KeyedSum.forall₂_exists_left h.mappings.2.2 hm
      exact (h.merged.mapping_moved hm₀ hcopy).1
  · intro f hf
    rw [h.functions.1, List.mem_append] at hf
    rcases hf with hf | hf
    · exact (h.merged.function_kept hf).1
    · obtain ⟨f₀, hf₀, hcopy⟩ := KeyedSum.forall₂_exists_left h.functions.2.2 hf
      exact (h.merged.function_moved hf₀ hcopy).1
  · intro l hl
    rw [h.locations.1, List.mem_append] at hl
    rcases hl with hl | hl
    · exact (h.location_kept hl).1
    · obtain ⟨l₀, hl₀, hcopy⟩ := KeyedSum.forall₂_exists_left h.locations.2.2 hl
      exact (h.location_moved hl₀ hcopy).1
  · intro s hs
    obtain ⟨k, hk⟩ := h.entry_of_mem hs
    exact sampleKey_references hlu.1 (h.tally.entry k s hk).1
  · rw [hcolumns]
    exact hcurrent.hasMetrics
  · rw [hcolumns]
    intro v hv
    obtain ⟨ht, hu⟩ := hcurrent.valueType v hv
    exact ⟨(h.merged.string_kept ht).1, (h.merged.string_kept hu).1⟩
  · rw [htypes]
    exact hcurrent.names
  · rw [htypes]
    exact hcurrent.supported
  · intro s hs
    obtain ⟨k, hk⟩ := h.entry_of_mem hs
    rw [hcolumns]
    exact (h.tally.entry k s hk).2.1

end Stages

/-- A difference is a valid heap profile: what `current` named it still names
with the same contents, and the locations of `base` follow with theirs. -/
theorem difference_valid (toJson : List FrameKey × List LabelKey → String)
    (base current out : PprofProfile) (h : difference toJson base current = .ok out)
    (hlen : out.strings.strings.length < 2 ^ 64) :
    validateProfile out = .ok () ∧
    (current.strings.strings <+: out.strings.strings ∧ current.mappings <+: out.mappings ∧
      current.functions <+: out.functions ∧ current.locations <+: out.locations) ∧
    ((∀ m ∈ current.mappings, mappingContents out m = mappingContents current m) ∧
      (∀ f ∈ current.functions, functionContents out f = functionContents current f) ∧
      ∀ l ∈ current.locations, locationContents out l = locationContents current l) ∧
    ∃ appended, out.locations = current.locations ++ appended ∧
      List.Forall₂ (fun l l' => locationContents out l' = locationContents base l)
        base.locations appended := by
  obtain ⟨strings, mappingIds, functionIds, locationIds, mappings, functions, locations, order,
    samples, samples', hs⟩ := difference_stages h hlen
  refine ⟨(validateProfile_eq_ok_iff out ()).mpr hs.valid_out, ?_, ?_, locations,
    hs.locations.1, ?_⟩
  · exact ⟨hs.merged.stringsKept, ⟨_, hs.mappings.1.symm⟩, ⟨_, hs.functions.1.symm⟩,
      ⟨_, hs.locations.1.symm⟩⟩
  · exact ⟨fun m hm => (hs.merged.mapping_kept hm).2, fun f hf => (hs.merged.function_kept hf).2,
      fun l hl => (hs.location_kept hl).2⟩
  · have hmem := KeyedSum.forall₂_mem_left hs.locations.2.2
    exact hmem.imp fun l l' hl => (hs.location_moved hl.1 hl.2).2

/-- The mapping, the function and the location of the base have moved behind those of the current
profile. -/
theorem difference_valid_swappedColumns : ∃ out location,
    difference (fun _ => fillKey) objectsFirst spaceFirst = .ok out ∧
    validateProfile out = .ok () ∧ out.locations = spaceFirst.locations ++ [location] ∧
    locationContents out location =
      locationContents objectsFirst ⟨1, 1, 0x1010, [⟨1, 12, 0⟩], false⟩ ∧
    ∀ l ∈ spaceFirst.locations, locationContents out l = locationContents spaceFirst l := by
  obtain ⟨out, h⟩ := swappedColumns_ok
  have hlen : out.strings.strings.length < 2 ^ 64 :=
    lt_of_le_of_lt (difference_strings_length_le h) (by decide)
  obtain ⟨hvalid, -, ⟨-, -, hkept⟩, appended, hlocations, hmoved⟩ :=
    difference_valid (fun _ => fillKey) objectsFirst spaceFirst out h hlen
  cases hmoved with
  | cons hlocation hrest =>
    cases hrest
    exact ⟨out, _, h, hvalid, hlocations, hlocation, hkept⟩

end PProfessor.Heap
