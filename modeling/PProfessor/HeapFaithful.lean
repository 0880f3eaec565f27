import PProfessor.EncodedSize
import PProfessor.HeapContents

set_option autoImplicit false

/-!
# The heap export is faithful

An exported profile passes `validate_profile`, survives the codec, and has the
sums and the frames of the samples that were added, in whatever order they were.
-/
namespace PProfessor.Heap
open Capture (InTable inTable_zero inTable_of_getElem? index_ne_zero VecsFit)
open KeyedSum NumberedTable Pprof

variable {h : HeapProfile} {start p : PprofProfile} {label : Label} {frames : List HeapFrame}
  {entries : List (Stack × HeapValues)}

structure HeapLabel (p : PprofProfile) (domain : String) (label : Label) : Prop where
  key : p.strings.strings[label.key.toNat]? = some "heap"
  domain : p.strings.strings[label.strIndex.toNat]? = some domain
  number : label.num = 0 ∧ label.numUnit = 0

theorem HeapContents.heapLabel (hc : HeapContents frames label entries start p)
    (hs : HeapStarted h start label) : HeapLabel p h.domain label := by
  refine ⟨?_, getElem?_of_extension hc.grown.strings hs.labelDomain, hs.labelKey.2⟩
  rw [hs.labelKey.1]
  exact getElem?_of_extension (hs.names.trans hc.grown.strings) rfl

theorem HeapContents.sample (hc : HeapContents frames label entries start p) {s : Sample}
    (hmem : s ∈ p.samples) : s.labels = [label] ∧ s.values.length = 4 ∧
      ∀ id ∈ s.locationIds, ∃ frame, FrameShown p frames frame id := by
  by_cases hempty : entries = []
  · rw [hc.empty hempty, List.mem_singleton] at hmem
    rw [hmem]
    exact ⟨rfl, rfl, by simp⟩
  · obtain ⟨entry, -, hshows⟩ := forall₂_exists_left (hc.samples hempty) hmem
    refine ⟨hshows.labels, by rw [hshows.values]; rfl, ?_⟩
    intro id hid
    obtain ⟨frame, -, hframe⟩ := forall₂_exists_left hshows.locations hid
    exact ⟨frame, hframe⟩

theorem HeapContents.types (hc : HeapContents frames label entries start p)
    (hs : HeapStarted h start label) :
    p.valueTypes = heapValueTypes ∧ types p = heapMetrics := by
  have hvt : p.valueTypes = heapValueTypes := by
    rw [hc.grown.header]
    exact hs.valueTypes
  obtain ⟨rest, hrest⟩ := hs.names.trans hc.grown.strings
  refine ⟨hvt, ?_⟩
  rw [Heap.types, hvt]
  unfold stringAt
  rw [← hrest]
  rfl

theorem HeapContents.header (hc : HeapContents frames label entries start p)
    (hs : HeapStarted h start label) : p.defaultSampleType = 6 ∧ p.docUrl = 0 ∧
      p.dropFrames = 0 ∧ p.keepFrames = 0 ∧ p.periodType = ⟨0, 0⟩ ∧
      p.comments = start.comments := by
  obtain ⟨hdefault, hdoc, hdrop, hkeep, hperiod⟩ := hs.header
  rw [hc.grown.header]
  exact ⟨hdefault, hdoc, hdrop, hkeep, hperiod, rfl⟩

theorem HeapContents.inStrings (hc : HeapContents frames label entries start p)
    (hs : HeapStarted h start label) {id : UInt64} (hid : id.toNat < 8) : InStrings p id :=
  lt_of_lt_of_le hid (hs.names.trans hc.grown.strings).length_le

theorem uniqueIds_of_numbered {α : Type} {id : α → UInt64} {xs : List α} (h : Numbered id xs) :
    UniqueIds (xs.map id) := by
  refine ⟨h.nodup, ?_⟩
  intro hzero
  obtain ⟨x, hx, hxz⟩ := List.mem_map.mp hzero
  exact h.ne_zero hx hxz

theorem HeapContents.valid (hc : HeapContents frames label entries start p)
    (hs : HeapStarted h start label) : Valid p := by
  obtain ⟨hvt, htypes⟩ := hc.types hs
  obtain ⟨hdefault, hdoc, hdrop, hkeep, hperiod, hcomments⟩ := hc.header hs
  have hlabel := hc.heapLabel hs
  have hzero : InStrings p 0 := inTable_zero hc.built
  refine ⟨hc.built.canonical.1, uniqueIds_of_numbered hc.mappings,
    uniqueIds_of_numbered hc.functions, uniqueIds_of_numbered hc.locations, ?_, ?_, ?_, ?_, ?_, ?_,
    ?_, ?_, ?_, ?_⟩
  · exact fun m hm => ⟨(hc.mappingNames m hm).filename, (hc.mappingNames m hm).buildId⟩
  · intro f hf
    have hnames := hc.functionNames f hf
    exact ⟨hnames.name, hnames.systemName, hnames.filename⟩
  · intro l hl
    obtain ⟨⟨f, hf, line, hline⟩, hmapping⟩ := hc.located l hl
    refine ⟨hmapping, ?_⟩
    rw [hline, List.forall_mem_singleton]
    exact List.mem_map_of_mem hf
  · intro s hsample
    obtain ⟨hlabels, -, hshown⟩ := hc.sample hsample
    refine ⟨?_, ?_⟩
    · intro id hid
      obtain ⟨frame, l, f, name, hl, -⟩ := hshown id hid
      obtain ⟨hmem, hlid⟩ := lookup_eq_some Location.id hl
      exact List.mem_map.mpr ⟨l, hmem, hlid⟩
    · rw [hlabels, List.forall_mem_singleton, hlabel.number.2]
      exact ⟨inTable_of_getElem? hlabel.key, inTable_of_getElem? hlabel.domain, hzero⟩
  · intro id hid
    rw [hdefault, hdoc, hdrop, hkeep, hperiod, hcomments, List.mem_append] at hid
    rcases hid with hcomment | hid
    · obtain ⟨s, hstring, -⟩ := hs.comments id hcomment
      exact inTable_of_getElem? (getElem?_of_extension hc.grown.strings hstring)
    · simp only [List.mem_cons, List.not_mem_nil, or_false] at hid
      apply hc.inStrings hs
      rcases hid with rfl | rfl | rfl | rfl | rfl | rfl <;> decide
  · rw [hvt]
    exact List.cons_ne_nil _ _
  · rw [hvt]
    intro v hv
    have hsmall : v.type.toNat < 8 ∧ v.unit.toNat < 8 := by
      simp only [heapValueTypes, List.mem_cons, List.not_mem_nil, or_false] at hv
      rcases hv with rfl | rfl | rfl | rfl <;> decide
    exact ⟨hc.inStrings hs hsmall.1, hc.inStrings hs hsmall.2⟩
  · rw [htypes]
    decide
  · rw [htypes]
    decide
  · intro s hsample
    rw [(hc.sample hsample).2.1, hvt]
    rfl

theorem HeapContents.noDefault (hc : HeapContents frames label entries start p)
    (hs : HeapStarted h start label) : p.NoDefaultElement := by
  have hlabel := hc.heapLabel hs
  refine ⟨?_, ?_, ?_, ?_, ?_, ?_⟩
  · rw [(hc.types hs).1]
    decide
  · intro s hsample
    obtain ⟨hlabels, hvalues, -⟩ := hc.sample hsample
    refine ⟨?_, ?_⟩
    · rintro rfl
      cases hvalues
    · rw [hlabels, List.forall_mem_singleton]
      rintro hd
      have hkey := hs.labelKey.1
      rw [hd] at hkey
      cases hkey
  · rintro m hm rfl
    exact hc.mappings.ne_zero hm rfl
  · intro l hl
    refine ⟨?_, ?_⟩
    · rintro rfl
      exact hc.locations.ne_zero hl rfl
    · obtain ⟨⟨f, hf, line, hline⟩, -⟩ := hc.located l hl
      rw [hline, List.forall_mem_singleton]
      intro hd
      exact hc.functions.ne_zero hf (congrArg Line.functionId hd)
  · rintro f hf rfl
    exact hc.functions.ne_zero hf rfl
  · intro c hcomment
    rw [(hc.header hs).2.2.2.2.2] at hcomment
    obtain ⟨s, hstring, hne⟩ := hs.comments c hcomment
    exact index_ne_zero hc.built (getElem?_of_extension hc.grown.strings hstring) hne

theorem flagsOf_congr {frames frames' : List HeapFrame} (h : ∀ f, f ∈ frames ↔ f ∈ frames')
    (image : HeapMapping) : flagsOf frames image = flagsOf frames' image := by
  have hany (known : HeapFrame → Bool) : frames.any known = frames'.any known := by
    rw [Bool.eq_iff_iff, List.any_eq_true, List.any_eq_true]
    simp only [h]
  rw [flagsOf, hany, hany, hany]
  rfl

theorem FrameShown.of_same_frames {frames frames' : List HeapFrame}
    (hsame : ∀ f, f ∈ frames ↔ f ∈ frames') {frame : HeapFrame} {id : UInt64}
    (hshown : FrameShown p frames frame id) : FrameShown p frames' frame id := by
  obtain ⟨l, f, name, hl, haddress, hlines, hf, hname, hshown, hsystem, hfile, hmapping⟩ := hshown
  refine ⟨l, f, name, hl, haddress, hlines, hf, hname, hshown, hsystem, hfile, ?_⟩
  cases himage : frame.mapping with
  | none =>
    rw [himage] at hmapping
    exact hmapping
  | some image =>
    rw [himage] at hmapping
    obtain ⟨m, hm, hshows⟩ := hmapping
    exact ⟨m, hm, hshows.memoryStart, hshows.memoryLimit, hshows.fileOffset, hshows.filename,
      hshows.buildId, hshows.flags.trans (flagsOf_congr hsame image)⟩

theorem toInt64_toInt {v : UInt64} (h : v.toNat ≤ 2 ^ 63 - 1) : v.toInt64.toInt = v.toNat := by
  have hv : v.toBitVec.toNat = v.toNat := rfl
  change v.toBitVec.toInt = v.toNat
  rw [BitVec.toInt_eq_toNat_of_lt, hv]
  omega

structure StackExported (domain : String) (done : List AddCall) (p : PprofProfile) (stack : Stack)
    (s : Sample) : Prop where
  locations : List.Forall₂ (FrameShown p (done.map Prod.fst).flatten) stack s.locationIds
  values : s.values.map Int64.toInt = [((costOf done stack).1 : ℤ), ((costOf done stack).2.1 : ℤ),
    ((costOf done stack).2.2.1 : ℤ), ((costOf done stack).2.2.2 : ℤ)]
  label : ∃ label, HeapLabel p domain label ∧ s.labels = [label]

/-- One sample for each stack that was added, or one empty sample. -/
structure HeapExported (domain : String) (done : List AddCall) (p : PprofProfile) : Prop where
  types : types p = heapMetrics
  perStack : done ≠ [] → ∃ added : List Stack, added.Nodup ∧
    (∀ stack, stack ∈ added ↔ ∃ call ∈ done, call.1 = stack) ∧
      List.Forall₂ (StackExported domain done p) added p.samples
  empty : done = [] → ∃ label, HeapLabel p domain label ∧ p.samples = [⟨[], [0, 0, 0, 0], [label]⟩]

theorem Entered.mem_toList {profile : HeapProfile} {done : List AddCall}
    (he : Entered profile done) (stack : Stack) :
    stack ∈ profile.samples.toList.map Prod.fst ↔ ∃ call ∈ done, call.1 = stack := by
  rw [← he.mem, Std.ExtTreeMap.map_fst_toList_eq_keys, Std.ExtTreeMap.mem_keys]

theorem Entered.mem_framesOf {profile : HeapProfile} {done : List AddCall}
    (he : Entered profile done) (frame : HeapFrame) :
    frame ∈ framesOf profile.samples ↔ frame ∈ (done.map Prod.fst).flatten := by
  rw [framesOf, List.mem_flatten, List.mem_flatten]
  simp only [he.mem_toList, List.mem_map]

theorem Entered.exported {done : List AddCall} (he : Entered h done)
    (hs : HeapStarted h start label)
    (hc : HeapContents (framesOf h.samples) label h.samples.toList start p) :
    HeapExported h.domain done p := by
  have hlabel := hc.heapLabel hs
  have hempty : h.samples.toList = [] ↔ done = [] := by
    have hkeys := he.mem_toList
    constructor
    · intro hnil
      rw [hnil] at hkeys
      rw [List.eq_nil_iff_forall_not_mem]
      intro call hcall
      simpa using (hkeys call.1).mpr ⟨call, hcall, rfl⟩
    · rintro rfl
      rw [← List.map_eq_nil_iff (f := Prod.fst), List.eq_nil_iff_forall_not_mem]
      intro stack hstack
      simpa using (hkeys stack).mp hstack
  refine ⟨(hc.types hs).2, ?_, ?_⟩
  · intro hdone
    refine ⟨h.samples.toList.map Prod.fst, ?_, he.mem_toList, ?_⟩
    · rw [Std.ExtTreeMap.map_fst_toList_eq_keys]
      exact Std.ExtTreeMap.nodup_keys
    · rw [List.forall₂_map_left_iff]
      have hshown := hc.samples (fun hnil => hdone (hempty.mp hnil))
      refine ((List.forall₂_and_left _ _).mpr ⟨fun _ hmem => hmem, hshown⟩).imp ?_
      rintro ⟨stack, v⟩ s ⟨hmem, hsample⟩
      rw [Std.ExtTreeMap.mem_toList_iff_getElem?_eq_some] at hmem
      have hcost : v.cost = costOf done stack := by
        rw [← he.cost, HeapProfile.costAt, hmem]
        rfl
      obtain ⟨h₁, h₂, h₃, h₄⟩ : v.cost ≤ costLimit := by
        have hle := he.le stack
        rwa [HeapProfile.costAt, hmem] at hle
      refine ⟨hsample.locations.imp fun _ _ hf => hf.of_same_frames he.mem_framesOf, ?_,
        label, hlabel, hsample.labels⟩
      rw [hsample.values, ← hcost]
      simp only [HeapValues.values, List.map_cons, List.map_nil, toInt64_toInt h₁,
        toInt64_toInt h₂, toInt64_toInt h₃, toInt64_toInt h₄]
      rfl
  · intro hdone
    exact ⟨label, hlabel, hc.empty (hempty.mpr hdone)⟩

theorem HeapProfile.toPprof_ok (h : HeapProfile) (hok : h.toPprof = .ok p) :
    p = pushSamples h.samples (startExport h (.ofInt h.collectedAt)).2
      (startExport h (.ofInt h.collectedAt)).1 := by
  unfold toPprof at hok
  split_ifs at hok <;> cases hok
  rfl

/-- The profile that the calls leave, with a comment. -/
def filled (domain comment : String) (now : ℤ) (calls : List AddCall) : HeapProfile :=
  { ((HeapProfile.new domain now).addAll calls).2 with comment := comment }

/-- The calls that succeed. -/
def accepted (domain : String) (now : ℤ) (calls : List AddCall) : List AddCall :=
  ((HeapProfile.new domain now).addAll calls).1

/-- An export passes validation, survives the codec, says what the successful
calls added, and where none fails it does not depend on their order. -/
theorem toPprof_faithful (domain comment : String) (now : ℤ) (calls : List AddCall) :
    (∀ p, (filled domain comment now calls).toPprof = .ok p → VecsFit p →
      validateProfile p = .ok () ∧ PprofProfile.decode p.encode = .ok p ∧
        HeapExported domain (accepted domain now calls) p) ∧
    ∀ calls', calls.Perm calls' → accepted domain now calls = calls →
      (filled domain comment now calls').toPprof = (filled domain comment now calls).toPprof := by
  constructor
  · intro p hok hfit
    have hresult := HeapProfile.toPprof_ok _ hok
    have hexport : ExportFits p := ⟨hfit.toTablesFit, hfit.mappings⟩
    have hentered : Entered (filled domain comment now calls) (accepted domain now calls) := by
      have h := (entered_new domain now).addAll calls
      exact ⟨h.nonempty, h.mem, h.cost, h.le⟩
    have hdomain : (filled domain comment now calls).domain = domain := by
      change ((HeapProfile.new domain now).addAll calls).2.domain = domain
      rw [HeapProfile.addAll_header]
      rfl
    generalize filled domain comment now calls = h at *
    subst hdomain
    have hstart : (startExport h (.ofInt h.collectedAt)).1.strings.strings.length < 2 ^ 63 := by
      refine lt_of_le_of_lt (pushSamples_grown h.samples
        (startExport h (.ofInt h.collectedAt)).2 _).strings.length_le ?_
      rw [← hresult]
      exact hfit.strings
    have hs := startExport_started h (.ofInt h.collectedAt) hstart
    rw [hresult] at hexport
    have hc := pushSamples_contents hs h.samples hexport
    rw [← hresult] at hc
    refine ⟨(validateProfile_eq_ok_iff p ()).mpr (hc.valid hs), ?_, hentered.exported hs hc⟩
    rw [decode_encode p hc.built (lt_trans hfit.encoding (by norm_num)),
      p.survivor_eq_self_iff.mpr (hc.noDefault hs)]
  · intro calls' hp hall
    unfold filled
    rw [(addAll_perm domain now hp hall).2]

def twoCalls : List AddCall :=
  [([⟨0x1000, "main", "main.c", 3, none⟩], ⟨1, 8, 1, 8⟩),
    ([⟨0x1000, "main", "main.c", 3, none⟩], ⟨2, 16, 0, 0⟩)]

theorem twoCalls_filled : filled "native" "" 0 twoCalls = ⟨"native", 0, "",
    (∅ : Std.ExtTreeMap Stack HeapValues).insert [⟨0x1000, "main", "main.c", 3, none⟩]
      ⟨3, 24, 1, 8⟩⟩ := rfl

def twoCallsExport : PprofProfile :=
  { PprofProfile.withStrings (.ofStrings (heapStrings ++ ["native", "main", "main.c"])) with
    valueTypes := heapValueTypes
    defaultSampleType := 6
    functions := [⟨1, 9, 9, 10, 0⟩]
    locations := [⟨1, 0, 0x1000, [⟨1, 3, 0⟩], false⟩]
    samples := [⟨[1], [3, 24, 1, 8], [⟨7, 8, 0, 0⟩]⟩] }

theorem twoCalls_toPprof : (filled "native" "" 0 twoCalls).toPprof = .ok twoCallsExport := by
  have hnative : (StringTable.ofStrings heapStrings).intern "native" =
      (8, .ofStrings (heapStrings ++ ["native"])) := StringTable.intern_ofStrings _ _
  have hmain : (StringTable.ofStrings (heapStrings ++ ["native"])).intern "main" =
      (9, .ofStrings (heapStrings ++ ["native", "main"])) := StringTable.intern_ofStrings _ _
  have hfile : (StringTable.ofStrings (heapStrings ++ ["native", "main"])).intern "main.c" =
      (10, .ofStrings (heapStrings ++ ["native", "main", "main.c"])) :=
    StringTable.intern_ofStrings _ _
  have hstart : startExport (filled "native" "" 0 twoCalls) 0 =
      ({ PprofProfile.withStrings (.ofStrings (heapStrings ++ ["native"])) with
        valueTypes := heapValueTypes, defaultSampleType := 6 }, ⟨7, 8, 0, 0⟩) := by
    rw [startExport_eq, twoCalls_filled]
    simp only [startComments, domainStrings, hnative]
    rfl
  have hok : (filled "native" "" 0 twoCalls).toPprof = .ok (pushSamples
      (filled "native" "" 0 twoCalls).samples (startExport (filled "native" "" 0 twoCalls) 0).2
        (startExport (filled "native" "" 0 twoCalls) 0).1) := rfl
  rw [hok, hstart, twoCalls_filled]
  have hstack : pushStacks ((∅ : Std.ExtTreeMap Stack HeapValues).insert
      [⟨0x1000, "main", "main.c", 3, none⟩] ⟨3, 24, 1, 8⟩) ⟨7, 8, 0, 0⟩
        { PprofProfile.withStrings (.ofStrings (heapStrings ++ ["native"])) with
          valueTypes := heapValueTypes, defaultSampleType := 6 } =
      ⟨(∅ : Std.ExtTreeMap HeapFrame UInt64).insert ⟨0x1000, "main", "main.c", 3, none⟩ 1,
        twoCallsExport⟩ := by
    change pushStack ∅ _ ⟨∅, { PprofProfile.withStrings (.ofStrings (heapStrings ++ ["native"]))
      with valueTypes := heapValueTypes, defaultSampleType := 6 }⟩
        ([⟨0x1000, "main", "main.c", 3, none⟩], ⟨3, 24, 1, 8⟩) = _
    have hnone : (∅ : Std.ExtTreeMap HeapFrame UInt64)[(⟨0x1000, "main", "main.c", 3, none⟩ :
      HeapFrame)]? = none := rfl
    have hname : frameName ⟨0x1000, "main", "main.c", 3, none⟩ = "main" := by decide
    simp only [pushStack, frameIds, frameId, hnone, hname, PprofProfile.withStrings, hmain, hfile]
    rfl
  rw [pushSamples, hstack]
  rfl

theorem twoCallsExport_vecsFit : VecsFit twoCallsExport := by
  refine ⟨⟨?_, ?_, ?_⟩, ?_, lt_of_le_of_lt (PprofProfile.encode_length_le _) ?_⟩
  · change 11 < 2 ^ 63
    norm_num
  · change 1 < 2 ^ 63
    norm_num
  · change 1 < 2 ^ 63
    norm_num
  · change 0 < 2 ^ 63
    norm_num
  · change 744 < 2 ^ 63
    norm_num

theorem toPprof_faithful_twoCalls :
    (validateProfile twoCallsExport = .ok () ∧
      PprofProfile.decode twoCallsExport.encode = .ok twoCallsExport ∧
        HeapExported "native" twoCalls twoCallsExport) ∧
      (filled "native" "" 0 twoCalls.reverse).toPprof = .ok twoCallsExport := by
  obtain ⟨hexport, horder⟩ := toPprof_faithful "native" "" 0 twoCalls
  refine ⟨hexport _ twoCalls_toPprof twoCallsExport_vecsFit, ?_⟩
  rw [horder _ twoCalls.reverse_perm.symm rfl, twoCalls_toPprof]

end PProfessor.Heap
