import PProfessor.EncodedSize
import PProfessor.ProtoContents

set_option autoImplicit false

/-!
# The profile export is faithful

What the bytes of `build_proto` decode to, in terms of the symbolicated profile.
-/
namespace PProfessor.Capture
open CheckedArith KeyedSum NumberedTable Pprof

theorem clampI64_eq {v : UInt64} (h : v.toNat < 2 ^ 63) : clampI64 v = v.toInt64 := by
  have hle : v ≤ 0x7FFFFFFFFFFFFFFF := by
    rw [UInt64.le_iff_toNat_le]
    exact Nat.le_of_lt_succ h
  change (if v ≤ 0x7FFFFFFFFFFFFFFF then v else 0x7FFFFFFFFFFFFFFF).toInt64 = v.toInt64
  rw [if_pos hle]

theorem toInt64_toInt {v : UInt64} (h : v.toNat < 2 ^ 63) : v.toInt64.toInt = v.toNat := by
  change v.toBitVec.toInt = _
  rw [BitVec.toInt_eq_toNat_of_lt]
  · rfl
  · change 2 * v.toNat < 2 ^ 64
    omega

theorem clampI64_toInt (v : UInt64) : (clampI64 v).toInt = min (v.toNat : ℤ) (2 ^ 63 - 1) := by
  by_cases h : v.toNat < 2 ^ 63
  · rw [clampI64_eq h, toInt64_toInt h, min_eq_left (by omega)]
  · have hnle : ¬ v ≤ 0x7FFFFFFFFFFFFFFF := by
      rw [UInt64.le_iff_toNat_le]
      change ¬ v.toNat ≤ 2 ^ 63 - 1
      omega
    change (if v ≤ 0x7FFFFFFFFFFFFFFF then v else 0x7FFFFFFFFFFFFFFF).toInt64.toInt = _
    rw [if_neg hnle, min_eq_right (by omega)]
    rfl

theorem periodNanos_toInt (freqHz : UInt32) :
    (periodNanos freqHz).toInt = (1000000000 / freqHz.toNat : ℕ) := by
  have hle : 1000000000 / freqHz.toNat ≤ 1000000000 := Nat.div_le_self _ _
  rw [periodNanos, Int64.toInt_ofNat_of_lt (by omega)]

theorem saturatingMulI64_nonneg {a b : Int64} (ha : 0 ≤ a.toInt) (hb : 0 ≤ b.toInt) :
    (saturatingMulI64 a b).toInt = min (a.toInt * b.toInt) (2 ^ 63 - 1) := by
  have hpos := mul_nonneg ha hb
  by_cases h : InI64 (a.toInt * b.toInt)
  · rw [saturatingMulI64_toInt h, min_eq_left (Int.le_sub_one_of_lt h.2)]
  · have hbig : 2 ^ 63 ≤ a.toInt * b.toInt := by
      by_contra hlt
      exact h ⟨by omega, by omega⟩
    rw [saturatingMulI64, if_neg h, if_pos (by omega), min_eq_right (by omega)]
    rfl

def textAt (p : PprofProfile) (index : UInt64) : Option String :=
  p.strings.strings[index.toNat]?

structure LabelText where
  key : Option String
  str : Option String
  num : ℤ
  unit : Option String
  deriving DecidableEq

def labelText (p : PprofProfile) (label : Label) : LabelText :=
  ⟨textAt p label.key, textAt p label.strIndex, label.num.toInt, textAt p label.numUnit⟩

/-- The thread id as an `i64`, the name of the thread if it has one, and the
timestamp, capped at `i64::MAX`. -/
def exportedLabels (profile : SymbolicatedProfile) (s : Sample) : List LabelText :=
  let threadName := profile.threads[s.threadId]?.getD ""
  [⟨some "thread_id", some "", s.threadId.toInt64.toInt, some ""⟩] ++
    (if threadName = "" then [] else [⟨some "thread_name", some threadName, 0, some ""⟩]) ++
    s.timestampNanos.toList.map fun t =>
      ⟨some "pprofessor::timestamp", some "", min (t.toNat : ℤ) (2 ^ 63 - 1), some "nanoseconds"⟩

/-- The count, capped at `i64::MAX`, and that times the period, saturating. -/
def exportedValues (profile : SymbolicatedProfile) (s : Sample) : List ℤ :=
  let count := min (s.count.toNat : ℤ) (2 ^ 63 - 1)
  [count, min (count * (1000000000 / profile.freqHz.toNat : ℕ)) (2 ^ 63 - 1)]

structure SampleExported (profile : SymbolicatedProfile) (p : PprofProfile) (s : Sample)
    (t : Pprof.Sample) : Prop where
  locations : t.locationIds.map (addressIn p.locations) =
    (knownStack profile.frames s.stack).map some
  values : t.values.map Int64.toInt = exportedValues profile s
  labels : t.labels.map (labelText p) = exportedLabels profile s

structure LocationExported (profile : SymbolicatedProfile) (p : PprofProfile) (l : Location) :
    Prop where
  mapping : l.mappingId = 0 ∨ ∃ m ∈ p.mappings, m.id = l.mappingId
  line : ∃ frame f, profile.frames[l.address]? = some frame ∧
    lookup Function.id p.functions f.id = some f ∧ textAt p f.name = some frame.function ∧
    textAt p f.filename = some frame.file ∧
    l.lines = [⟨f.id, Int64.ofNat frame.line.toNat, 0⟩]

structure Exported (profile : SymbolicatedProfile) (p : PprofProfile) : Prop where
  indexes : IndexesIn p
  locations : ∀ l ∈ p.locations, LocationExported profile p l
  distinct : ∀ l ∈ p.locations, ∀ l' ∈ p.locations, l.address = l'.address ↔ l.id = l'.id
  samples : List.Forall₂ (SampleExported profile p) profile.kept p.samples

section
variable {profile : SymbolicatedProfile} {names : LabelNames} {p : PprofProfile}

theorem exportedLabels_eq (hb : p.strings.Built) (hn : names.In p.strings) {s : Sample}
    {t : Pprof.Sample} {periodNs : Int64} (h : Renders profile names periodNs p s t) :
    t.labels.map (labelText p) = exportedLabels profile s := by
  have hempty : textAt p 0 = some "" := by
    have hhead := hb.canonical.1
    rwa [List.head?_eq_getElem?] at hhead
  obtain ⟨nameIdx, hname, hlabels⟩ := h.labels
  have hthread : labelText p (threadLabel names s) =
      ⟨some "thread_id", some "", s.threadId.toInt64.toInt, some ""⟩ := by
    unfold labelText threadLabel
    rw [hempty, textAt, hn.threadId]
  have hnames : (nameLabels names (profile.threads[s.threadId]?.getD "") nameIdx).map
      (labelText p) = if profile.threads[s.threadId]?.getD "" = "" then []
        else [⟨some "thread_name", some (profile.threads[s.threadId]?.getD ""), 0, some ""⟩] := by
    unfold nameLabels
    split_ifs with hz
    · rfl
    · rw [List.map_singleton, labelText, hempty, textAt, textAt, hn.threadName, hname hz]
      rfl
  have htimes : (timestampLabels names s).map (labelText p) =
      s.timestampNanos.toList.map fun t => ⟨some "pprofessor::timestamp", some "",
        min (t.toNat : ℤ) (2 ^ 63 - 1), some "nanoseconds"⟩ := by
    unfold timestampLabels
    cases s.timestampNanos with
    | none => rfl
    | some ts =>
      rw [List.map_singleton, labelText, hempty, textAt, textAt, hn.timestamp, hn.nanoseconds,
        clampI64_toInt]
      rfl
  rw [hlabels, List.map_append, List.map_append, List.map_singleton, hthread, hnames, htimes]
  rfl

theorem Renders.exported (hb : p.strings.Built) (hn : names.In p.strings) {s : Sample}
    {t : Pprof.Sample} (h : Renders profile names (periodNanos profile.freqHz) p s t) :
    SampleExported profile p s t := by
  refine ⟨h.locations, ?_, exportedLabels_eq hb hn h⟩
  have hcount := clampI64_toInt s.count
  have hperiod := periodNanos_toInt profile.freqHz
  rw [h.values, List.map_cons, List.map_singleton, exportedValues, saturatingMulI64_nonneg
    (by rw [hcount]; omega) (by rw [hperiod]; exact Int.natCast_nonneg _), hcount, hperiod]

theorem mappingFor_exists (hm : Numbered Mapping.id p.mappings)
    (hcount : p.mappings.length = profile.images.length) (hfit : p.mappings.length < 2 ^ 63)
    (addr : UInt64) : mappingFor (sortedImages profile) addr = 0 ∨
      ∃ m ∈ p.mappings, m.id = mappingFor (sortedImages profile) addr := by
  unfold mappingFor
  have hle : ((sortedImages profile).takeWhile fun image => image.loadAddress ≤ addr).length ≤
      p.mappings.length := by
    rw [hcount]
    refine (List.takeWhile_sublist _).length_le.trans_eq ?_
    rw [sortedImages, List.length_mergeSort]
  generalize ((sortedImages profile).takeWhile fun image => image.loadAddress ≤ addr).length = k
    at hle ⊢
  cases k with
  | zero => exact .inl rfl
  | succ k =>
    right
    have hget := List.getElem?_eq_getElem (Nat.lt_of_succ_le hle)
    refine ⟨_, List.mem_of_getElem? hget, UInt64.toNat_inj.mp ?_⟩
    rw [hm k _ hget, ofNat_succ_toNat (by omega)]

theorem Contents.exported (h : Contents profile names p) (hfit : p.mappings.length < 2 ^ 63) :
    Exported profile p := by
  refine ⟨h.indexes, fun l hl => ⟨?_, ?_⟩, fun l hl l' hl' => ⟨fun haddr => ?_, fun hid => ?_⟩,
    h.samples.imp fun _ _ hr => hr.exported h.built h.labelNames⟩
  · rw [(h.shown l hl).mapping]
    exact mappingFor_exists h.mappings h.mappingCount hfit l.address
  · obtain ⟨frame, f, hframe, hf, hshows, hlines⟩ := (h.shown l hl).line
    exact ⟨frame, f, hframe, h.functions.lookup_eq hf, hshows.name, hshows.filename, hlines⟩
  · rw [h.address_inj l hl l' hl' haddr]
  · rw [h.locations.inj hl hl' hid]

end

/-- The bytes of `build_proto` decode to a profile that says what was exported. -/
theorem buildProto_faithful (fileLen : String → Option UInt64) (profile : SymbolicatedProfile)
    (hfreq : 1 ≤ profile.freqHz) (hfit : VecsFit (builtProfile fileLen profile)) :
    ∃ bytes p, buildProto fileLen profile = .ok bytes ∧ PprofProfile.decode bytes = .ok p ∧
      Exported profile p := by
  have hne : profile.freqHz ≠ 0 := by
    intro h0
    rw [h0] at hfreq
    exact absurd hfreq (by decide)
  obtain ⟨names, hc⟩ := builtProfile_contents fileLen profile hfit
  have hdecode := decode_encode (builtProfile fileLen profile) hc.built
    (hfit.encoding.trans (by norm_num))
  rw [(PprofProfile.survivor_eq_self_iff _).mpr hc.noDefault] at hdecode
  exact ⟨_, _, if_neg hne, hdecode, hc.exported hfit.mappings⟩

def oneFrame (count : UInt64) : SymbolicatedProfile where
  images := []
  frames := (∅ : Std.ExtHashMap UInt64 StackFrame).insert 0x1000 ⟨0x1000, "main", "main.c", 3⟩
  threads := (∅ : Std.ExtHashMap UInt64 String).insert 7 "worker"
  samples := [⟨7, [0x1000], count, none⟩]
  startTime := 0
  duration := 0
  freqHz := 1000

theorem oneFrame_built (fileLen : String → Option UInt64) (count : UInt64) :
    builtProfile fileLen (oneFrame count) = { started (oneFrame count) (periodNanos 1000) with
      strings := .ofStrings (exportStrings ++ ["main", "main.c", "worker"])
      functions := [⟨1, 8, 8, 9, 0⟩]
      locations := [⟨1, 0, 0x1000, [⟨1, 3, 0⟩], false⟩]
      samples := [⟨[1], [clampI64 count, saturatingMulI64 (clampI64 count) (periodNanos 1000)],
        [⟨5, 0, 7, 0⟩, ⟨6, 10, 0, 0⟩]⟩] } := by
  have hframe : (oneFrame count).frames[(0x1000 : UInt64)]? =
      some ⟨0x1000, "main", "main.c", 3⟩ := by
    simp [oneFrame]
  have hthread : (oneFrame count).threads[(7 : UInt64)]? = some "worker" := by simp [oneFrame]
  have hmain : (StringTable.ofStrings exportStrings).intern "main" =
      (8, .ofStrings (exportStrings ++ ["main"])) := StringTable.intern_ofStrings _ _
  have hfile : (StringTable.ofStrings (exportStrings ++ ["main"])).intern "main.c" =
      (9, .ofStrings (exportStrings ++ ["main", "main.c"])) := StringTable.intern_ofStrings _ _
  have hworker : (StringTable.ofStrings (exportStrings ++ ["main", "main.c"])).intern "worker" =
      (10, .ofStrings (exportStrings ++ ["main", "main.c", "worker"])) :=
    StringTable.intern_ofStrings _ _
  have hempty : (∅ : Std.ExtHashMap UInt64 UInt64)[(0x1000 : UInt64)]? = none := by simp
  have himages : sortedImages (oneFrame count) = [] := by simp [sortedImages, oneFrame]
  rw [builtProfile_eq, himages]
  change (addSample [] (oneFrame count) ⟨5, 6, 7, 4⟩ (periodNanos 1000)
    ⟨started (oneFrame count) (periodNanos 1000), ∅, ∅⟩ ⟨7, [0x1000], count, none⟩).enc = _
  unfold addSample
  simp only [locationIds, hframe, locationFor, hempty, functionFor, started,
    PprofProfile.withStrings, hmain, hfile, hthread, Option.getD_some]
  rw [if_neg (by decide), if_neg (by decide), hworker]
  rfl

theorem oneFrame_vecsFit (fileLen : String → Option UInt64) (count : UInt64) :
    VecsFit (builtProfile fileLen (oneFrame count)) := by
  rw [oneFrame_built]
  refine ⟨⟨?_, ?_, ?_⟩, ?_, lt_of_le_of_lt (PprofProfile.encode_length_le _) ?_⟩
  · change 11 < 2 ^ 63
    norm_num
  · change 1 < 2 ^ 63
    norm_num
  · change 1 < 2 ^ 63
    norm_num
  · change 0 < 2 ^ 63
    norm_num
  · change 719 < 2 ^ 63
    norm_num

/-- An image whose functions `main` and `work` have been seen. -/
structure OnApp (profile : SymbolicatedProfile) : Prop where
  images : profile.images = [⟨0x1000, "app"⟩]
  main : profile.frames[(0x1000 : UInt64)]? = some ⟨0x1000, "main", "main.c", 3⟩
  thread : profile.threads[(7 : UInt64)]? = some "worker"
  freqHz : profile.freqHz = 1000

/-- A sample in `main`, and one in `work` called from `main`. -/
def InMain (s : Sample) : Prop := s.threadId = 7 ∧ s.stack = [0x1000]

def InWork (s : Sample) : Prop := s.threadId = 7 ∧ s.stack = [0x1020, 0x1000]

def appSample (ids : List UInt64) (s : Sample) : Pprof.Sample where
  locationIds := ids
  values := [clampI64 s.count, saturatingMulI64 (clampI64 s.count) (periodNanos 1000)]
  labels := [⟨5, 0, 7, 0⟩, ⟨6, 11, 0, 0⟩] ++ timestampLabels ⟨5, 6, 7, 4⟩ s

def mainSeen (fileLen : String → Option UInt64) (profile : SymbolicatedProfile)
    (samples : List Pprof.Sample) : PprofProfile :=
  { started profile (periodNanos 1000) with
    strings := .ofStrings (exportStrings ++ ["app", "main", "main.c", "worker"])
    mappings := [imageMapping fileLen ⟨0x1000, "app"⟩ [] 0 8]
    functions := [⟨1, 9, 9, 10, 0⟩]
    locations := [⟨1, 1, 0x1000, [⟨1, 3, 0⟩], false⟩]
    samples := samples }

def workSeen (fileLen : String → Option UInt64) (profile : SymbolicatedProfile)
    (samples : List Pprof.Sample) : PprofProfile :=
  { mainSeen fileLen profile samples with
    strings := .ofStrings (exportStrings ++ ["app", "main", "main.c", "worker", "work"])
    functions := [⟨1, 9, 9, 10, 0⟩, ⟨2, 12, 12, 10, 0⟩]
    locations := [⟨1, 1, 0x1000, [⟨1, 3, 0⟩], false⟩, ⟨2, 1, 0x1020, [⟨2, 7, 0⟩], false⟩] }

/-- The ids of the entries that `main` alone has got. -/
def mainIds : Std.ExtHashMap UInt64 UInt64 := (∅ : Std.ExtHashMap UInt64 UInt64).insert 0x1000 1

section App
variable {fileLen : String → Option UInt64} {profile : SymbolicatedProfile} (h : OnApp profile)
  {s : Sample}
include h

theorem sortedImages_app : sortedImages profile = [⟨0x1000, "app"⟩] := by
  simp [sortedImages, h.images]

theorem addSample_worker {images : List LoadedImage} {b b' : Builder} {ids : List UInt64}
    (hids : locationIds images profile.frames s.stack b = (ids, b')) (hne : ids ≠ [])
    (hs : s.threadId = 7) {strings : StringTable}
    (hname : b'.enc.strings.intern "worker" = (11, strings)) :
    addSample images profile ⟨5, 6, 7, 4⟩ (periodNanos 1000) b s =
      { b' with enc := { b'.enc with
          strings := strings
          samples := b'.enc.samples ++ [appSample ids s] } } := by
  unfold addSample
  simp only [hids, hs, h.thread, Option.getD_some]
  rw [if_neg hne, if_neg (by decide), hname]
  simp only [threadLabel, hs]
  rfl

theorem addSample_first (hs : InMain s) :
    addSample [⟨0x1000, "app"⟩] profile ⟨5, 6, 7, 4⟩ (periodNanos 1000)
      ⟨pushMappings fileLen [⟨0x1000, "app"⟩] 0 (started profile (periodNanos 1000)), ∅, ∅⟩ s =
      ⟨mainSeen fileLen profile [appSample [1] s], mainIds, mainIds⟩ := by
  have happ : (StringTable.ofStrings exportStrings).intern "app" =
      (8, .ofStrings (exportStrings ++ ["app"])) := StringTable.intern_ofStrings _ _
  have hmain : (StringTable.ofStrings (exportStrings ++ ["app"])).intern "main" =
      (9, .ofStrings (exportStrings ++ ["app", "main"])) := StringTable.intern_ofStrings _ _
  have hfile : (StringTable.ofStrings (exportStrings ++ ["app", "main"])).intern "main.c" =
      (10, .ofStrings (exportStrings ++ ["app", "main", "main.c"])) :=
    StringTable.intern_ofStrings _ _
  have hempty : (∅ : Std.ExtHashMap UInt64 UInt64)[(0x1000 : UInt64)]? = none := by simp
  have hids : locationIds [⟨0x1000, "app"⟩] profile.frames s.stack
      ⟨pushMappings fileLen [⟨0x1000, "app"⟩] 0 (started profile (periodNanos 1000)), ∅, ∅⟩ =
      ([1], ⟨{ mainSeen fileLen profile [] with
        strings := .ofStrings (exportStrings ++ ["app", "main", "main.c"]) },
        mainIds, mainIds⟩) := by
    simp only [hs.2, locationIds, h.main, locationFor, hempty, functionFor, pushMappings, started,
      PprofProfile.withStrings, happ, hmain, hfile]
    rfl
  exact addSample_worker h hids (by decide) hs.1 (StringTable.intern_ofStrings _ _)

theorem addSample_main (hs : InMain s) (samples : List Pprof.Sample) :
    addSample [⟨0x1000, "app"⟩] profile ⟨5, 6, 7, 4⟩ (periodNanos 1000)
      ⟨mainSeen fileLen profile samples, mainIds, mainIds⟩ s =
      ⟨mainSeen fileLen profile (samples ++ [appSample [1] s]), mainIds, mainIds⟩ := by
  have hknown : mainIds[(0x1000 : UInt64)]? = some 1 := Std.ExtHashMap.getElem?_insert_self
  have hids : locationIds [⟨0x1000, "app"⟩] profile.frames s.stack
      ⟨mainSeen fileLen profile samples, mainIds, mainIds⟩ =
      ([1], ⟨mainSeen fileLen profile samples, mainIds, mainIds⟩) := by
    simp only [hs.2, locationIds, h.main, locationFor, hknown]
  exact addSample_worker h hids (by decide) hs.1 (StringTable.intern_ofStrings _ _)

theorem addSample_work (hwork : profile.frames[(0x1020 : UInt64)]? =
      some ⟨0x1020, "work", "main.c", 7⟩) (hs : InWork s) (samples : List Pprof.Sample) :
    (addSample [⟨0x1000, "app"⟩] profile ⟨5, 6, 7, 4⟩ (periodNanos 1000)
      ⟨mainSeen fileLen profile samples, mainIds, mainIds⟩ s).enc =
      workSeen fileLen profile (samples ++ [appSample [2, 1] s]) := by
  have hname : (StringTable.ofStrings
      (exportStrings ++ ["app", "main", "main.c", "worker"])).intern "work" =
      (12, .ofStrings (exportStrings ++ ["app", "main", "main.c", "worker", "work"])) :=
    StringTable.intern_ofStrings _ _
  have hfile : (StringTable.ofStrings
      (exportStrings ++ ["app", "main", "main.c", "worker", "work"])).intern "main.c" =
      (10, .ofStrings (exportStrings ++ ["app", "main", "main.c", "worker", "work"])) :=
    StringTable.intern_ofStrings _ _
  have hnew : mainIds[(0x1020 : UInt64)]? = none := by simp [mainIds]
  have hknown : (mainIds.insert 0x1020 2)[(0x1000 : UInt64)]? = some 1 := by
    rw [Std.ExtHashMap.getElem?_insert, if_neg (by decide), mainIds,
      Std.ExtHashMap.getElem?_insert_self]
  have hnext : locationFor [⟨0x1000, "app"⟩] 0x1020 ⟨0x1020, "work", "main.c", 7⟩
      ⟨mainSeen fileLen profile samples, mainIds, mainIds⟩ =
      (2, ⟨workSeen fileLen profile samples, mainIds.insert 0x1020 2,
        mainIds.insert 0x1020 2⟩) := by
    simp only [locationFor, hnew, functionFor, mainSeen, hname, hfile]
    rfl
  have hids : locationIds [⟨0x1000, "app"⟩] profile.frames s.stack
      ⟨mainSeen fileLen profile samples, mainIds, mainIds⟩ =
      ([2, 1], ⟨workSeen fileLen profile samples, mainIds.insert 0x1020 2,
        mainIds.insert 0x1020 2⟩) := by
    simp only [hs.2, locationIds, h.main, hwork, hnext]
    simp only [locationFor, hknown]
  rw [addSample_worker h hids (by decide) hs.1 (StringTable.intern_ofStrings _ _)]
  rfl

theorem foldl_main (samples : List Sample) (done : List Pprof.Sample)
    (hsamples : ∀ t ∈ samples, InMain t) :
    samples.foldl (addSample [⟨0x1000, "app"⟩] profile ⟨5, 6, 7, 4⟩ (periodNanos 1000))
      ⟨mainSeen fileLen profile done, mainIds, mainIds⟩ =
      ⟨mainSeen fileLen profile (done ++ samples.map (appSample [1])), mainIds, mainIds⟩ := by
  induction samples generalizing done with
  | nil => rw [List.map_nil, List.append_nil, List.foldl_nil]
  | cons t samples ih =>
    rw [List.foldl_cons, addSample_main h (hsamples t List.mem_cons_self),
      ih _ fun u hu => hsamples u (List.mem_cons_of_mem _ hu), List.append_assoc]
    rfl

/-- A thread that has been seen in `main` only. -/
theorem builtProfile_main {samples : List Sample} (hprofile : profile.samples = s :: samples)
    (hs : InMain s) (hsamples : ∀ t ∈ samples, InMain t) :
    builtProfile fileLen profile =
      mainSeen fileLen profile ((s :: samples).map (appSample [1])) := by
  rw [builtProfile_eq, h.freqHz, sortedImages_app h, hprofile, List.foldl_cons,
    addSample_first h hs, foldl_main h _ _ hsamples]
  rfl

/-- A thread that has been seen in `main`, and then in `work`. -/
theorem builtProfile_work {samples : List Sample} {last : Sample}
    (hprofile : profile.samples = s :: samples ++ [last]) (hs : InMain s)
    (hsamples : ∀ t ∈ samples, InMain t) (hlast : InWork last)
    (hwork : profile.frames[(0x1020 : UInt64)]? = some ⟨0x1020, "work", "main.c", 7⟩) :
    builtProfile fileLen profile = workSeen fileLen profile
      ((s :: samples).map (appSample [1]) ++ [appSample [2, 1] last]) := by
  rw [builtProfile_eq, h.freqHz, sortedImages_app h, hprofile, List.foldl_concat,
    List.foldl_cons, addSample_first h hs, foldl_main h _ _ hsamples]
  exact addSample_work h hwork hlast _

end App

section
variable (fileLen : String → Option UInt64) (profile : SymbolicatedProfile)
  {samples : List Pprof.Sample} (hsize : (samples.map fun s => sampleSize s + 11).sum < 2 ^ 62)
include hsize

theorem mainSeen_vecsFit : VecsFit (mainSeen fileLen profile samples) := by
  refine ⟨⟨?_, ?_, ?_⟩, ?_, lt_of_le_of_lt (PprofProfile.encode_length_le _) ?_⟩
  · change 12 < 2 ^ 63
    norm_num
  · change 1 < 2 ^ 63
    norm_num
  · change 1 < 2 ^ 63
    norm_num
  · change 1 < 2 ^ 63
    norm_num
  · change 66 + (samples.map fun s => sampleSize s + 11).sum + 121 + 99 + 66 + 219 + 0 + 110 <
      2 ^ 63
    omega

theorem workSeen_vecsFit : VecsFit (workSeen fileLen profile samples) := by
  refine ⟨⟨?_, ?_, ?_⟩, ?_, lt_of_le_of_lt (PprofProfile.encode_length_le _) ?_⟩
  · change 13 < 2 ^ 63
    norm_num
  · change 2 < 2 ^ 63
    norm_num
  · change 2 < 2 ^ 63
    norm_num
  · change 1 < 2 ^ 63
    norm_num
  · change 66 + (samples.map fun s => sampleSize s + 11).sum + 121 + 198 + 132 + 234 + 0 + 110 <
      2 ^ 63
    omega

end

def twoStacks : SymbolicatedProfile where
  images := [⟨0x1000, "app"⟩]
  frames := ((∅ : Std.ExtHashMap UInt64 StackFrame).insert 0x1000
    ⟨0x1000, "main", "main.c", 3⟩).insert 0x1020 ⟨0x1020, "work", "main.c", 7⟩
  threads := (∅ : Std.ExtHashMap UInt64 String).insert 7 "worker"
  samples := [⟨7, [0x1000], 2, none⟩, ⟨7, [0x1000], 1, some 5⟩, ⟨7, [0x1020, 0x1000], 3, none⟩]
  startTime := 0
  duration := 0
  freqHz := 1000

theorem twoStacks_onApp : OnApp twoStacks where
  images := rfl
  main := by
    rw [twoStacks, Std.ExtHashMap.getElem?_insert, if_neg (by decide),
      Std.ExtHashMap.getElem?_insert_self]
  thread := Std.ExtHashMap.getElem?_insert_self
  freqHz := rfl

theorem twoStacks_built (fileLen : String → Option UInt64) : builtProfile fileLen twoStacks =
    workSeen fileLen twoStacks
      [appSample [1] ⟨7, [0x1000], 2, none⟩, appSample [1] ⟨7, [0x1000], 1, some 5⟩,
        appSample [2, 1] ⟨7, [0x1020, 0x1000], 3, none⟩] :=
  builtProfile_work twoStacks_onApp rfl ⟨rfl, rfl⟩ (List.forall_mem_singleton.mpr ⟨rfl, rfl⟩)
    ⟨rfl, rfl⟩ Std.ExtHashMap.getElem?_insert_self

theorem buildProto_faithful_twoStacks :
    ∃ bytes p, buildProto (fun _ => none) twoStacks = .ok bytes ∧
      PprofProfile.decode bytes = .ok p ∧ Exported twoStacks p ∧ p.samples.length = 3 := by
  obtain ⟨bytes, p, hbytes, hdecode, hexported⟩ := buildProto_faithful (fun _ => none) twoStacks
    (by decide) (by rw [twoStacks_built]; exact workSeen_vecsFit _ _ (by decide))
  refine ⟨bytes, p, hbytes, hdecode, hexported, hexported.samples.length_eq.symm.trans ?_⟩
  rw [SymbolicatedProfile.kept, List.filter_eq_self.mpr]
  · rfl
  · intro s hs
    have hknown : (0x1000 : UInt64) ∈ knownStack twoStacks.frames s.stack := by
      refine List.mem_filter.mpr ⟨?_, ?_⟩
      · revert s
        decide
      · simp [twoStacks]
    exact decide_eq_true (List.ne_nil_of_mem hknown)

end PProfessor.Capture
