import PProfessor.CapturePipeline
import PProfessor.ReportCosts
import PProfessor.SymbolizedObservations

set_option autoImplicit false

/-!
# What the report of a recording says

From the samples that a loop has taken to the rows that `ProfileReport::from_pprof` of
`src/report.rs` ranks. `build_proto` makes one function for every address, so that the report has
one row for every address.
-/
namespace PProfessor.Report
open Pprof

/-- `decompress_if_needed`; the decoder of gzip is the parameter `gunzip`. -/
def decompressIfNeeded (gunzip : List UInt8 → Option (List UInt8)) (data : List UInt8) :
    Option (List UInt8) :=
  if [0x1f, 0x8b] <+: data then gunzip data else some data

/-- What `ProfileReport::from_pprof` fails with. -/
inductive ReadError where
  | gzip
  | pprof (error : PprofError)
  | report (error : ReportError)

def fromPprof (gunzip : List UInt8 → Option (List UInt8)) (data : List UInt8)
    (sampleType : Option String) (frameOrder : PprofProfile → List (FrameIdentity × FrameStat))
    (stackOrder : PprofProfile → List (List FrameIdentity × StackStat)) :
    Except ReadError ProfileReport := do
  let data ← (decompressIfNeeded gunzip data).elim (.error .gzip) .ok
  let profile ← (PprofProfile.decode data).mapError .pprof
  (fromProfile profile sampleType (frameOrder profile) (stackOrder profile)).mapError .report

end PProfessor.Report

namespace PProfessor.Capture
open CheckedArith KeyedSum NumberedTable Pprof
open Heap (indexBy indexBy_getElem?)
open CapturePipeline (appFinal_vecsFit appLive appLive_enumerates appLoop_result appSymbolized
  appSymbolizer)
open Report (FrameIdentity FrameStat ResolvedFrame ReportFrame StackStat)

namespace Builder

structure Paired (b : Builder) : Prop where
  lengths : b.enc.functions.length = b.enc.locations.length
  addresses : ∀ addr : UInt64, b.locIdMap[addr]? = none → b.funcIdMap[addr]? = none
  lines : ∀ l ∈ b.enc.locations, ∃ line, l.lines = [⟨l.id, line, 0⟩]

theorem Paired.locationFor {b : Builder} (h : b.Paired) (images : List LoadedImage)
    (addr : UInt64) (frame : StackFrame) : (locationFor images addr frame b).2.Paired := by
  unfold Capture.locationFor
  cases hl : b.locIdMap[addr]? with
  | some id => exact h
  | none =>
    have hf := h.addresses addr hl
    simp only [functionFor, hf]
    constructor
    · simp [h.lengths]
    · intro other hother
      simp only [Std.ExtHashMap.getElem?_insert] at hother ⊢
      split_ifs at hother ⊢ with hsame
      exact h.addresses other hother
    · intro l hl
      rcases List.mem_append.mp hl with hold | hnew
      · exact h.lines l hold
      · rw [List.mem_singleton.mp hnew, h.lengths]
        exact ⟨_, rfl⟩

theorem Paired.locationIds {b : Builder} (h : b.Paired) (images : List LoadedImage)
    (frames : Std.ExtHashMap UInt64 StackFrame) (stack : List UInt64) :
    (locationIds images frames stack b).2.Paired := by
  induction stack generalizing b with
  | nil => exact h
  | cons addr rest ih =>
    unfold Capture.locationIds
    cases frames[addr]? with
    | none => exact ih h
    | some frame => exact ih (h.locationFor images addr frame)

theorem Paired.addSample {b : Builder} (h : b.Paired) (images : List LoadedImage)
    (profile : SymbolicatedProfile) (names : LabelNames) (periodNs : Int64) (s : Sample) :
    (addSample images profile names periodNs b s).Paired := by
  have hids := h.locationIds images profile.frames s.stack
  unfold Capture.addSample
  dsimp only
  split_ifs
  · exact hids
  · exact ⟨hids.lengths, hids.addresses, hids.lines⟩
  · exact ⟨hids.lengths, hids.addresses, hids.lines⟩

theorem Paired.foldl {b : Builder} (h : b.Paired) (images : List LoadedImage)
    (profile : SymbolicatedProfile) (names : LabelNames) (periodNs : Int64)
    (samples : List Sample) :
    (samples.foldl (Capture.addSample images profile names periodNs) b).Paired := by
  induction samples generalizing b with
  | nil => exact h
  | cons s rest ih => exact ih (h.addSample images profile names periodNs s)

end Builder

section Built
variable (fileLen : String → Option UInt64) (profile : SymbolicatedProfile)

theorem pushMappings_tables (images : List LoadedImage) (index : ℕ) (enc : PprofProfile) :
    (pushMappings fileLen images index enc).functions = enc.functions ∧
      (pushMappings fileLen images index enc).locations = enc.locations := by
  induction images generalizing index enc with
  | nil => exact ⟨rfl, rfl⟩
  | cons image rest ih => exact ih _ _

theorem builtProfile_lines : ∀ l ∈ (builtProfile fileLen profile).locations,
    ∃ line, l.lines = [⟨l.id, line, 0⟩] := by
  obtain ⟨hfunctions, hlocations⟩ := pushMappings_tables fileLen (sortedImages profile) 0
    (started profile (periodNanos profile.freqHz))
  rw [builtProfile_eq]
  refine (Builder.Paired.foldl ?_ _ _ _ _ _).lines
  constructor
  · rw [hfunctions, hlocations]
    rfl
  · simp
  · rw [hlocations]
    exact fun l hl => absurd hl List.not_mem_nil

theorem builtProfile_header : (builtProfile fileLen profile).valueTypes = [⟨1, 2⟩, ⟨3, 4⟩] ∧
    (builtProfile fileLen profile).durationNanos = Int64.ofNat profile.duration ∧
    (builtProfile fileLen profile).defaultSampleType = 0 ∧
    exportStrings <+: (builtProfile fileLen profile).strings.strings := by
  obtain ⟨hextends, -, strings, mappings, hpush, -⟩ := pushMappings_spec fileLen
    (sortedImages profile) 0 (started profile (periodNanos profile.freqHz))
  have hgrows := addSamples_grows (sortedImages profile) profile ⟨5, 6, 7, 4⟩
    (periodNanos profile.freqHz)
    ⟨pushMappings fileLen (sortedImages profile) 0 (started profile (periodNanos profile.freqHz)),
      ∅, ∅⟩ profile.samples
  rw [builtProfile_eq]
  refine ⟨?_, ?_, ?_, hextends.trans hgrows.strings⟩
  all_goals
    rw [hgrows.header, hpush]
    rfl

end Built

def StackFrame.reportFrame (frame : StackFrame) : ReportFrame :=
  ⟨frame.function, frame.file, Int64.ofNat frame.line.toNat⟩

def addressOf (p : PprofProfile) : FrameIdentity → UInt64
  | .function id => (addressIn p.locations id).getD 0
  | .address address => address

def locationNames (p : PprofProfile) : Set FrameIdentity :=
  {id | ∃ l ∈ p.locations, id = .function l.id}

structure ShowsAddress (p : PprofProfile) (frames : Std.ExtHashMap UInt64 StackFrame)
    (resolved : ResolvedFrame) : Prop where
  name : resolved.identity ∈ locationNames p
  frame : ∃ frame, frames[addressOf p resolved.identity]? = some frame ∧
    resolved.reportFrame = frame.reportFrame

section Resolved
variable {profile : SymbolicatedProfile} {names : LabelNames} {p : PprofProfile}

theorem Contents.uniqueIds (h : Contents profile names p) : Report.UniqueIds p :=
  ⟨h.locations.nodup, h.functions.nodup⟩

theorem addressOf_function (h : Contents profile names p) {l : Location} (hl : l ∈ p.locations) :
    addressOf p (.function l.id) = l.address := by
  rw [addressOf, addressIn, h.locations.lookup_eq hl]
  rfl

theorem addressOf_injOn (h : Contents profile names p) :
    Set.InjOn (addressOf p) (locationNames p) := by
  rintro _ ⟨l, hl, rfl⟩ _ ⟨l', hl', rfl⟩ heq
  rw [addressOf_function h hl, addressOf_function h hl'] at heq
  rw [h.address_inj l hl l' hl' heq]

theorem resolveLocation_built (h : Contents profile names p)
    (hlines : ∀ l ∈ p.locations, ∃ line, l.lines = [⟨l.id, line, 0⟩]) {l : Location}
    (hl : l ∈ p.locations) : ∃ resolved,
      Report.resolveLocation p (indexBy Location.id p.locations) (indexBy Function.id p.functions)
        l.id = [resolved] ∧
      resolved.identity = .function l.id ∧ ShowsAddress p profile.frames resolved := by
  have hlocation : (indexBy Location.id p.locations)[l.id]? = some l := by
    rw [indexBy_getElem? Location.id p.locations h.locations.nodup]
    exact h.locations.lookup_eq hl
  obtain ⟨line, hline⟩ := hlines l hl
  obtain ⟨frame, f, hframe, hf, hshows, hline'⟩ := (h.shown l hl).line
  have hid : f.id = l.id := by
    rw [hline] at hline'
    simp at hline'
    exact hline'.1.symm
  have hfunction : lookup Function.id p.functions l.id = some f := by
    rw [← hid]
    exact h.functions.lookup_eq hf
  have hresolved : Report.resolveLine p (indexBy Function.id p.functions)
      ⟨l.id, Int64.ofNat frame.line.toNat, 0⟩ =
        some ⟨.function l.id, frame.function, frame.file, Int64.ofNat frame.line.toNat⟩ := by
    rw [Report.resolveLine_eq h.uniqueIds]
    simp [hfunction, hid, Report.profileString, hshows.name, hshows.filename]
  refine ⟨⟨.function l.id, frame.function, frame.file, Int64.ofNat frame.line.toNat⟩, ?_, rfl,
    ⟨l, hl, rfl⟩, frame, ?_, rfl⟩
  · unfold Report.resolveLocation
    rw [hlocation]
    simp [hline', hid, hresolved]
  · rwa [addressOf_function h hl]

theorem resolveStack_built (h : Contents profile names p)
    (hlines : ∀ l ∈ p.locations, ∃ line, l.lines = [⟨l.id, line, 0⟩]) {ids : List UInt64}
    {known : List UInt64} (hids : ids.map (addressIn p.locations) = known.map some) :
    (Report.resolveStack p (indexBy Location.id p.locations) (indexBy Function.id p.functions)
        ⟨ids, [], []⟩).map (fun resolved => addressOf p resolved.identity) = known.reverse ∧
      ∀ resolved ∈ Report.resolveStack p (indexBy Location.id p.locations)
        (indexBy Function.id p.functions) ⟨ids, [], []⟩,
        ShowsAddress p profile.frames resolved := by
  unfold Report.resolveStack
  induction ids generalizing known with
  | nil =>
    have hknown : known = [] := by simpa using hids.symm
    simp [hknown]
  | cons id rest ih =>
    cases known with
    | nil => simp at hids
    | cons addr known =>
      rw [List.map_cons, List.map_cons, List.cons.injEq] at hids
      obtain ⟨haddr, hrest⟩ := ih hids.2
      obtain ⟨l, hl, hla⟩ := Option.map_eq_some_iff.mp hids.1
      obtain ⟨hmem, rfl⟩ := lookup_eq_some _ hl
      obtain ⟨resolved, hresolve, hidentity, hshows⟩ := resolveLocation_built h hlines hmem
      simp only [List.reverse_cons, List.flatMap_append, List.flatMap_cons, List.flatMap_nil,
        List.append_nil, hresolve, List.map_append, List.map_cons, List.map_nil]
      constructor
      · rw [haddr, hidentity, addressOf_function h hmem, hla]
      · intro other hother
        rcases List.mem_append.mp hother with hold | hnew
        · exact hrest other hold
        · rwa [List.mem_singleton.mp hnew]

end Resolved

/-- What one sample is worth in a column: one, or a period. -/
def worth (freqHz : UInt32) (sampleIndex : ℕ) : ℤ :=
  if sampleIndex = 0 then 1 else (1000000000 / freqHz.toNat : ℕ)

def ThreadSample.symbolized (keep : UInt64 → Bool) (sample : ThreadSample) : Sample :=
  ⟨sample.threadId, sample.stack.filter keep, 1, some sample.timestampNanos⟩

def leftSamples (keep : UInt64 → Bool) (log : List ThreadSample) : List ThreadSample :=
  log.filter fun sample => sample.stack.filter keep ≠ []

/-- The stacks that were sampled, root first. -/
def sampledStacks (keep : UInt64 → Bool) (worth : ℤ) (log : List ThreadSample) :
    List (List UInt64 × ℤ) :=
  (leftSamples keep log).map fun sample => ((sample.stack.filter keep).reverse, worth)

section Symbolized
variable {raw : RawProfile} {log : List ThreadSample} {order : List (StackKey × RawSampleSeries)}

theorem Represents.exists_series (h : Represents raw log) {sample : ThreadSample}
    (hsample : sample ∈ log) : ∃ series, raw.stackSeries[sample.key]? = some series := by
  have hmem : sample.timestampNanos ∈ sampledAt log sample.key :=
    List.mem_map_of_mem (List.mem_filter.mpr ⟨hsample, by simp⟩)
  rw [h.series]
  exact ⟨_, seriesOf_eq_some_iff.mpr ⟨List.ne_nil_of_mem hmem, rfl⟩⟩

theorem keptSamples_log (h : Represents raw log) (keep : UInt64 → Bool)
    {entry : StackKey × RawSampleSeries} (hentry : raw.stackSeries[entry.1]? = some entry.2) :
    keptSamples keep entry =
      (leftSamples keep (log.filter fun sample => sample.key = entry.1)).map
        (ThreadSample.symbolized keep) := by
  have hkey : ∀ sample ∈ log.filter fun sample => sample.key = entry.1,
      sample.threadId = entry.1.1 ∧ sample.stack = entry.1.2 := by
    intro sample hsample
    have hsame := of_decide_eq_true (List.mem_filter.mp hsample).2
    exact ⟨congrArg Prod.fst hsame, congrArg Prod.snd hsame⟩
  rw [h.series, seriesOf_eq_some_iff] at hentry
  unfold keptSamples leftSamples
  split_ifs with hempty
  · rw [List.filter_eq_nil_iff.mpr, List.map_nil]
    intro sample hsample
    simp [(hkey sample hsample).2, hempty]
  · have hall : (log.filter fun sample => sample.key = entry.1).filter
        (fun sample => sample.stack.filter keep ≠ []) =
          log.filter fun sample => sample.key = entry.1 := by
      rw [List.filter_eq_self]
      intro sample hsample
      simpa [(hkey sample hsample).2] using hempty
    rw [hall, hentry.2]
    simp only [sampledAt, List.map_map]
    apply List.map_congr_left
    intro sample hsample
    simp [ThreadSample.symbolized, hkey sample hsample]

theorem fromRaw_samples_perm (h : Represents raw log) (ho : Enumerates order raw.stackSeries)
    (symbolizer : Symbolizer) (unresolved : Unresolved) (freqHz : UInt32) (startWall : ℤ) :
    (fromRawWithSymbolizer raw order symbolizer unresolved freqHz startWall).samples.Perm
      ((leftSamples (keeps symbolizer unresolved) log).map
        (ThreadSample.symbolized (keeps symbolizer unresolved))) := by
  have hkeys : ∀ sample ∈ log, sample.key ∈ order.map Prod.fst := by
    intro sample hsample
    rw [ho.mem_keys, Option.isSome_iff_exists]
    exact h.exists_series hsample
  have hsplit : order.flatMap (keptSamples (keeps symbolizer unresolved)) =
      (leftSamples (keeps symbolizer unresolved) ((order.map Prod.fst).flatMap fun key =>
        log.filter fun sample => sample.key = key)).map
          (ThreadSample.symbolized (keeps symbolizer unresolved)) := by
    rw [leftSamples, List.filter_flatMap, List.map_flatMap, List.flatMap_map]
    refine List.flatMap_congr fun entry hentry => ?_
    exact keptSamples_log h _ ((ho.mem_iff _ _).mp hentry)
  rw [fromRaw_samples, hsplit]
  exact ((flatMap_filter_perm ThreadSample.key ho.keys_nodup hkeys).filter _).map _

theorem fromRaw_known (h : Represents raw log) (ho : Enumerates order raw.stackSeries)
    (symbolizer : Symbolizer) (unresolved : Unresolved) (freqHz : UInt32) (startWall : ℤ) :
    ∀ s ∈ (fromRawWithSymbolizer raw order symbolizer unresolved freqHz startWall).samples,
      knownStack (fromRawWithSymbolizer raw order symbolizer unresolved freqHz startWall).frames
        s.stack = s.stack ∧ s.stack ≠ [] ∧ s.count = 1 := by
  intro s hs
  rw [(fromRaw_samples_perm h ho symbolizer unresolved freqHz startWall).mem_iff] at hs
  obtain ⟨sample, hsample, rfl⟩ := List.mem_map.mp hs
  obtain ⟨hlog, hleft⟩ := List.mem_filter.mp hsample
  refine ⟨List.filter_eq_self.mpr fun addr haddr => ?_, of_decide_eq_true hleft, rfl⟩
  obtain ⟨haddr, hkeep⟩ := List.mem_filter.mp haddr
  obtain ⟨series, hseries⟩ := h.exists_series hlog
  rw [decide_eq_true_eq, fromRaw_mem_frames symbolizer unresolved freqHz startWall ho]
  exact ⟨⟨sample.key, series, hseries, haddr⟩, hkeep⟩

end Symbolized

theorem forall₂_filterMap {α β γ : Type} {R : α → β → Prop} {Q : α → γ → Prop} {f : β → Option γ}
    {xs : List α} {ys : List β} (h : List.Forall₂ R xs ys)
    (hf : ∀ x ∈ xs, ∀ y, R x y → ∃ z, f y = some z ∧ Q x z) :
    List.Forall₂ Q xs (ys.filterMap f) := by
  induction h with
  | nil => exact .nil
  | @cons x y xs ys hxy _ ih =>
    rw [List.forall_mem_cons] at hf
    obtain ⟨z, hz, hQ⟩ := hf.1 y hxy
    rw [List.filterMap_cons, hz]
    exact .cons hQ (ih hf.2)

structure Contributed (p : PprofProfile) (frames : Std.ExtHashMap UInt64 StackFrame) (worth : ℤ)
    (s : Sample) (c : Report.Contribution) : Prop where
  stack : c.1.map (fun resolved => addressOf p resolved.identity) = s.stack.reverse
  shown : ∀ resolved ∈ c.1, ShowsAddress p frames resolved
  worth : c.2.toInt = worth

def SymbolicatedProfile.Observed (profile : SymbolicatedProfile) : Prop :=
  ∀ s ∈ profile.samples, knownStack profile.frames s.stack = s.stack ∧ s.stack ≠ [] ∧ s.count = 1

section Contributions
variable {profile : SymbolicatedProfile} {names : LabelNames} {p : PprofProfile}

theorem worth_value (freqHz : UInt32) {sampleIndex : ℕ} (hlt : sampleIndex < 2) :
    ∃ v, [clampI64 1, saturatingMulI64 (clampI64 1) (periodNanos freqHz)][sampleIndex]? = some v ∧
      v.toInt = worth freqHz sampleIndex := by
  have hone : (clampI64 1).toInt = 1 := by decide
  have hperiod := periodNanos_toInt freqHz
  have hle : 1000000000 / freqHz.toNat ≤ 1000000000 := Nat.div_le_self _ _
  unfold worth
  generalize 1000000000 / freqHz.toNat = period at hperiod hle ⊢
  cases sampleIndex with
  | zero => exact ⟨_, rfl, hone⟩
  | succ i =>
    cases i with
    | zero =>
      refine ⟨_, rfl, ?_⟩
      rw [saturatingMulI64_nonneg (by omega) (by omega), hone, hperiod, one_mul,
        if_neg (Nat.succ_ne_zero 0)]
      omega
    | succ i => omega

theorem contributions_built (h : Contents profile names p)
    (hlines : ∀ l ∈ p.locations, ∃ line, l.lines = [⟨l.id, line, 0⟩]) (hobserved : profile.Observed)
    {sampleIndex : ℕ} (hlt : sampleIndex < 2) :
    List.Forall₂ (Contributed p profile.frames (worth profile.freqHz sampleIndex)) profile.samples
      (Report.contributions p sampleIndex) := by
  have hkept : profile.kept = profile.samples := by
    refine List.filter_eq_self.mpr fun s hs => ?_
    obtain ⟨hknown, hne, -⟩ := hobserved s hs
    simpa [hknown] using hne
  have hsamples := h.samples
  rw [hkept] at hsamples
  refine forall₂_filterMap hsamples fun s hs t hr => ?_
  obtain ⟨hknown, -, hcount⟩ := hobserved s hs
  obtain ⟨v, hv, hworth⟩ := worth_value profile.freqHz hlt
  have hlocations := hr.locations
  rw [hknown] at hlocations
  obtain ⟨hstack, hshown⟩ := resolveStack_built h hlines hlocations
  rw [hr.values, hcount, hv]
  exact ⟨_, rfl, hstack, hshown, hworth⟩

theorem weighted_built (h : Contents profile names p)
    (hlines : ∀ l ∈ p.locations, ∃ line, l.lines = [⟨l.id, line, 0⟩]) (hobserved : profile.Observed)
    {sampleIndex : ℕ} (hlt : sampleIndex < 2) :
    StackCosts.relabel (addressOf p) (Report.weighted p sampleIndex) =
      profile.samples.map fun s => (s.stack.reverse, worth profile.freqHz sampleIndex) := by
  rw [Report.weighted_eq h.uniqueIds, StackCosts.relabel, List.map_map]
  refine (map_eq_of_forall₂ ((contributions_built h hlines hobserved hlt).imp ?_)).symm
  intro s c hc
  simp [Report.weightedStack, Report.identities, Report.weight, hc.worth, ← hc.stack]

theorem weighted_names (h : Contents profile names p)
    (hlines : ∀ l ∈ p.locations, ∃ line, l.lines = [⟨l.id, line, 0⟩]) (hobserved : profile.Observed)
    {sampleIndex : ℕ} (hlt : sampleIndex < 2) :
    ∀ c ∈ Report.contributions p sampleIndex, ∀ resolved ∈ c.1,
      ShowsAddress p profile.frames resolved := by
  intro c hc
  obtain ⟨s, -, hcontributed⟩ :=
    forall₂_exists_left (contributions_built h hlines hobserved hlt) hc
  exact hcontributed.shown

end Contributions

/-! ## The rows -/

structure AddressRow (frameOf : UInt64 → Option StackFrame) (observed : List (List UInt64 × ℤ))
    (addr : UInt64) (stat : FrameStat) : Prop where
  frame : (frameOf addr).map StackFrame.reportFrame = some ⟨stat.function, stat.file, stat.line⟩
  flat : stat.flat.toInt = StackCosts.flat observed addr
  cumulative : stat.cumulative.toInt = StackCosts.cumulative observed addr

structure AddressesRow (frameOf : UInt64 → Option StackFrame) (observed : List (List UInt64 × ℤ))
    (stack : List UInt64) (stat : StackStat) : Prop where
  frames : stack.map (fun addr => (frameOf addr).map StackFrame.reportFrame) =
    stat.frames.map some
  value : stat.value.toInt = StackCosts.whole observed stack

/-- The report shows what the stacks cost: one row for every address and every stack. -/
structure Reports (frameOf : UInt64 → Option StackFrame) (observed : List (List UInt64 × ℤ))
    (report : Report.ProfileReport) : Prop where
  totalValue : report.totalValue.toInt = StackCosts.magnitude observed
  sampleRecords : report.sampleRecords = observed.length
  topFrames : ∃ addrs : List UInt64, addrs.Nodup ∧
    (∀ addr, addr ∈ addrs ↔ ∃ s ∈ observed, addr ∈ s.1) ∧
    List.Forall₂ (AddressRow frameOf observed) addrs report.topFrames
  topStacks : ∃ keys : List (List UInt64), keys.Nodup ∧
    (∀ key, key ∈ keys ↔ key ≠ [] ∧ ∃ s ∈ observed, s.1 = key) ∧
    List.Forall₂ (AddressesRow frameOf observed) keys report.topStacks

theorem Reports.perm {frameOf : UInt64 → Option StackFrame} {observed others :
    List (List UInt64 × ℤ)} {report : Report.ProfileReport} (h : Reports frameOf observed report)
    (hperm : observed.Perm others) : Reports frameOf others report := by
  obtain ⟨addrs, haddrs, hmem, hrows⟩ := h.topFrames
  obtain ⟨keys, hkeys, hkeyMem, hkeyRows⟩ := h.topStacks
  refine ⟨h.totalValue.trans ((hperm.map _).sum_eq), h.sampleRecords.trans hperm.length_eq,
    ⟨addrs, haddrs, fun addr => ?_, hrows.imp fun addr stat hrow => ?_⟩,
    ⟨keys, hkeys, fun key => ?_, hkeyRows.imp fun key stat hrow => ?_⟩⟩
  · simp only [hmem, hperm.mem_iff]
  · exact ⟨hrow.frame, hrow.flat.trans (total_perm _ _ hperm _),
      hrow.cumulative.trans (total_perm _ _ hperm _)⟩
  · simp only [hkeyMem, hperm.mem_iff]
  · exact ⟨hrow.frames, hrow.value.trans (total_perm _ _ hperm _)⟩

theorem Reports.frames_congr {frameOf others : UInt64 → Option StackFrame} {observed :
    List (List UInt64 × ℤ)} {report : Report.ProfileReport} (h : Reports frameOf observed report)
    (hframes : ∀ s ∈ observed, ∀ addr ∈ s.1, frameOf addr = others addr) :
    Reports others observed report := by
  obtain ⟨addrs, haddrs, hmem, hrows⟩ := h.topFrames
  obtain ⟨keys, hkeys, hkeyMem, hkeyRows⟩ := h.topStacks
  refine ⟨h.totalValue, h.sampleRecords,
    ⟨addrs, haddrs, hmem, (forall₂_mem_left hrows).imp fun addr stat hrow => ?_⟩,
    ⟨keys, hkeys, hkeyMem, (forall₂_mem_left hkeyRows).imp fun key stat hrow => ?_⟩⟩
  · obtain ⟨s, hs, haddr⟩ := (hmem addr).mp hrow.1
    exact ⟨hframes s hs addr haddr ▸ hrow.2.frame, hrow.2.flat, hrow.2.cumulative⟩
  · obtain ⟨-, s, hs, rfl⟩ := (hkeyMem key).mp hrow.1
    refine ⟨hrow.2.frames ▸ List.map_congr_left fun addr haddr => ?_, hrow.2.value⟩
    rw [hframes s hs addr haddr]

section Rows
variable {frames : Std.ExtHashMap UInt64 StackFrame} {p : PprofProfile} {sampleIndex : ℕ}
  (hunique : Report.UniqueIds p) (hshown : ∀ c ∈ Report.contributions p sampleIndex,
    ∀ resolved ∈ c.1, ShowsAddress p frames resolved)
include hunique hshown

theorem weighted_locationNames :
    ∀ s ∈ Report.weighted p sampleIndex, ∀ id ∈ s.1, id ∈ locationNames p := by
  rw [Report.weighted_eq hunique]
  intro s hs id hid
  obtain ⟨c, hc, rfl⟩ := List.mem_map.mp hs
  obtain ⟨resolved, hresolved, rfl⟩ := List.mem_map.mp hid
  exact (hshown c hc resolved hresolved).name

variable (hinj : Set.InjOn (addressOf p) (locationNames p))
include hinj

theorem addressRow_of_stat {id : FrameIdentity} {stat : FrameStat}
    (hrel : Option.Rel (Report.StatOf (Report.contributions p sampleIndex) id)
      (Report.firstFrame (Report.contributions p sampleIndex) id) (some stat)) :
    id ∈ locationNames p ∧ AddressRow (fun addr => frames[addr]?)
      (StackCosts.relabel (addressOf p) (Report.weighted p sampleIndex)) (addressOf p id) stat := by
  have hnames := weighted_locationNames hunique hshown
  cases hfirst : Report.firstFrame (Report.contributions p sampleIndex) id with
  | none =>
    rw [hfirst] at hrel
    cases hrel
  | some resolved =>
    rw [hfirst] at hrel
    obtain ⟨c, hc, hfound⟩ := List.exists_of_findSome?_eq_some hfirst
    obtain ⟨hresolved, rfl⟩ := Report.shownFrame_spec hfound
    obtain ⟨hname, frame, hframe, hreport⟩ := hshown c hc resolved hresolved
    cases hrel with
    | some hstat =>
      refine ⟨hname, ?_, ?_, ?_⟩
      · rw [hframe, Option.map_some, ← hreport, hstat.function, hstat.file, hstat.line]
        rfl
      · rw [StackCosts.flat_relabel hinj hnames hname, Report.weighted_eq hunique, hstat.flat,
          Report.flatOf_eq]
      · rw [StackCosts.cumulative_relabel hinj hnames hname, Report.weighted_eq hunique,
          hstat.cumulative, Report.cumulativeOf_eq]

theorem addressesRow_of_stat {key : List FrameIdentity} {stat : StackStat}
    (hrel : Option.Rel (Report.StackStatOf (Report.contributions p sampleIndex) key)
      (Report.firstStack (Report.contributions p sampleIndex) key) (some stat)) :
    (∀ id ∈ key, id ∈ locationNames p) ∧ AddressesRow (fun addr => frames[addr]?)
      (StackCosts.relabel (addressOf p) (Report.weighted p sampleIndex)) (key.map (addressOf p))
      stat := by
  have hnames := weighted_locationNames hunique hshown
  cases hfirst : Report.firstStack (Report.contributions p sampleIndex) key with
  | none =>
    rw [hfirst] at hrel
    cases hrel
  | some reported =>
    rw [hfirst] at hrel
    obtain ⟨c, hc, hfound⟩ := List.exists_of_findSome?_eq_some hfirst
    unfold Report.shownStack at hfound
    split_ifs at hfound with hkey
    obtain ⟨-, rfl⟩ := hkey
    rw [Option.some.injEq] at hfound
    have hin : ∀ id ∈ Report.identities c, id ∈ locationNames p := by
      intro id hid
      obtain ⟨resolved, hresolved, rfl⟩ := List.mem_map.mp hid
      exact (hshown c hc resolved hresolved).name
    cases hrel with
    | some hstat =>
      refine ⟨hin, ?_, ?_⟩
      · rw [hstat.frames, ← hfound]
        simp only [Report.identities, List.map_map]
        refine List.map_congr_left fun resolved hresolved => ?_
        obtain ⟨-, frame, hframe, hreport⟩ := hshown c hc resolved hresolved
        simp [hframe, hreport]
      · rw [StackCosts.whole_relabel hinj hnames hin, Report.weighted_eq hunique, hstat.value,
          Report.stackOf_eq]

/-- The ranked rows show what the stacks cost. -/
theorem reports_ranked (hfit : StackCosts.magnitude (Report.weighted p sampleIndex) < 2 ^ 63)
    (hall : p.samples.length = (Report.weighted p sampleIndex).length)
    {frameOrder : List (FrameIdentity × FrameStat)}
    (hframes : Enumerates frameOrder (Report.aggregate p sampleIndex).stats)
    {stackOrder : List (List FrameIdentity × StackStat)}
    (hstacks : Enumerates stackOrder (Report.aggregate p sampleIndex).stackStats)
    {report : Report.ProfileReport}
    (htotal : report.totalValue = (Report.aggregate p sampleIndex).totalValue)
    (hrecords : report.sampleRecords = p.samples.length)
    (htopFrames : (frameOrder.map Prod.snd).Perm report.topFrames)
    (htopStacks : (stackOrder.map Prod.snd).Perm report.topStacks) :
    Reports (fun addr => frames[addr]?)
      (StackCosts.relabel (addressOf p) (Report.weighted p sampleIndex)) report := by
  have htallied : Report.Tallied (Report.contributions p sampleIndex)
      (Report.aggregate p sampleIndex) := by
    apply Report.aggregate_tallied
    rw [Report.magnitudeSum_eq, ← Report.weighted_eq hunique]
    exact hfit
  have hnames := weighted_locationNames hunique hshown
  refine ⟨?_, ?_, ?_, ?_⟩
  · rw [StackCosts.magnitude_relabel, htotal, htallied.totalValue, Report.magnitudeSum_eq,
      ← Report.weighted_eq hunique]
  · rw [hrecords, hall, StackCosts.relabel, List.length_map]
  · obtain ⟨ids, hperm, hrows⟩ := Report.exists_ranked
      (R := fun id stat => id ∈ locationNames p ∧ AddressRow (fun addr => frames[addr]?)
        (StackCosts.relabel (addressOf p) (Report.weighted p sampleIndex)) (addressOf p id) stat)
      (fun entry hentry => addressRow_of_stat hunique hshown hinj
        ((hframes.mem_iff entry.1 entry.2).mp hentry ▸ htallied.stats entry.1)) htopFrames
    have hin : ∀ id ∈ ids, id ∈ locationNames p := by
      intro id hid
      obtain ⟨stat, -, hrow⟩ := forall₂_exists_right hrows hid
      exact hrow.1
    refine ⟨ids.map (addressOf p), ?_, fun addr => ?_, ?_⟩
    · exact List.Nodup.map_on (fun x hx y hy => hinj (hin x hx) (hin y hy))
        (hperm.nodup_iff.mp hframes.keys_nodup)
    · have hmem (id : FrameIdentity) :
          id ∈ ids ↔ ∃ s ∈ Report.weighted p sampleIndex, id ∈ s.1 := by
        rw [← hperm.mem_iff, hframes.mem_keys, ← Report.isSome_iff_of_rel (htallied.stats id),
          Report.firstFrame_isSome, Report.exists_weighted hunique]
        rfl
      simp only [StackCosts.relabel, List.mem_map, hmem]
      constructor
      · rintro ⟨id, ⟨s, hs, hid⟩, rfl⟩
        exact ⟨_, ⟨s, hs, rfl⟩, List.mem_map_of_mem hid⟩
      · rintro ⟨_, ⟨s, hs, rfl⟩, haddr⟩
        obtain ⟨id, hid, rfl⟩ := List.mem_map.mp haddr
        exact ⟨id, ⟨s, hs, hid⟩, rfl⟩
    · rw [List.forall₂_map_left_iff]
      exact hrows.imp fun _ _ hrow => hrow.2
  · obtain ⟨keys, hperm, hrows⟩ := Report.exists_ranked
      (R := fun key stat => (∀ id ∈ key, id ∈ locationNames p) ∧
        AddressesRow (fun addr => frames[addr]?) (StackCosts.relabel (addressOf p)
          (Report.weighted p sampleIndex)) (key.map (addressOf p)) stat)
      (fun entry hentry => addressesRow_of_stat hunique hshown hinj
        ((hstacks.mem_iff entry.1 entry.2).mp hentry ▸ htallied.stackStats entry.1)) htopStacks
    have hin : ∀ key ∈ keys, ∀ id ∈ key, id ∈ locationNames p := by
      intro key hkey
      obtain ⟨stat, -, hrow⟩ := forall₂_exists_right hrows hkey
      exact hrow.1
    refine ⟨keys.map (List.map (addressOf p)), ?_, fun key => ?_, ?_⟩
    · exact List.Nodup.map_on
        (fun x hx y hy => StackCosts.map_inj_of_injOn hinj (hin x hx) (hin y hy))
        (hperm.nodup_iff.mp hstacks.keys_nodup)
    · have hmem (key : List FrameIdentity) :
          key ∈ keys ↔ key ≠ [] ∧ ∃ s ∈ Report.weighted p sampleIndex, s.1 = key := by
        rw [← hperm.mem_iff, hstacks.mem_keys,
          ← Report.isSome_iff_of_rel (htallied.stackStats key), Report.firstStack_isSome,
          Report.exists_weighted hunique]
        rfl
      simp only [StackCosts.relabel, List.mem_map, hmem]
      constructor
      · rintro ⟨_, ⟨hne, s, hs, rfl⟩, rfl⟩
        exact ⟨by simpa using hne, _, ⟨s, hs, rfl⟩, rfl⟩
      · rintro ⟨hne, _, ⟨s, hs, rfl⟩, rfl⟩
        exact ⟨s.1, ⟨by simpa using hne, s, hs, rfl⟩, rfl⟩
    · rw [List.forall₂_map_left_iff]
      exact hrows.imp fun _ _ hrow => hrow.2

end Rows

/-! ## The report -/

/-- The columns of a recording, and the one that the report shows. -/
structure ShowsColumn (sampleIndex : ℕ) (duration : ℕ) (report : Report.ProfileReport) : Prop where
  available : report.availableSampleTypes = ["samples", "wall"]
  selected : (report.sampleType, report.sampleUnit) =
    if sampleIndex = 0 then ("samples", "count") else ("wall", "nanoseconds")
  duration : report.durationNanos = Int64.ofNat duration

section Columns
variable {p : PprofProfile} (htypes : p.valueTypes = [⟨1, 2⟩, ⟨3, 4⟩])
  (hstrings : exportStrings <+: p.strings.strings)
include hstrings

theorem profileString_export {i : UInt64} {s : String}
    (hs : exportStrings[i.toNat]? = some s) : Report.profileString p i = s := by
  rw [Report.profileString, getElem?_of_extension hstrings hs]
  rfl

include htypes

theorem sampleIndexOf_export (hdefault : p.defaultSampleType = 0) :
    Report.sampleIndexOf p none = .ok 1 ∧ Report.sampleIndexOf p (some "samples") = .ok 0 ∧
      Report.sampleIndexOf p (some "wall") = .ok 1 := by
  have hsamples : Report.profileString p 1 = "samples" := profileString_export hstrings rfl
  have hwall : Report.profileString p 3 = "wall" := profileString_export hstrings rfl
  have hdigits : Report.parseUsize "samples" = none ∧ Report.parseUsize "wall" = none := by decide
  unfold Report.sampleIndexOf
  simp [htypes, hdefault, hsamples, hwall, hdigits, List.idxOf?, List.findIdx?_cons]

theorem fromProfile_export {requested : Option String} {sampleIndex : ℕ}
    (hindex : Report.sampleIndexOf p requested = .ok sampleIndex)
    (frameOrder : List (FrameIdentity × FrameStat))
    (stackOrder : List (List FrameIdentity × StackStat)) :
    ∃ report, Report.fromProfile p requested frameOrder stackOrder = .ok report ∧
      report.totalValue = (Report.aggregate p sampleIndex).totalValue ∧
      report.sampleRecords = p.samples.length ∧
      (frameOrder.map Prod.snd).Perm report.topFrames ∧
      (stackOrder.map Prod.snd).Perm report.topStacks ∧
      ∀ duration, p.durationNanos = Int64.ofNat duration →
        ShowsColumn sampleIndex duration report := by
  have hlt := Report.sampleIndexOf_lt hindex
  have hnames : Report.profileString p 1 = "samples" ∧ Report.profileString p 2 = "count" ∧
      Report.profileString p 3 = "wall" ∧ Report.profileString p 4 = "nanoseconds" :=
    ⟨profileString_export hstrings rfl, profileString_export hstrings rfl,
      profileString_export hstrings rfl, profileString_export hstrings rfl⟩
  unfold Report.fromProfile
  simp only [hindex, bind, Except.bind, List.getElem?_eq_getElem hlt]
  refine ⟨_, rfl, rfl, rfl, (List.mergeSort_perm _ _).symm, (List.mergeSort_perm _ _).symm,
    fun duration hduration => ⟨?_, ?_, hduration⟩⟩
  · simp [htypes, hnames]
  · simp only [htypes, List.length_cons, List.length_nil] at hlt ⊢
    have hcases : sampleIndex = 0 ∨ sampleIndex = 1 := by omega
    rcases hcases with rfl | rfl
    · simp [hnames]
    · simp [hnames]

end Columns

theorem encode_not_gzip {p : PprofProfile} (htypes : p.valueTypes = [⟨1, 2⟩, ⟨3, 4⟩]) :
    ¬[0x1f, 0x8b] <+: p.encode := by
  have hvalueType : ValueType.encode ⟨1, 2⟩ ≠ [] := by decide
  have hhead : ∃ rest, p.encode = 0x0a :: rest := by
    unfold PprofProfile.encode
    rw [htypes, List.flatMap_cons, encodeLengthDelimited, if_neg hvalueType]
    exact ⟨_, rfl⟩
  obtain ⟨rest, hrest⟩ := hhead
  rw [hrest, List.cons_prefix_cons]
  exact fun h => absurd h.1 (by decide)

theorem fromPprof_ok {gunzip : List UInt8 → Option (List UInt8)} {data bytes : List UInt8}
    (hgzip : ¬[0x1f, 0x8b] <+: bytes)
    (hdata : data = bytes ∨ [0x1f, 0x8b] <+: data ∧ gunzip data = some bytes) {p : PprofProfile}
    (hdecode : PprofProfile.decode bytes = .ok p) {requested : Option String}
    {frameOrder : PprofProfile → List (FrameIdentity × FrameStat)}
    {stackOrder : PprofProfile → List (List FrameIdentity × StackStat)}
    {report : Report.ProfileReport}
    (hreport : Report.fromProfile p requested (frameOrder p) (stackOrder p) = .ok report) :
    Report.fromPprof gunzip data requested frameOrder stackOrder = .ok report := by
  have hread : Report.decompressIfNeeded gunzip data = some bytes := by
    unfold Report.decompressIfNeeded
    rcases hdata with rfl | ⟨hmagic, hgunzip⟩
    · rw [if_neg hgzip]
    · rw [if_pos hmagic, hgunzip]
  unfold Report.fromPprof
  simp [hread, hdecode, hreport, Except.mapError, bind, Except.bind]

theorem reports_built {profile : SymbolicatedProfile} {names : LabelNames} {p : PprofProfile}
    (h : Contents profile names p)
    (hlines : ∀ l ∈ p.locations, ∃ line, l.lines = [⟨l.id, line, 0⟩]) (hobserved : profile.Observed)
    (htypes : p.valueTypes = [⟨1, 2⟩, ⟨3, 4⟩]) (hstrings : exportStrings <+: p.strings.strings)
    (hduration : p.durationNanos = Int64.ofNat profile.duration) {requested : Option String}
    {sampleIndex : ℕ} (hindex : Report.sampleIndexOf p requested = .ok sampleIndex)
    (hfit : StackCosts.magnitude (profile.samples.map fun s =>
      (s.stack.reverse, worth profile.freqHz sampleIndex)) < 2 ^ 63)
    {frameOrder : List (FrameIdentity × FrameStat)}
    (hframes : Enumerates frameOrder (Report.aggregate p sampleIndex).stats)
    {stackOrder : List (List FrameIdentity × StackStat)}
    (hstacks : Enumerates stackOrder (Report.aggregate p sampleIndex).stackStats) :
    ∃ report, Report.fromProfile p requested frameOrder stackOrder = .ok report ∧
      ShowsColumn sampleIndex profile.duration report ∧
      Reports (fun addr => profile.frames[addr]?)
        (profile.samples.map fun s => (s.stack.reverse, worth profile.freqHz sampleIndex))
        report := by
  have hlt : sampleIndex < 2 := by simpa [htypes] using Report.sampleIndexOf_lt hindex
  have hweighted := weighted_built h hlines hobserved hlt
  have hcontributions := contributions_built h hlines hobserved hlt
  have hall : p.samples.length = (Report.weighted p sampleIndex).length := by
    have hkept : profile.kept = profile.samples := List.filter_eq_self.mpr fun s hs => by
      obtain ⟨hknown, hne, -⟩ := hobserved s hs
      simpa [hknown] using hne
    rw [Report.weighted_eq h.uniqueIds, List.length_map, ← hcontributions.length_eq,
      ← h.samples.length_eq, hkept]
  obtain ⟨report, hreport, htotal, hrecords, htopFrames, htopStacks, hcolumn⟩ :=
    fromProfile_export htypes hstrings hindex frameOrder stackOrder
  refine ⟨report, hreport, hcolumn _ hduration, ?_⟩
  rw [← hweighted] at hfit ⊢
  rw [StackCosts.magnitude_relabel] at hfit
  exact reports_ranked h.uniqueIds (weighted_names h hlines hobserved hlt) (addressOf_injOn h)
    hfit hall hframes hstacks htotal hrecords htopFrames htopStacks

section Capture
variable {deadline : Option ℕ} {startTime : ℕ} {final : List LoadedImage × ℕ} {loop : PlatformLoop}
  {live : RawProfile} (hlive : Represents live [])
include hlive

/-- What `report` shows of the file that is written once a sampling loop has ended, compressed or
not: every sampled address that is left, with its frame and the samples that it is the innermost
of or among, and every stack with its samples. -/
theorem report_of_samples {raw : RawProfile}
    (hraw : (loop.run deadline startTime final).result live = some raw)
    {order : List (StackKey × RawSampleSeries)} (horder : Enumerates order raw.stackSeries)
    (symbolizer : Symbolizer) (unresolved : Unresolved) {freqHz : UInt32} (hfreq : freqHz ≠ 0)
    (startWall : ℤ) (fileLen : String → Option UInt64)
    (hfit : VecsFit (builtProfile fileLen
      (fromRawWithSymbolizer raw order symbolizer unresolved freqHz startWall))) :
    ∃ bytes p,
      buildProto fileLen
        (fromRawWithSymbolizer raw order symbolizer unresolved freqHz startWall) = .ok bytes ∧
      PprofProfile.decode bytes = .ok p ∧
      Report.sampleIndexOf p none = .ok 1 ∧ Report.sampleIndexOf p (some "samples") = .ok 0 ∧
      Report.sampleIndexOf p (some "wall") = .ok 1 ∧
      ∀ requested sampleIndex, Report.sampleIndexOf p requested = .ok sampleIndex →
        StackCosts.magnitude (sampledStacks (keeps symbolizer unresolved)
          (worth freqHz sampleIndex) (loop.samples deadline startTime)) < 2 ^ 63 →
        ∀ frameOrder stackOrder,
          Enumerates (frameOrder p) (Report.aggregate p sampleIndex).stats →
          Enumerates (stackOrder p) (Report.aggregate p sampleIndex).stackStats →
          ∀ gunzip data, data = bytes ∨ [0x1f, 0x8b] <+: data ∧ gunzip data = some bytes →
            ∃ report,
              Report.fromPprof gunzip data requested frameOrder stackOrder = .ok report ∧
              ShowsColumn sampleIndex (raw.endTime - raw.startTime) report ∧
              Reports (frameFor symbolizer unresolved)
                (sampledStacks (keeps symbolizer unresolved) (worth freqHz sampleIndex)
                  (loop.samples deadline startTime)) report := by
  have hlog := loop.result_represents hlive hraw
  have hperm := fromRaw_samples_perm hlog horder symbolizer unresolved freqHz startWall
  have hobserved : (fromRawWithSymbolizer raw order symbolizer unresolved freqHz
      startWall).Observed := fromRaw_known hlog horder symbolizer unresolved freqHz startWall
  have hframes := fromRaw_frames symbolizer unresolved freqHz startWall horder
  have hduration : (fromRawWithSymbolizer raw order symbolizer unresolved freqHz
      startWall).duration = raw.endTime - raw.startTime := rfl
  have hfreq' : (fromRawWithSymbolizer raw order symbolizer unresolved freqHz
      startWall).freqHz = freqHz := rfl
  generalize fromRawWithSymbolizer raw order symbolizer unresolved freqHz startWall = profile at *
  obtain ⟨names, hcontents⟩ := builtProfile_contents fileLen profile hfit
  have hlines := builtProfile_lines fileLen profile
  obtain ⟨htypes, hnanos, hdefault, hstrings⟩ := builtProfile_header fileLen profile
  have hdecode : PprofProfile.decode (builtProfile fileLen profile).encode =
      .ok (builtProfile fileLen profile) := by
    rw [decode_encode _ hcontents.built (lt_trans hfit.encoding (by norm_num)),
      (PprofProfile.survivor_eq_self_iff _).mpr hcontents.noDefault]
  have hgzip := encode_not_gzip htypes
  obtain ⟨hnone, hsamples, hwall⟩ := sampleIndexOf_export htypes hstrings hdefault
  refine ⟨_, _, if_neg (hfreq' ▸ hfreq), hdecode, hnone, hsamples, hwall, ?_⟩
  intro requested sampleIndex hindex hmagnitude frameOrder stackOrder hframeOrder hstackOrder gunzip
    data hdata
  have hstacks : (profile.samples.map fun s =>
      (s.stack.reverse, worth profile.freqHz sampleIndex)).Perm
        (sampledStacks (keeps symbolizer unresolved) (worth freqHz sampleIndex)
          (loop.samples deadline startTime)) := by
    have hmap := hperm.map fun s : Sample => (s.stack.reverse, worth profile.freqHz sampleIndex)
    rw [List.map_map] at hmap
    rw [hfreq'] at hmap ⊢
    exact hmap
  have hsum : StackCosts.magnitude (profile.samples.map fun s =>
      (s.stack.reverse, worth profile.freqHz sampleIndex)) < 2 ^ 63 :=
    lt_of_eq_of_lt ((hstacks.map _).sum_eq) hmagnitude
  obtain ⟨report, hreport, hcolumn, hreports⟩ := reports_built hcontents hlines hobserved htypes
    hstrings hnanos hindex hsum hframeOrder hstackOrder
  refine ⟨report, fromPprof_ok hgzip hdata hdecode hreport, hduration ▸ hcolumn,
    (hreports.perm hstacks).frames_congr ?_⟩
  intro s hs addr haddr
  obtain ⟨sample, hsample, rfl⟩ := List.mem_map.mp (hstacks.mem_iff.mpr hs)
  obtain ⟨hknown, -, -⟩ := hobserved sample hsample
  have haddr' : addr ∈ knownStack profile.frames sample.stack := by
    rw [hknown]
    simpa using haddr
  have hmem := of_decide_eq_true (List.mem_filter.mp haddr').2
  rw [Std.ExtHashMap.mem_iff_isSome_getElem?, Option.isSome_iff_exists] at hmem
  obtain ⟨frame, hframe⟩ := hmem
  rw [hframe, ((hframes addr frame).mp hframe).2]

end Capture

theorem report_of_samples_app : ∃ bytes report,
    buildProto (fun _ => none) (appSymbolized ⟨2, some [5, 12]⟩ 30) = .ok bytes ∧
    (∃ frameOrder stackOrder,
      Report.fromPprof (fun _ => none) bytes none frameOrder stackOrder = .ok report) ∧
    report.sampleType = "wall" ∧ report.totalValue.toInt = 3000000 ∧ report.sampleRecords = 3 ∧
    (∃ stat ∈ report.topFrames, stat.function = "main" ∧ stat.flat.toInt = 2000000 ∧
      stat.cumulative.toInt = 3000000) ∧
    ∃ stat ∈ report.topFrames, stat.function = "work" ∧ stat.flat.toInt = 1000000 ∧
      stat.cumulative.toInt = 1000000 := by
  have hsampled : sampledStacks (keeps appSymbolizer .hex) (worth 1000 1)
      (appLoop.samples none 0) = [([0x1000], worth 1000 1), ([0x1000, 0x1020], worth 1000 1),
        ([0x1000], worth 1000 1)] := by
    rw [appLoop_samples]
    rfl
  obtain ⟨bytes, p, hbytes, -, hnone, -, -, hreports⟩ := @report_of_samples none 0 ([], 30) appLoop
    emptyLive (.empty rfl rfl) (appLive ⟨2, some [5, 12]⟩ 30) appLoop_result _
    (appLive_enumerates _ 30) appSymbolizer .hex 1000 (by decide) 0 (fun _ => none)
    (appFinal_vecsFit _ 30)
  obtain ⟨frameOrder, hframeOrder⟩ := Enumerates.exists_order (Report.aggregate p 1).stats
  obtain ⟨stackOrder, hstackOrder⟩ := Enumerates.exists_order (Report.aggregate p 1).stackStats
  obtain ⟨report, hreport, hcolumn, hreports⟩ := hreports none 1 hnone
    (by rw [hsampled]; decide) (fun _ => frameOrder) (fun _ => stackOrder) hframeOrder hstackOrder
    (fun _ => none) bytes (.inl rfl)
  rw [hsampled] at hreports
  obtain ⟨addrs, -, hmem, hrows⟩ := hreports.topFrames
  obtain ⟨main, hmain, hmainRow⟩ := forall₂_exists_right hrows ((hmem 0x1000).mpr (by decide))
  obtain ⟨work, hwork, hworkRow⟩ := forall₂_exists_right hrows ((hmem 0x1020).mpr (by decide))
  refine ⟨bytes, report, hbytes, ⟨_, _, hreport⟩, congrArg Prod.fst hcolumn.selected,
    hreports.totalValue.trans (by decide), hreports.sampleRecords, ?_, ?_⟩
  · have hframe : some (⟨"main", "main.c", 3⟩ : ReportFrame) =
        some ⟨main.function, main.file, main.line⟩ := hmainRow.frame
    exact ⟨main, hmain, (congrArg ReportFrame.function (Option.some.inj hframe)).symm,
      hmainRow.flat.trans (by decide), hmainRow.cumulative.trans (by decide)⟩
  · have hframe : some (⟨"work", "main.c", 7⟩ : ReportFrame) =
        some ⟨work.function, work.file, work.line⟩ := hworkRow.frame
    exact ⟨work, hwork, (congrArg ReportFrame.function (Option.some.inj hframe)).symm,
      hworkRow.flat.trans (by decide), hworkRow.cumulative.trans (by decide)⟩

end PProfessor.Capture
