import PProfessor.ProtoBuilder

set_option autoImplicit false

/-!
# What `build_proto` builds

The built profile has one sample for each sample with a known address, in order,
whose locations resolve to exactly those addresses, and no element that the
encoder would drop.
-/
namespace PProfessor.Capture
open CheckedArith KeyedSum NumberedTable Pprof

/-- `Vec`s whose lengths decide the ids of a profile. -/
structure TablesFit (p : PprofProfile) : Prop where
  strings : p.strings.strings.length < 2 ^ 63
  functions : p.functions.length < 2 ^ 63
  locations : p.locations.length < 2 ^ 63

def InTable (strings : StringTable) (index : UInt64) : Prop :=
  index.toNat < strings.strings.length

theorem InTable.of_extension {a b : StringTable} {index : UInt64} (h : InTable a index)
    (hp : a.strings <+: b.strings) : InTable b index :=
  lt_of_lt_of_le h hp.length_le

theorem inTable_of_getElem? {strings : StringTable} {index : UInt64} {s : String}
    (h : strings.strings[index.toNat]? = some s) : InTable strings index :=
  (List.getElem?_eq_some_iff.mp h).choose

theorem inTable_intern {strings : StringTable} {s : String}
    (h : (strings.intern s).2.strings.length < 2 ^ 63) :
    InTable (strings.intern s).2 (strings.intern s).1 :=
  inTable_of_getElem? (StringTable.intern_getElem? strings s (lt_trans h (by norm_num)))

theorem inTable_zero {strings : StringTable} (h : strings.Built) : InTable strings 0 := by
  have hhead := h.canonical.1
  rw [List.head?_eq_getElem?] at hhead
  exact inTable_of_getElem? hhead

/-- The strings of a function are in the table. -/
structure FunctionIn (strings : StringTable) (f : Pprof.Function) : Prop where
  name : InTable strings f.name
  systemName : InTable strings f.systemName
  filename : InTable strings f.filename

theorem FunctionIn.of_extension {a b : StringTable} {f : Pprof.Function} (h : FunctionIn a f)
    (hp : a.strings <+: b.strings) : FunctionIn b f :=
  ⟨h.name.of_extension hp, h.systemName.of_extension hp, h.filename.of_extension hp⟩

namespace Builder

/-- Tables are only appended to, and the rest of the header stays. -/
structure Grows (a b : Builder) : Prop where
  strings : a.enc.strings.strings <+: b.enc.strings.strings
  functions : a.enc.functions <+: b.enc.functions
  locations : a.enc.locations <+: b.enc.locations
  header : b.enc =
    { a.enc with
      strings := b.enc.strings, functions := b.enc.functions, locations := b.enc.locations,
      samples := b.enc.samples }

theorem Grows.refl (b : Builder) : b.Grows b :=
  ⟨List.prefix_refl _, List.prefix_refl _, List.prefix_refl _, rfl⟩

theorem Grows.trans {a b c : Builder} (h : a.Grows b) (h' : b.Grows c) : a.Grows c :=
  ⟨h.strings.trans h'.strings, h.functions.trans h'.functions, h.locations.trans h'.locations,
    h'.header.trans (by rw [h.header])⟩

theorem Grows.tablesFit {a b : Builder} (h : a.Grows b) (hb : TablesFit b.enc) :
    TablesFit a.enc :=
  ⟨lt_of_le_of_lt h.strings.length_le hb.strings,
    lt_of_le_of_lt h.functions.length_le hb.functions,
    lt_of_le_of_lt h.locations.length_le hb.locations⟩

end Builder

structure LabelNames.In (names : LabelNames) (strings : StringTable) : Prop where
  threadId : strings.strings[names.threadId.toNat]? = some "thread_id"
  threadName : strings.strings[names.threadName.toNat]? = some "thread_name"
  timestamp : strings.strings[names.timestamp.toNat]? = some "pprofessor::timestamp"
  nanoseconds : strings.strings[names.nanoseconds.toNat]? = some "nanoseconds"

structure FunctionShows (strings : StringTable) (frame : StackFrame) (f : Pprof.Function) :
    Prop where
  name : strings.strings[f.name.toNat]? = some frame.function
  filename : strings.strings[f.filename.toNat]? = some frame.file

theorem FunctionShows.of_extension {a b : StringTable} {frame : StackFrame} {f : Pprof.Function}
    (h : FunctionShows a frame f) (hp : a.strings <+: b.strings) : FunctionShows b frame f :=
  ⟨getElem?_of_extension hp h.name, getElem?_of_extension hp h.filename⟩

structure LocationShows (images : List LoadedImage) (frames : Std.ExtHashMap UInt64 StackFrame)
    (p : PprofProfile) (l : Location) : Prop where
  line : ∃ frame f, frames[l.address]? = some frame ∧ f ∈ p.functions ∧
    FunctionShows p.strings frame f ∧ l.lines = [⟨f.id, Int64.ofNat frame.line.toNat, 0⟩]
  mapping : l.mappingId = mappingFor images l.address

theorem LocationShows.of_extension {images : List LoadedImage}
    {frames : Std.ExtHashMap UInt64 StackFrame} {p q : PprofProfile} {l : Location}
    (h : LocationShows images frames p l) (hstrings : p.strings.strings <+: q.strings.strings)
    (hfunctions : p.functions <+: q.functions) : LocationShows images frames q l := by
  obtain ⟨frame, f, hframe, hf, hshows, hlines⟩ := h.line
  exact ⟨⟨frame, f, hframe, hfunctions.subset hf, hshows.of_extension hstrings, hlines⟩, h.mapping⟩

namespace Builder

structure Inv (images : List LoadedImage) (frames : Std.ExtHashMap UInt64 StackFrame)
    (names : LabelNames) (b : Builder) : Prop where
  built : b.enc.strings.Built
  names : names.In b.enc.strings
  functions : Numbered Function.id b.enc.functions
  functionNames : ∀ f ∈ b.enc.functions, FunctionIn b.enc.strings f
  locations : Numbered Location.id b.enc.locations
  shown : ∀ l ∈ b.enc.locations, LocationShows images frames b.enc l
  functionKnown : ∀ (addr id : UInt64), b.funcIdMap[addr]? = some id → ∃ frame f,
    frames[addr]? = some frame ∧ f ∈ b.enc.functions ∧ FunctionShows b.enc.strings frame f ∧
      f.id = id
  known : ∀ (addr id : UInt64), b.locIdMap[addr]? = some id →
    addressIn b.enc.locations id = some addr
  indexed : ∀ l ∈ b.enc.locations, b.locIdMap[l.address]? = some l.id

end Builder

theorem functionFor_grows (addr : UInt64) (frame : StackFrame) (b : Builder) :
    b.Grows (functionFor addr frame b).2 := by
  unfold functionFor
  cases b.funcIdMap[addr]? with
  | some id => exact .refl b
  | none =>
    refine ⟨?_, List.prefix_append _ _, List.prefix_refl _, rfl⟩
    exact (StringTable.intern_extends _ _).trans (StringTable.intern_extends _ _)

theorem functionFor_locations (addr : UInt64) (frame : StackFrame) (b : Builder) :
    (functionFor addr frame b).2.enc.locations = b.enc.locations ∧
      (functionFor addr frame b).2.locIdMap = b.locIdMap ∧
      (functionFor addr frame b).2.enc.samples = b.enc.samples := by
  unfold functionFor
  cases b.funcIdMap[addr]? with
  | some id => exact ⟨rfl, rfl, rfl⟩
  | none => exact ⟨rfl, rfl, rfl⟩

theorem LabelNames.In.of_extension {names : LabelNames} {a b : StringTable} (h : names.In a)
    (hp : a.strings <+: b.strings) : names.In b :=
  ⟨getElem?_of_extension hp h.threadId, getElem?_of_extension hp h.threadName,
    getElem?_of_extension hp h.timestamp, getElem?_of_extension hp h.nanoseconds⟩

theorem functionFor_inv {images : List LoadedImage} {frames : Std.ExtHashMap UInt64 StackFrame}
    {names : LabelNames} {addr : UInt64} {frame : StackFrame} (hframe : frames[addr]? = some frame)
    {b : Builder} (h : b.Inv images frames names)
    (hfit : TablesFit (functionFor addr frame b).2.enc) :
    (functionFor addr frame b).2.Inv images frames names ∧
      ∃ f ∈ (functionFor addr frame b).2.enc.functions,
        FunctionShows (functionFor addr frame b).2.enc.strings frame f ∧
          f.id = (functionFor addr frame b).1 := by
  have hgrows := functionFor_grows addr frame b
  have hnames := h.names.of_extension hgrows.strings
  have hshown : ∀ l ∈ b.enc.locations,
      LocationShows images frames (functionFor addr frame b).2.enc l :=
    fun l hl => (h.shown l hl).of_extension hgrows.strings hgrows.functions
  unfold functionFor at hfit hnames hgrows hshown ⊢
  cases hf : b.funcIdMap[addr]? with
  | some id =>
    obtain ⟨frame', f, hframe', hmem, hshows, hid⟩ := h.functionKnown addr id hf
    rw [hframe, Option.some.injEq] at hframe'
    subst hframe'
    exact ⟨h, f, hmem, hshows, hid⟩
  | none =>
    rw [hf] at hfit hnames hgrows hshown
    have hlen : b.enc.functions.length + 1 < 2 ^ 63 := by simpa using hfit.functions
    have hextends := StringTable.intern_extends (b.enc.strings.intern frame.function).2 frame.file
    have hfitName := lt_of_le_of_lt hextends.length_le hfit.strings
    have hname := inTable_intern hfitName
    have hfile := inTable_intern hfit.strings
    have hshows : FunctionShows ((b.enc.strings.intern frame.function).2.intern frame.file).2 frame
        ⟨UInt64.ofNat (b.enc.functions.length + 1), (b.enc.strings.intern frame.function).1,
          (b.enc.strings.intern frame.function).1,
          ((b.enc.strings.intern frame.function).2.intern frame.file).1, 0⟩ :=
      ⟨getElem?_of_extension hextends
        (StringTable.intern_getElem? _ _ (lt_trans hfitName (by norm_num))),
        StringTable.intern_getElem? _ _ (lt_trans hfit.strings (by norm_num))⟩
    have hself := List.mem_append_right b.enc.functions (List.mem_singleton_self
      (⟨UInt64.ofNat (b.enc.functions.length + 1), (b.enc.strings.intern frame.function).1,
        (b.enc.strings.intern frame.function).1,
        ((b.enc.strings.intern frame.function).2.intern frame.file).1, 0⟩ : Pprof.Function))
    refine ⟨⟨(h.built.intern _).intern _, hnames, ?_, ?_, h.locations, hshown, ?_, h.known,
      h.indexed⟩, _, hself, hshows, rfl⟩
    · exact h.functions.concat (ofNat_succ_toNat (by omega))
    · intro f hmem
      rcases List.mem_append.mp hmem with hold | hnew
      · exact (h.functionNames f hold).of_extension
          ((StringTable.intern_extends _ _).trans hextends)
      · rw [List.mem_singleton.mp hnew]
        exact ⟨hname.of_extension hextends, hname.of_extension hextends, hfile⟩
    · intro addr' id' hid
      dsimp only at hid
      rw [Std.ExtHashMap.getElem?_insert] at hid
      split_ifs at hid with ha
      · rw [← LawfulBEq.eq_of_beq ha]
        exact ⟨frame, _, hframe, hself, hshows, Option.some.inj hid⟩
      · obtain ⟨frame', f, hframe', hmem, hshows', hid'⟩ := h.functionKnown addr' id' hid
        exact ⟨frame', f, hframe', hgrows.functions.subset hmem,
          hshows'.of_extension hgrows.strings, hid'⟩

theorem locationFor_grows (images : List LoadedImage) (addr : UInt64) (frame : StackFrame)
    (b : Builder) : b.Grows (locationFor images addr frame b).2 := by
  unfold locationFor
  cases b.locIdMap[addr]? with
  | some id => exact .refl b
  | none =>
    refine (functionFor_grows addr frame b).trans ?_
    exact ⟨List.prefix_refl _, List.prefix_refl _, List.prefix_append _ _, rfl⟩

theorem locationFor_samples (images : List LoadedImage) (addr : UInt64) (frame : StackFrame)
    (b : Builder) : (locationFor images addr frame b).2.enc.samples = b.enc.samples := by
  unfold locationFor
  cases b.locIdMap[addr]? with
  | some id => rfl
  | none => exact (functionFor_locations addr frame b).2.2

theorem locationFor_inv {images : List LoadedImage} {frames : Std.ExtHashMap UInt64 StackFrame}
    {names : LabelNames} {addr : UInt64} {frame : StackFrame} (hframe : frames[addr]? = some frame)
    {b : Builder} (h : b.Inv images frames names)
    (hfit : TablesFit (locationFor images addr frame b).2.enc) :
    (locationFor images addr frame b).2.Inv images frames names ∧
      addressIn (locationFor images addr frame b).2.enc.locations
        (locationFor images addr frame b).1 = some addr := by
  unfold locationFor at hfit ⊢
  cases hl : b.locIdMap[addr]? with
  | some id => exact ⟨h, h.known addr id hl⟩
  | none =>
    rw [hl] at hfit
    have hlen : (functionFor addr frame b).2.enc.locations.length + 1 < 2 ^ 63 := by
      simpa using hfit.locations
    obtain ⟨hinv, f, hf, hshows, hid⟩ := functionFor_inv hframe h
      ⟨hfit.strings, hfit.functions, Nat.lt_of_succ_lt hlen⟩
    have hsame := functionFor_locations addr frame b
    have hnumbered := hinv.locations.concat (x :=
      (⟨UInt64.ofNat ((functionFor addr frame b).2.enc.locations.length + 1),
        mappingFor images addr, addr,
        [⟨(functionFor addr frame b).1, Int64.ofNat frame.line.toNat, 0⟩], false⟩ : Location))
      (ofNat_succ_toNat (by omega))
    have hself := hnumbered.lookup_eq (List.mem_append_right _ List.mem_cons_self)
    have haddr : addressIn _ _ = some addr := congrArg (Option.map Location.address) hself
    refine ⟨⟨hinv.built, hinv.names, hinv.functions, hinv.functionNames, hnumbered, ?_,
      hinv.functionKnown, ?_, ?_⟩, haddr⟩
    · intro l hmem
      rcases List.mem_append.mp hmem with hold | hnew
      · exact (hinv.shown l hold).of_extension (List.prefix_refl _) (List.prefix_refl _)
      · rw [List.mem_singleton.mp hnew]
        exact ⟨⟨frame, f, hframe, hf, hshows, by rw [hid]⟩, rfl⟩
    · intro addr' id' hid
      dsimp only at hid
      rw [Std.ExtHashMap.getElem?_insert] at hid
      split_ifs at hid with ha
      · rw [← Option.some.inj hid, ← LawfulBEq.eq_of_beq ha]
        exact haddr
      · exact addressIn_of_extension (List.prefix_append _ _) (hinv.known addr' id' hid)
    · intro l hmem
      dsimp only
      rw [Std.ExtHashMap.getElem?_insert]
      rcases List.mem_append.mp hmem with hold | hnew
      · have hl' := hinv.indexed l hold
        rw [if_neg, hl']
        intro ha
        rw [← LawfulBEq.eq_of_beq ha, hsame.2.1, hl] at hl'
        cases hl'
      · rw [List.mem_singleton.mp hnew, if_pos BEq.rfl]

theorem locationIds_grows (images : List LoadedImage)
    (frames : Std.ExtHashMap UInt64 StackFrame) (stack : List UInt64) (b : Builder) :
    b.Grows (locationIds images frames stack b).2 := by
  induction stack generalizing b with
  | nil => exact .refl b
  | cons addr rest ih =>
    unfold locationIds
    cases frames[addr]? with
    | none => exact ih b
    | some frame => exact (locationFor_grows images addr frame b).trans (ih _)

theorem locationIds_samples (images : List LoadedImage)
    (frames : Std.ExtHashMap UInt64 StackFrame) (stack : List UInt64) (b : Builder) :
    (locationIds images frames stack b).2.enc.samples = b.enc.samples := by
  induction stack generalizing b with
  | nil => rfl
  | cons addr rest ih =>
    unfold locationIds
    cases frames[addr]? with
    | none => exact ih b
    | some frame => exact (ih _).trans (locationFor_samples images addr frame b)

def knownStack (frames : Std.ExtHashMap UInt64 StackFrame) (stack : List UInt64) : List UInt64 :=
  stack.filter fun addr => addr ∈ frames

theorem locationIds_inv {names : LabelNames} (images : List LoadedImage)
    (frames : Std.ExtHashMap UInt64 StackFrame) (stack : List UInt64) {b : Builder}
    (h : b.Inv images frames names) (hfit : TablesFit (locationIds images frames stack b).2.enc) :
    (locationIds images frames stack b).2.Inv images frames names ∧
      (locationIds images frames stack b).1.map
        (addressIn (locationIds images frames stack b).2.enc.locations) =
          (knownStack frames stack).map some := by
  induction stack generalizing b with
  | nil => exact ⟨h, rfl⟩
  | cons addr rest ih =>
    unfold locationIds at hfit ⊢
    cases hf : frames[addr]? with
    | none =>
      rw [hf] at hfit
      have hmem : addr ∉ frames := by simpa using hf
      rw [knownStack, List.filter_cons_of_neg (by simpa using hmem)]
      exact ih h hfit
    | some frame =>
      rw [hf] at hfit
      have hmem : addr ∈ frames := by
        rw [Std.ExtHashMap.mem_iff_isSome_getElem?, hf]
        rfl
      have hgrows := locationIds_grows images frames rest (locationFor images addr frame b).2
      obtain ⟨hinv, haddr⟩ := locationFor_inv hf h (hgrows.tablesFit hfit)
      obtain ⟨hinv', hids⟩ := ih hinv hfit
      refine ⟨hinv', ?_⟩
      rw [knownStack, List.filter_cons_of_pos (by simpa using hmem), List.map_cons, List.map_cons]
      rw [addressIn_of_extension hgrows.locations haddr]
      exact congrArg _ hids

theorem locationIds_eq_nil_iff (images : List LoadedImage)
    (frames : Std.ExtHashMap UInt64 StackFrame) (stack : List UInt64) (b : Builder) :
    (locationIds images frames stack b).1 = [] ↔ knownStack frames stack = [] := by
  induction stack generalizing b with
  | nil => simp [locationIds, knownStack]
  | cons addr rest ih =>
    unfold locationIds knownStack
    cases hf : frames[addr]? with
    | none =>
      have hmem : addr ∉ frames := by simpa using hf
      rw [List.filter_cons_of_neg (by simpa using hmem)]
      exact ih b
    | some frame =>
      have hmem : addr ∈ frames := by
        rw [Std.ExtHashMap.mem_iff_isSome_getElem?, hf]
        rfl
      rw [List.filter_cons_of_pos (by simpa using hmem)]
      simp

def nameLabels (names : LabelNames) (threadName : String) (nameIdx : UInt64) : List Label :=
  if threadName = "" then [] else [⟨names.threadName, nameIdx, 0, 0⟩]

/-- `t` is `s` in the tables of `enc`. -/
structure Renders (profile : SymbolicatedProfile) (names : LabelNames) (periodNs : Int64)
    (enc : PprofProfile) (s : Sample) (t : Pprof.Sample) : Prop where
  locations : t.locationIds.map (addressIn enc.locations) =
    (knownStack profile.frames s.stack).map some
  values : t.values = [clampI64 s.count, saturatingMulI64 (clampI64 s.count) periodNs]
  labels : ∃ nameIdx : UInt64,
    (profile.threads[s.threadId]?.getD "" ≠ "" →
      enc.strings.strings[nameIdx.toNat]? = some (profile.threads[s.threadId]?.getD "")) ∧
    t.labels = [threadLabel names s] ++
      nameLabels names (profile.threads[s.threadId]?.getD "") nameIdx ++ timestampLabels names s

theorem Renders.of_grows {profile : SymbolicatedProfile} {names : LabelNames} {periodNs : Int64}
    {a b : Builder} {s : Sample} {t : Pprof.Sample} (h : Renders profile names periodNs a.enc s t)
    (hg : a.Grows b) : Renders profile names periodNs b.enc s t := by
  refine ⟨?_, h.values, ?_⟩
  · rw [← h.locations]
    apply List.map_congr_left
    intro id hid
    have hmem := List.mem_map_of_mem (f := addressIn a.enc.locations) hid
    rw [h.locations] at hmem
    obtain ⟨addr, -, haddr⟩ := List.mem_map.mp hmem
    rw [← haddr]
    exact addressIn_of_extension hg.locations haddr.symm
  · obtain ⟨nameIdx, hname, hlabels⟩ := h.labels
    exact ⟨nameIdx, fun hne => getElem?_of_extension hg.strings (hname hne), hlabels⟩

section Samples
variable (images : List LoadedImage) (profile : SymbolicatedProfile) (names : LabelNames)
  (periodNs : Int64)

theorem addSample_grows (b : Builder) (s : Sample) :
    b.Grows (addSample images profile names periodNs b s) := by
  have hids := locationIds_grows images profile.frames s.stack b
  unfold addSample
  dsimp only
  split_ifs
  · exact hids
  · exact hids.trans ⟨List.prefix_refl _, List.prefix_refl _, List.prefix_refl _, rfl⟩
  · exact hids.trans ⟨StringTable.intern_extends _ _, List.prefix_refl _, List.prefix_refl _, rfl⟩

theorem addSamples_grows (b : Builder) (samples : List Sample) :
    b.Grows (samples.foldl (addSample images profile names periodNs) b) := by
  induction samples generalizing b with
  | nil => exact .refl b
  | cons s samples ih => exact (addSample_grows images profile names periodNs b s).trans (ih _)

variable {images profile names periodNs}

theorem addSample_inv {b : Builder} {s : Sample} (h : b.Inv images profile.frames names)
    (hfit : TablesFit (addSample images profile names periodNs b s).enc) :
    (addSample images profile names periodNs b s).Inv images profile.frames names ∧
    if knownStack profile.frames s.stack = [] then
      (addSample images profile names periodNs b s).enc.samples = b.enc.samples
    else
      ∃ t, (addSample images profile names periodNs b s).enc.samples = b.enc.samples ++ [t] ∧
        Renders profile names periodNs (addSample images profile names periodNs b s).enc s t := by
  have hsamples := locationIds_samples images profile.frames s.stack b
  have hnil := locationIds_eq_nil_iff images profile.frames s.stack b
  unfold addSample at hfit ⊢
  dsimp only at hfit ⊢
  by_cases hempty : knownStack profile.frames s.stack = []
  · rw [if_pos (hnil.mpr hempty)] at hfit ⊢
    rw [if_pos hempty]
    exact ⟨(locationIds_inv _ _ _ h hfit).1, hsamples⟩
  · have hne := mt hnil.mp hempty
    rw [if_neg hne] at hfit ⊢
    rw [if_neg hempty]
    by_cases hname : profile.threads[s.threadId]?.getD "" = ""
    · rw [if_pos hname] at hfit ⊢
      obtain ⟨hinv, hids⟩ := locationIds_inv images profile.frames s.stack h
        ⟨hfit.strings, hfit.functions, hfit.locations⟩
      refine ⟨⟨hinv.built, hinv.names, hinv.functions, hinv.functionNames, hinv.locations,
        fun l hl => (hinv.shown l hl).of_extension (List.prefix_refl _) (List.prefix_refl _),
        hinv.functionKnown, hinv.known, hinv.indexed⟩, _, by rw [hsamples], hids, rfl, 0, ?_, ?_⟩
      · exact fun hne => absurd hname hne
      · rw [nameLabels, if_pos hname]
    · rw [if_neg hname] at hfit ⊢
      have hextends := StringTable.intern_extends
        (locationIds images profile.frames s.stack b).2.enc.strings
        (profile.threads[s.threadId]?.getD "")
      obtain ⟨hinv, hids⟩ := locationIds_inv images profile.frames s.stack h
        ⟨lt_of_le_of_lt hextends.length_le hfit.strings, hfit.functions, hfit.locations⟩
      refine ⟨⟨hinv.built.intern _, hinv.names.of_extension hextends, hinv.functions,
        fun f hf => (hinv.functionNames f hf).of_extension hextends, hinv.locations,
        fun l hl => (hinv.shown l hl).of_extension hextends (List.prefix_refl _), ?_, hinv.known,
        hinv.indexed⟩, _, by rw [hsamples], hids, rfl,
        ((locationIds images profile.frames s.stack b).2.enc.strings.intern
          (profile.threads[s.threadId]?.getD "")).1, ?_, ?_⟩
      · intro addr id hid
        obtain ⟨frame, f, hframe, hf, hshows, hfid⟩ := hinv.functionKnown addr id hid
        exact ⟨frame, f, hframe, hf, hshows.of_extension hextends, hfid⟩
      · intro _
        exact StringTable.intern_getElem? _ _ (lt_trans hfit.strings (by norm_num))
      · rw [nameLabels, if_neg hname]

theorem addSamples_inv (samples : List Sample) {b : Builder}
    (h : b.Inv images profile.frames names)
    (hfit : TablesFit (samples.foldl (addSample images profile names periodNs) b).enc)
    (done : List Sample)
    (hdone : List.Forall₂ (Renders profile names periodNs b.enc) done b.enc.samples) :
    (samples.foldl (addSample images profile names periodNs) b).Inv images profile.frames names ∧
    List.Forall₂ (Renders profile names periodNs
      (samples.foldl (addSample images profile names periodNs) b).enc)
      (done ++ samples.filter fun s => knownStack profile.frames s.stack ≠ [])
      (samples.foldl (addSample images profile names periodNs) b).enc.samples := by
  induction samples generalizing b done with
  | nil => simpa using ⟨h, hdone⟩
  | cons s samples ih =>
    rw [List.foldl_cons] at hfit ⊢
    have hgrows := addSamples_grows images profile names periodNs
      (addSample images profile names periodNs b s) samples
    obtain ⟨hinv, hsample⟩ := addSample_inv h (hgrows.tablesFit hfit)
    have hold := hdone.imp fun _ _ hr =>
      hr.of_grows (addSample_grows images profile names periodNs b s)
    by_cases hempty : knownStack profile.frames s.stack = []
    · rw [if_pos hempty] at hsample
      rw [List.filter_cons_of_neg (by simpa using hempty)]
      rw [← hsample] at hold
      exact ih hinv hfit done hold
    · rw [if_neg hempty] at hsample
      obtain ⟨t, ht, hr⟩ := hsample
      have hnext : List.Forall₂ _ (done ++ [s]) (b.enc.samples ++ [t]) :=
        List.rel_append hold (List.Forall₂.cons hr .nil)
      rw [← ht] at hnext
      rw [List.filter_cons_of_pos (by simpa using hempty), List.append_cons]
      exact ih hinv hfit (done ++ [s]) hnext

end Samples

/-! ## The whole profile -/

/-- `Vec`s hold fewer than 2^63 elements. -/
structure VecsFit (p : PprofProfile) : Prop extends TablesFit p where
  mappings : p.mappings.length < 2 ^ 63
  encoding : p.encode.length < 2 ^ 63

theorem index_ne_zero {strings : StringTable} (h : strings.Built) {i : UInt64} {s : String}
    (hs : strings.strings[i.toNat]? = some s) (hne : s ≠ "") : i ≠ 0 := by
  rintro rfl
  have hhead := h.canonical.1
  rw [List.head?_eq_getElem?] at hhead
  change strings.strings[0]? = some s at hs
  rw [hs, Option.some.injEq] at hhead
  exact hne hhead

theorem pushMappings_spec (fileLen : String → Option UInt64) (images : List LoadedImage)
    (index : ℕ) (enc : PprofProfile) :
    enc.strings.strings <+: (pushMappings fileLen images index enc).strings.strings ∧
    (enc.strings.Built → (pushMappings fileLen images index enc).strings.Built) ∧
    (∃ strings mappings, pushMappings fileLen images index enc =
      { enc with strings := strings, mappings := enc.mappings ++ mappings } ∧
      mappings.length = images.length ∧
      (index + images.length < 2 ^ 64 →
        ∀ (i : ℕ) (m : Mapping), mappings[i]? = some m → m.id.toNat = index + i + 1) ∧
      (strings.strings.length < 2 ^ 63 → ∀ m ∈ mappings, InTable strings m.filename ∧
        m.buildId = 0)) := by
  induction images generalizing index enc with
  | nil =>
    exact ⟨List.prefix_refl _, id, enc.strings, [], by simp [pushMappings], rfl, by simp, by simp⟩
  | cons image rest ih =>
    unfold pushMappings
    obtain ⟨hp, hb, strings, mappings, heq, hlen, hids, hnames⟩ := ih (index + 1)
      { enc with
        strings := (enc.strings.intern image.path).2
        mappings := enc.mappings ++
          [imageMapping fileLen image rest index (enc.strings.intern image.path).1] }
    refine ⟨(StringTable.intern_extends _ _).trans hp, fun h => hb (h.intern _), strings,
      imageMapping fileLen image rest index (enc.strings.intern image.path).1 :: mappings, ?_,
      ?_, ?_, ?_⟩
    · refine heq.trans ?_
      simp only [List.append_assoc, List.singleton_append]
    · simp [hlen]
    · intro hlt i m hm
      rw [List.length_cons] at hlt
      cases i with
      | zero =>
        rw [List.getElem?_cons_zero, Option.some.injEq] at hm
        rw [← hm]
        exact ofNat_succ_toNat (by omega)
      | succ i =>
        rw [hids (by omega) i m hm]
        omega
    · intro hfit m hm
      rw [heq] at hp
      rcases List.mem_cons.mp hm with rfl | hm
      · exact ⟨(inTable_intern (lt_of_le_of_lt hp.length_le hfit)).of_extension hp, rfl⟩
      · exact hnames hfit m hm

structure ValueTypeIn (strings : StringTable) (vt : ValueType) : Prop where
  type : InTable strings vt.type
  unit : InTable strings vt.unit

theorem ValueTypeIn.of_extension {a b : StringTable} {vt : ValueType} (h : ValueTypeIn a vt)
    (hp : a.strings <+: b.strings) : ValueTypeIn b vt :=
  ⟨h.type.of_extension hp, h.unit.of_extension hp⟩

structure Started (names : LabelNames) (enc : PprofProfile) : Prop where
  built : enc.strings.Built
  names : names.In enc.strings
  valueTypes : ∀ vt ∈ enc.valueTypes, vt ≠ default ∧ ValueTypeIn enc.strings vt
  periodType : ValueTypeIn enc.strings enc.periodType
  bare : enc.samples = [] ∧ enc.mappings = [] ∧ enc.locations = [] ∧ enc.functions = []
  header : enc.dropFrames = 0 ∧ enc.keepFrames = 0 ∧ enc.comments = [] ∧
    enc.defaultSampleType = 0 ∧ enc.docUrl = 0

theorem startProfile_started (profile : SymbolicatedProfile) (periodNs : Int64) :
    Started (startProfile profile periodNs).2 (startProfile profile periodNs).1 := by
  have hstrings : StringTable.fromStrings exportStrings = .ok (.ofStrings exportStrings) := rfl
  have hin : ∀ i : UInt64, i.toNat < 8 → InTable (.ofStrings exportStrings) i := fun _ h => h
  have hwall : ValueTypeIn (.ofStrings exportStrings) ⟨3, 4⟩ :=
    ⟨hin 3 (by decide), hin 4 (by decide)⟩
  rw [startProfile_eq]
  refine ⟨.fromStrings hstrings, ⟨rfl, rfl, rfl, rfl⟩, ?_, hwall, ⟨rfl, rfl, rfl, rfl⟩,
    ⟨rfl, rfl, rfl, rfl, rfl⟩⟩
  change ∀ vt ∈ ([⟨1, 2⟩, ⟨3, 4⟩] : List ValueType), _
  rw [List.forall_mem_cons, List.forall_mem_singleton]
  exact ⟨⟨by decide, hin 1 (by decide), hin 2 (by decide)⟩, by decide, hwall⟩

theorem Renders.no_default {profile : SymbolicatedProfile} {names : LabelNames} {periodNs : Int64}
    {enc : PprofProfile} (hb : enc.strings.Built) (hn : names.In enc.strings) {s : Sample}
    {t : Pprof.Sample} (h : Renders profile names periodNs enc s t)
    (hs : knownStack profile.frames s.stack ≠ []) :
    t ≠ default ∧ ∀ label ∈ t.labels, label ≠ default := by
  constructor
  · rintro rfl
    have hl := h.locations
    rw [show (default : Pprof.Sample).locationIds = [] from rfl, List.map_nil, eq_comm,
      List.map_eq_nil_iff] at hl
    exact hs hl
  · obtain ⟨nameIdx, -, hlabels⟩ := h.labels
    have hthread := index_ne_zero hb hn.threadId (by decide)
    have hname := index_ne_zero hb hn.threadName (by decide)
    have htimestamp := index_ne_zero hb hn.timestamp (by decide)
    intro label hmem hd
    have hkey : label.key = 0 := congrArg Label.key hd
    rw [hlabels, List.mem_append, List.mem_append, List.mem_singleton] at hmem
    rcases hmem with (rfl | hmem) | hmem
    · exact hthread hkey
    · unfold nameLabels at hmem
      split_ifs at hmem
      · cases hmem
      · rw [List.mem_singleton.mp hmem] at hkey
        exact hname hkey
    · unfold timestampLabels at hmem
      split at hmem
      · rw [List.mem_singleton.mp hmem] at hkey
        exact htimestamp hkey
      · cases hmem

/-- The samples that `build_proto` writes: those with a known address. -/
def SymbolicatedProfile.kept (profile : SymbolicatedProfile) : List Sample :=
  profile.samples.filter fun s => knownStack profile.frames s.stack ≠ []

structure LabelIn (strings : StringTable) (label : Label) : Prop where
  key : InTable strings label.key
  str : InTable strings label.strIndex
  unit : InTable strings label.numUnit

theorem Renders.labels_in {profile : SymbolicatedProfile} {names : LabelNames} {periodNs : Int64}
    {enc : PprofProfile} (hb : enc.strings.Built) (hn : names.In enc.strings) {s : Sample}
    {t : Pprof.Sample} (h : Renders profile names periodNs enc s t) :
    ∀ label ∈ t.labels, LabelIn enc.strings label := by
  have hzero := inTable_zero hb
  obtain ⟨nameIdx, hname, hlabels⟩ := h.labels
  intro label hmem
  rw [hlabels, List.mem_append, List.mem_append, List.mem_singleton] at hmem
  rcases hmem with (rfl | hmem) | hmem
  · exact ⟨inTable_of_getElem? hn.threadId, hzero, hzero⟩
  · unfold nameLabels at hmem
    split_ifs at hmem with hempty
    · cases hmem
    · rw [List.mem_singleton.mp hmem]
      exact ⟨inTable_of_getElem? hn.threadName, inTable_of_getElem? (hname hempty), hzero⟩
  · unfold timestampLabels at hmem
    split at hmem
    · rw [List.mem_singleton.mp hmem]
      exact ⟨inTable_of_getElem? hn.timestamp, hzero, inTable_of_getElem? hn.nanoseconds⟩
    · cases hmem

/-- Every string index of a profile is one of its table. -/
structure IndexesIn (p : PprofProfile) : Prop where
  valueTypes : ∀ vt ∈ p.valueTypes, ValueTypeIn p.strings vt
  periodType : ValueTypeIn p.strings p.periodType
  mappings : ∀ m ∈ p.mappings, InTable p.strings m.filename ∧ InTable p.strings m.buildId
  functions : ∀ f ∈ p.functions, FunctionIn p.strings f
  labels : ∀ s ∈ p.samples, ∀ label ∈ s.labels, LabelIn p.strings label
  header : p.dropFrames = 0 ∧ p.keepFrames = 0 ∧ p.comments = [] ∧ p.defaultSampleType = 0 ∧
    p.docUrl = 0

structure Contents (profile : SymbolicatedProfile) (names : LabelNames) (p : PprofProfile) :
    Prop where
  built : p.strings.Built
  labelNames : names.In p.strings
  mappings : Numbered Mapping.id p.mappings
  mappingCount : p.mappings.length = profile.images.length
  functions : Numbered Function.id p.functions
  locations : Numbered Location.id p.locations
  shown : ∀ l ∈ p.locations, LocationShows (sortedImages profile) profile.frames p l
  address_inj : ∀ l ∈ p.locations, ∀ l' ∈ p.locations, l.address = l'.address → l = l'
  indexes : IndexesIn p
  noDefault : p.NoDefaultElement
  samples : List.Forall₂ (Renders profile names (periodNanos profile.freqHz) p) profile.kept
    p.samples

theorem builtProfile_contents (fileLen : String → Option UInt64) (profile : SymbolicatedProfile)
    (hfit : VecsFit (builtProfile fileLen profile)) :
    ∃ names, Contents profile names (builtProfile fileLen profile) := by
  refine ⟨(startProfile profile (periodNanos profile.freqHz)).2, ?_⟩
  have hstart := startProfile_started profile (periodNanos profile.freqHz)
  obtain ⟨hextends, hmapped, strings, mappings, hpush, hlen, hids, hfiles⟩ := pushMappings_spec
    fileLen (sortedImages profile) 0 (startProfile profile (periodNanos profile.freqHz)).1
  have hresult : builtProfile fileLen profile =
      (profile.samples.foldl (addSample (sortedImages profile) profile
        (startProfile profile (periodNanos profile.freqHz)).2 (periodNanos profile.freqHz))
        ⟨pushMappings fileLen (sortedImages profile) 0
          (startProfile profile (periodNanos profile.freqHz)).1, ∅, ∅⟩).enc := rfl
  generalize (startProfile profile (periodNanos profile.freqHz)).2 = names at *
  generalize (startProfile profile (periodNanos profile.freqHz)).1 = enc at *
  generalize pushMappings fileLen (sortedImages profile) 0 enc = pushed at *
  obtain ⟨hsamples₀, hmappings₀, hlocations₀, hfunctions₀⟩ := hstart.bare
  have hinv : Builder.Inv (sortedImages profile) profile.frames names ⟨pushed, ∅, ∅⟩ := by
    refine ⟨hmapped hstart.built, hstart.names.of_extension hextends, ?_, ?_, ?_, ?_, by simp,
      by simp, ?_⟩
    all_goals rw [hpush]
    · exact hfunctions₀ ▸ numbered_nil _
    · simp [hfunctions₀]
    · exact hlocations₀ ▸ numbered_nil _
    · simp [hlocations₀]
    · simp [hlocations₀]
  have hgrows := addSamples_grows (sortedImages profile) profile names (periodNanos profile.freqHz)
    ⟨pushed, ∅, ∅⟩ profile.samples
  obtain ⟨hinv', hsamples⟩ := addSamples_inv profile.samples hinv (hresult ▸ hfit.toTablesFit) []
    (by rw [hpush]; exact hsamples₀ ▸ .nil)
  rw [List.nil_append] at hsamples
  rw [← hresult] at hsamples
  have hbuilt := hresult ▸ hinv'.built
  have hnames := hresult ▸ hinv'.names
  have hgrown : pushed.strings.strings <+: (builtProfile fileLen profile).strings.strings :=
    hresult ▸ hgrows.strings
  have hheader := hresult ▸ hgrows.header
  have hmappings : (builtProfile fileLen profile).mappings = mappings := by
    rw [hheader, hpush]
    exact hmappings₀ ▸ List.nil_append _
  have htypes : (builtProfile fileLen profile).valueTypes = enc.valueTypes := by
    rw [hheader, hpush]
  have hperiodType : (builtProfile fileLen profile).periodType = enc.periodType := by
    rw [hheader, hpush]
  have hall := hextends.trans hgrown
  have hcount := hfit.mappings
  rw [hmappings, hlen] at hcount
  have hnumbered : Numbered Mapping.id (builtProfile fileLen profile).mappings := by
    rw [hmappings]
    intro i m hm
    rw [hids (by omega) i m hm, Nat.zero_add]
  refine ⟨hbuilt, hnames, hnumbered, ?_, hresult ▸ hinv'.functions, hresult ▸ hinv'.locations,
    hresult ▸ hinv'.shown, ?_, ⟨?_, ?_, ?_, ?_, ?_, ?_⟩, ⟨?_, ?_, ?_, ?_, ?_, ?_⟩, hsamples⟩
  · rw [hmappings, hlen, sortedImages, List.length_mergeSort]
  · rw [hresult]
    intro l hl l' hl' haddr
    have hid := hinv'.indexed l hl
    rw [haddr, hinv'.indexed l' hl', Option.some.injEq] at hid
    exact hinv'.locations.inj hl hl' hid.symm
  · rw [htypes]
    exact fun vt hvt => (hstart.valueTypes vt hvt).2.of_extension hall
  · rw [hperiodType]
    exact hstart.periodType.of_extension hall
  · rw [hmappings]
    intro m hm
    rw [hpush] at hgrown
    obtain ⟨hfile, hbuild⟩ := hfiles (lt_of_le_of_lt hgrown.length_le hfit.strings) m hm
    rw [hbuild]
    exact ⟨hfile.of_extension hgrown, inTable_zero hbuilt⟩
  · exact hresult ▸ hinv'.functionNames
  · intro t ht
    obtain ⟨s, -, hr⟩ := forall₂_exists_left hsamples ht
    exact hr.labels_in hbuilt hnames
  · rw [hheader, hpush]
    exact hstart.header
  · rw [htypes]
    exact fun vt hvt => (hstart.valueTypes vt hvt).1
  · intro t ht
    obtain ⟨s, hs, hr⟩ := forall₂_exists_left hsamples ht
    exact hr.no_default hbuilt hnames (by simpa using (List.mem_filter.mp hs).2)
  · exact fun m hm h => hnumbered.ne_zero hm (congrArg Mapping.id h)
  · rw [hresult]
    intro l hl
    refine ⟨fun h => hinv'.locations.ne_zero hl (congrArg Location.id h), fun line hline h => ?_⟩
    obtain ⟨frame, f, -, hf, -, hlines⟩ := (hinv'.shown l hl).line
    rw [hlines, List.mem_singleton] at hline
    rw [hline] at h
    exact hinv'.functions.ne_zero hf (congrArg Line.functionId h)
  · rw [hresult]
    exact fun f hf h => hinv'.functions.ne_zero hf (congrArg Function.id h)
  · rw [hheader, hpush, hstart.header.2.2.1]
    simp

end PProfessor.Capture
