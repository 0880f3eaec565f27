import PProfessor.HeapImages

set_option autoImplicit false

/-!
# What a heap export contains

The tables of an export are numbered, and each stack has one sample whose
locations resolve, leaf first, to its frames.
-/
namespace PProfessor.Heap
open Capture (InTable FunctionIn inTable_intern inTable_zero inTable_of_getElem? index_ne_zero
  VecsFit)
open NumberedTable Pprof

def MappingIs (p : PprofProfile) (frames : List HeapFrame) (mappingId : UInt64) :
    Option HeapMapping → Prop
  | none => mappingId = 0
  | some image => ∃ m, lookup Mapping.id p.mappings mappingId = some m ∧
      MappingShows p.strings frames image m

/-- The function's name, or the address in sixteen hexadecimal digits where there is none. -/
def NameShown (frame : HeapFrame) (name : String) : Prop :=
  if frame.function = "" then
    ∃ digits : List ℕ, digits.length = 16 ∧ (∀ d ∈ digits, d < 16) ∧
      Nat.ofDigits 16 digits.reverse = frame.address.toNat ∧
      name = "0x" ++ String.ofList (digits.map Nat.digitChar)
  else name = frame.function

def FrameShown (p : PprofProfile) (frames : List HeapFrame) (frame : HeapFrame) (id : UInt64) :
    Prop :=
  ∃ l f name, lookup Location.id p.locations id = some l ∧ l.address = frame.address ∧
    l.lines = [⟨f.id, frame.line, 0⟩] ∧ lookup Function.id p.functions f.id = some f ∧
    p.strings.strings[f.name.toNat]? = some name ∧ NameShown frame name ∧
    f.systemName = f.name ∧
    p.strings.strings[f.filename.toNat]? = some frame.file ∧
    MappingIs p frames l.mappingId frame.mapping

theorem toDigits_spec {b : ℕ} (hb : 1 < b) (n : ℕ) : ∃ digits : List ℕ,
    Nat.toDigits b n = digits.map Nat.digitChar ∧ (∀ d ∈ digits, d < b) ∧
      Nat.ofDigits b digits.reverse = n := by
  induction n using Nat.strong_induction_on with
  | _ n ih =>
    rw [Nat.toDigits_eq_if hb]
    split_ifs with hsmall
    · exact ⟨[n], rfl, by simpa using hsmall, by simp⟩
    · obtain ⟨digits, hdigits, hlt, hn⟩ := ih (n / b) (Nat.div_lt_self (by omega) hb)
      refine ⟨digits ++ [n % b], ?_, ?_, ?_⟩
      · rw [hdigits, List.map_append]
        rfl
      · rw [List.forall_mem_append, List.forall_mem_singleton]
        exact ⟨hlt, Nat.mod_lt n (by omega)⟩
      · rw [List.reverse_append, List.reverse_singleton, List.singleton_append, Nat.ofDigits_cons,
          hn]
        exact Nat.mod_add_div n b

theorem frameName_shown (frame : HeapFrame) : NameShown frame (frameName frame) := by
  unfold NameShown frameName
  split_ifs with hempty
  · obtain ⟨digits, hdigits, hlt, hn⟩ := toDigits_spec (b := 16) (by decide) frame.address.toNat
    have hlength : digits.length ≤ 16 := by
      have hle := (Nat.length_toDigits_le_iff (b := 16) (k := 16) (by decide) (by decide)).mpr
        (lt_of_lt_of_eq frame.address.toNat_lt (by norm_num))
      rwa [hdigits, List.length_map] at hle
    refine ⟨List.replicate (16 - digits.length) 0 ++ digits, ?_, ?_, ?_, ?_⟩
    · rw [List.length_append, List.length_replicate]
      omega
    · rw [List.forall_mem_append]
      exact ⟨fun d hd => by rw [List.eq_of_mem_replicate hd]; decide, hlt⟩
    · rw [List.reverse_append, List.reverse_replicate, Nat.ofDigits_append_replicate_zero, hn]
    · rw [hdigits, List.leftpad, List.length_map, List.map_append, List.map_replicate]
      rfl
  · rfl

theorem MappingIs.of_grown {p q : PprofProfile} {frames : List HeapFrame} {mappingId : UInt64}
    {image : Option HeapMapping} (h : MappingIs p frames mappingId image) (hg : Grown p q) :
    MappingIs q frames mappingId image := by
  cases image with
  | none => exact h
  | some image =>
    obtain ⟨m, hm, hshows⟩ := h
    exact ⟨m, lookup_of_extension Mapping.id hg.mappings hm, hshows.of_extension hg.strings⟩

theorem FrameShown.of_grown {p q : PprofProfile} {frames : List HeapFrame} {frame : HeapFrame}
    {id : UInt64} (h : FrameShown p frames frame id) (hg : Grown p q) :
    FrameShown q frames frame id := by
  obtain ⟨l, f, name, hl, haddress, hlines, hf, hname, hshown, hsystem, hfile, hmapping⟩ := h
  exact ⟨l, f, name, lookup_of_extension Location.id hg.locations hl, haddress, hlines,
    lookup_of_extension Function.id hg.functions hf, getElem?_of_extension hg.strings hname,
    hshown, hsystem, getElem?_of_extension hg.strings hfile, hmapping.of_grown hg⟩

/-- The ids a location refers to are in the tables. -/
structure LocationIn (p : PprofProfile) (l : Location) : Prop where
  line : ∃ f ∈ p.functions, ∃ line, l.lines = [⟨f.id, line, 0⟩]
  mapping : l.mappingId = 0 ∨ l.mappingId ∈ p.mappings.map Mapping.id

theorem LocationIn.of_grown {p q : PprofProfile} {l : Location} (h : LocationIn p l)
    (hg : Grown p q) : LocationIn q l := by
  obtain ⟨⟨f, hf, line, hline⟩, hmapping⟩ := h
  exact ⟨⟨f, hg.functions.subset hf, line, hline⟩,
    hmapping.imp_right fun hm => (hg.mappings.map _).subset hm⟩

structure FrameTable.Inv (frames : List HeapFrame) (t : FrameTable) : Prop where
  built : t.p.strings.Built
  numbered : Numbered Mapping.id t.p.mappings
  mappingNames : ∀ m ∈ t.p.mappings, MappingIn t.p.strings m
  functions : Numbered Function.id t.p.functions
  functionNames : ∀ f ∈ t.p.functions, FunctionIn t.p.strings f
  locations : Numbered Location.id t.p.locations
  paired : t.p.locations.length = t.p.functions.length
  located : ∀ l ∈ t.p.locations, LocationIn t.p l
  known : ∀ (frame : HeapFrame) (id : UInt64), t.frames[frame]? = some id →
    FrameShown t.p frames frame id

def ImageKnown (mappings : Std.ExtTreeMap HeapMapping UInt64) (p : PprofProfile)
    (frames : List HeapFrame) (frame : HeapFrame) : Prop :=
  MappingIs p frames (mappingIdOf mappings frame) frame.mapping

theorem frameId_grown (mappings : Std.ExtTreeMap HeapMapping UInt64) (frame : HeapFrame)
    (t : FrameTable) : Grown t.p (frameId mappings frame t).2.p := by
  unfold frameId
  cases t.frames[frame]? with
  | some id => exact .refl _
  | none =>
    exact ⟨(StringTable.intern_extends _ _).trans (StringTable.intern_extends _ _),
      List.prefix_refl _, List.prefix_append _ _, List.prefix_append _ _, rfl⟩

theorem MappingIs.mem {p : PprofProfile} {frames : List HeapFrame} {mappingId : UInt64}
    {image : Option HeapMapping} (h : MappingIs p frames mappingId image) :
    mappingId = 0 ∨ mappingId ∈ p.mappings.map Mapping.id := by
  cases image with
  | none => exact .inl h
  | some image =>
    obtain ⟨m, hm, -⟩ := h
    obtain ⟨hmem, hid⟩ := lookup_eq_some Mapping.id hm
    exact .inr (List.mem_map.mpr ⟨m, hmem, hid⟩)

theorem frameId_inv {frames : List HeapFrame} {mappings : Std.ExtTreeMap HeapMapping UInt64}
    {frame : HeapFrame} {t : FrameTable} (h : t.Inv frames)
    (himage : ImageKnown mappings t.p frames frame)
    (hfit : ExportFits (frameId mappings frame t).2.p) :
    (frameId mappings frame t).2.Inv frames ∧
      FrameShown (frameId mappings frame t).2.p frames frame (frameId mappings frame t).1 := by
  have hgrown := frameId_grown mappings frame t
  unfold frameId at hfit hgrown ⊢
  cases hframe : t.frames[frame]? with
  | some id => exact ⟨h, h.known frame id hframe⟩
  | none =>
    rw [hframe] at hfit hgrown
    have hlen : t.p.functions.length + 1 < 2 ^ 63 := by simpa using hfit.functions
    have hextends := StringTable.intern_extends (t.p.strings.intern (frameName frame)).2 frame.file
    have hfitName := lt_of_le_of_lt hextends.length_le hfit.strings
    have hname := getElem?_of_extension hextends (StringTable.intern_getElem? t.p.strings
      (frameName frame) (lt_trans hfitName (by norm_num)))
    have hfile := StringTable.intern_getElem? (t.p.strings.intern (frameName frame)).2 frame.file
      (lt_trans hfit.strings (by norm_num))
    have hid := ofNat_succ_toNat (n := t.p.functions.length) (by omega)
    have hfunctions := h.functions.concat (x := (⟨UInt64.ofNat (t.p.functions.length + 1),
      (t.p.strings.intern (frameName frame)).1, (t.p.strings.intern (frameName frame)).1,
      ((t.p.strings.intern (frameName frame)).2.intern frame.file).1, 0⟩ : Pprof.Function)) hid
    have hlocations := h.locations.concat (x := (⟨UInt64.ofNat (t.p.functions.length + 1),
      mappingIdOf mappings frame, frame.address,
      [⟨UInt64.ofNat (t.p.functions.length + 1), frame.line, 0⟩], false⟩ : Location))
      (by rw [h.paired]; exact hid)
    have hlast : ∀ {α : Type} (xs : List α) (x : α), x ∈ xs ++ [x] := fun xs x =>
      List.mem_append_right xs List.mem_cons_self
    have hshown : FrameShown (frameId mappings frame t).2.p frames frame
        (UInt64.ofNat (t.p.functions.length + 1)) := by
      unfold frameId
      rw [hframe]
      exact ⟨_, _, _, hlocations.lookup_eq (hlast _ _), rfl, rfl,
        hfunctions.lookup_eq (hlast _ _), hname, frameName_shown frame, rfl, hfile,
        himage.of_grown hgrown⟩
    unfold frameId at hshown
    rw [hframe] at hshown
    refine ⟨⟨(h.built.intern _).intern _, h.numbered, ?_, hfunctions, ?_, hlocations, ?_, ?_, ?_⟩,
      hshown⟩
    · exact fun m hm => (h.mappingNames m hm).of_extension hgrown.strings
    · intro f hf
      rcases List.mem_append.mp hf with hold | hnew
      · exact (h.functionNames f hold).of_extension hgrown.strings
      · rw [List.mem_singleton.mp hnew]
        exact ⟨inTable_of_getElem? hname, inTable_of_getElem? hname, inTable_of_getElem? hfile⟩
    · simp [h.paired]
    · intro l hl
      rcases List.mem_append.mp hl with hold | hnew
      · exact (h.located l hold).of_grown hgrown
      · rw [List.mem_singleton.mp hnew]
        exact ⟨⟨_, hlast _ _, frame.line, rfl⟩, himage.mem⟩
    · intro other id hother
      have hinsert : (t.frames.insert frame (UInt64.ofNat (t.p.functions.length + 1)))[other]? =
          some id := hother
      rw [getElem?_insert_eq] at hinsert
      split_ifs at hinsert with he
      · subst he
        rw [← Option.some.inj hinsert]
        exact hshown
      · exact (h.known other id hinsert).of_grown hgrown

theorem frameId_samples (mappings : Std.ExtTreeMap HeapMapping UInt64) (frame : HeapFrame)
    (t : FrameTable) : (frameId mappings frame t).2.p.samples = t.p.samples := by
  unfold frameId
  cases t.frames[frame]? <;> rfl

theorem frameIds_samples (mappings : Std.ExtTreeMap HeapMapping UInt64) (stack : Stack)
    (t : FrameTable) : (frameIds mappings stack t).2.p.samples = t.p.samples := by
  induction stack generalizing t with
  | nil => rfl
  | cons frame rest ih => exact (ih _).trans (frameId_samples mappings frame t)

theorem frameIds_grown (mappings : Std.ExtTreeMap HeapMapping UInt64) (stack : Stack)
    (t : FrameTable) : Grown t.p (frameIds mappings stack t).2.p := by
  induction stack generalizing t with
  | nil => exact .refl _
  | cons frame rest ih => exact (frameId_grown mappings frame t).trans (ih _)

theorem frameIds_inv {frames : List HeapFrame} {mappings : Std.ExtTreeMap HeapMapping UInt64}
    {stack : Stack} {t : FrameTable} (h : t.Inv frames)
    (himages : ∀ frame ∈ stack, ImageKnown mappings t.p frames frame)
    (hfit : ExportFits (frameIds mappings stack t).2.p) :
    (frameIds mappings stack t).2.Inv frames ∧
      List.Forall₂ (FrameShown (frameIds mappings stack t).2.p frames) stack
        (frameIds mappings stack t).1 := by
  induction stack generalizing t with
  | nil => exact ⟨h, .nil⟩
  | cons frame rest ih =>
    rw [List.forall_mem_cons] at himages
    have hrest := frameIds_grown mappings rest (frameId mappings frame t).2
    obtain ⟨hinv, hshown⟩ := frameId_inv h himages.1 (hrest.fits hfit)
    obtain ⟨hinv', hshown'⟩ := ih hinv
      (fun f hf => (himages.2 f hf).of_grown (frameId_grown mappings frame t)) hfit
    exact ⟨hinv', .cons (hshown.of_grown hrest) hshown'⟩

structure SampleShows (p : PprofProfile) (frames : List HeapFrame) (label : Label)
    (entry : Stack × HeapValues) (s : Sample) : Prop where
  locations : List.Forall₂ (FrameShown p frames) entry.1 s.locationIds
  values : s.values = entry.2.values.map UInt64.toInt64
  labels : s.labels = [label]

theorem SampleShows.of_grown {p q : PprofProfile} {frames : List HeapFrame} {label : Label}
    {entry : Stack × HeapValues} {s : Sample} (h : SampleShows p frames label entry s)
    (hg : Grown p q) : SampleShows q frames label entry s :=
  ⟨h.locations.imp fun _ _ hshown => hshown.of_grown hg, h.values, h.labels⟩

/-- The stacks of `done` are in the profile. -/
structure Stacks (frames : List HeapFrame) (mappings : Std.ExtTreeMap HeapMapping UInt64)
    (label : Label) (done : List (Stack × HeapValues)) (t : FrameTable) : Prop
    extends t.Inv frames where
  images : ∀ frame ∈ frames, ImageKnown mappings t.p frames frame
  samples : List.Forall₂ (SampleShows t.p frames label) done t.p.samples

theorem pushStack_grown (mappings : Std.ExtTreeMap HeapMapping UInt64) (label : Label)
    (t : FrameTable) (entry : Stack × HeapValues) :
    Grown t.p (pushStack mappings label t entry).p := by
  refine (frameIds_grown mappings entry.1 t).trans ?_
  exact ⟨List.prefix_refl _, List.prefix_refl _, List.prefix_refl _, List.prefix_refl _, rfl⟩

theorem Stacks.push {frames : List HeapFrame} {mappings : Std.ExtTreeMap HeapMapping UInt64}
    {label : Label} {done : List (Stack × HeapValues)} {t : FrameTable}
    (h : Stacks frames mappings label done t) {entry : Stack × HeapValues}
    (hentry : ∀ frame ∈ entry.1, frame ∈ frames)
    (hfit : ExportFits (pushStack mappings label t entry).p) :
    Stacks frames mappings label (done ++ [entry]) (pushStack mappings label t entry) := by
  have hgrown := pushStack_grown mappings label t entry
  have hids : Grown (frameIds mappings entry.1 t).2.p (pushStack mappings label t entry).p :=
    ⟨List.prefix_refl _, List.prefix_refl _, List.prefix_refl _, List.prefix_refl _, rfl⟩
  obtain ⟨hinv, hshown⟩ := frameIds_inv h.toInv (fun f hf => h.images f (hentry f hf))
    (hids.fits hfit)
  have hsamples : (pushStack mappings label t entry).p.samples = t.p.samples ++
      [⟨(frameIds mappings entry.1 t).1, entry.2.values.map UInt64.toInt64, [label]⟩] := by
    rw [← frameIds_samples mappings entry.1 t]
    rfl
  refine ⟨⟨hinv.built, hinv.numbered, hinv.mappingNames, hinv.functions, hinv.functionNames,
    hinv.locations, hinv.paired, ?_, ?_⟩, ?_, ?_⟩
  · exact fun l hl => (hinv.located l hl).of_grown hids
  · exact fun frame id hid => (hinv.known frame id hid).of_grown hids
  · exact fun frame hframe => (h.images frame hframe).of_grown hgrown
  · rw [hsamples]
    refine List.rel_append (h.samples.imp fun _ _ hs => hs.of_grown hgrown) (.cons ?_ .nil)
    exact ⟨hshown.imp fun _ _ hs => hs.of_grown hids, rfl, rfl⟩

theorem Stacks.pushAll {frames : List HeapFrame} {mappings : Std.ExtTreeMap HeapMapping UInt64}
    {label : Label} {done : List (Stack × HeapValues)} {t : FrameTable}
    (h : Stacks frames mappings label done t) {entries : List (Stack × HeapValues)}
    (hentries : ∀ entry ∈ entries, ∀ frame ∈ entry.1, frame ∈ frames)
    (hfit : ExportFits (entries.foldl (pushStack mappings label) t).p) :
    Stacks frames mappings label (done ++ entries)
      (entries.foldl (pushStack mappings label) t) := by
  induction entries generalizing done t with
  | nil => simpa using h
  | cons entry entries ih =>
    rw [List.forall_mem_cons] at hentries
    have hgrown := foldl_grown FrameTable.p (pushStack_grown mappings label) entries
      (pushStack mappings label t entry)
    have hnext := ih (h.push hentries.1 (hgrown.fits hfit)) hentries.2 hfit
    rwa [List.append_assoc, List.singleton_append] at hnext

def heapStrings : List String :=
  ["", "alloc_objects", "count", "alloc_space", "bytes", "inuse_objects", "inuse_space", "heap"]

def heapValueTypes : List ValueType := [⟨1, 2⟩, ⟨3, 4⟩, ⟨5, 2⟩, ⟨6, 4⟩]

def domainStrings (h : HeapProfile) : UInt64 × StringTable :=
  (StringTable.ofStrings heapStrings).intern h.domain

def startComments (h : HeapProfile) : List UInt64 × StringTable :=
  if h.comment = "" then ([], (domainStrings h).2)
  else ([((domainStrings h).2.intern h.comment).1], ((domainStrings h).2.intern h.comment).2)

theorem startExport_eq (h : HeapProfile) (timeNanos : Int64) :
    startExport h timeNanos =
      ({ PprofProfile.withStrings (startComments h).2 with
          valueTypes := heapValueTypes
          defaultSampleType := 6
          timeNanos := timeNanos
          comments := (startComments h).1 },
        ⟨7, (domainStrings h).1, 0, 0⟩) := by
  have h₀ : StringTable.new = .ofStrings (heapStrings.take 1) := by
    have hnew := StringTable.Built.new.eq_ofStrings
    rwa [new_strings] at hnew
  have h₁ : (StringTable.ofStrings (heapStrings.take 1)).intern "alloc_objects" =
      (1, .ofStrings (heapStrings.take 2)) := StringTable.intern_ofStrings _ _
  have h₂ : (StringTable.ofStrings (heapStrings.take 2)).intern "count" =
      (2, .ofStrings (heapStrings.take 3)) := StringTable.intern_ofStrings _ _
  have h₃ : (StringTable.ofStrings (heapStrings.take 3)).intern "alloc_space" =
      (3, .ofStrings (heapStrings.take 4)) := StringTable.intern_ofStrings _ _
  have h₄ : (StringTable.ofStrings (heapStrings.take 4)).intern "bytes" =
      (4, .ofStrings (heapStrings.take 5)) := StringTable.intern_ofStrings _ _
  have h₅ : (StringTable.ofStrings (heapStrings.take 5)).intern "inuse_objects" =
      (5, .ofStrings (heapStrings.take 6)) := StringTable.intern_ofStrings _ _
  have h₆ : (StringTable.ofStrings (heapStrings.take 6)).intern "count" =
      (2, .ofStrings (heapStrings.take 6)) := StringTable.intern_ofStrings _ _
  have h₇ : (StringTable.ofStrings (heapStrings.take 6)).intern "inuse_space" =
      (6, .ofStrings (heapStrings.take 7)) := StringTable.intern_ofStrings _ _
  have h₈ : (StringTable.ofStrings (heapStrings.take 7)).intern "bytes" =
      (4, .ofStrings (heapStrings.take 7)) := StringTable.intern_ofStrings _ _
  have h₉ : (StringTable.ofStrings (heapStrings.take 7)).intern "inuse_space" =
      (6, .ofStrings (heapStrings.take 7)) := StringTable.intern_ofStrings _ _
  have h₁₀ : (StringTable.ofStrings (heapStrings.take 7)).intern "heap" =
      (7, .ofStrings heapStrings) := StringTable.intern_ofStrings _ _
  have hpush : pushValueTypes heapMetrics PprofProfile.new =
      { PprofProfile.withStrings (.ofStrings (heapStrings.take 7)) with
        valueTypes := heapValueTypes } := by
    simp only [pushValueTypes, heapMetrics, List.foldl_cons, List.foldl_nil, PprofProfile.new,
      PprofProfile.withStrings, h₀, h₁, h₂, h₃, h₄, h₅, h₆, h₇, h₈]
    rfl
  unfold startExport startComments domainStrings
  rw [hpush]
  simp only [PprofProfile.withStrings, h₉, h₁₀]
  split_ifs <;> rfl

structure HeapStarted (h : HeapProfile) (p : PprofProfile) (label : Label) : Prop where
  built : p.strings.Built
  names : heapStrings <+: p.strings.strings
  valueTypes : p.valueTypes = heapValueTypes
  header : p.defaultSampleType = 6 ∧ p.docUrl = 0 ∧ p.dropFrames = 0 ∧ p.keepFrames = 0 ∧
    p.periodType = ⟨0, 0⟩
  bare : p.samples = [] ∧ p.mappings = [] ∧ p.functions = [] ∧ p.locations = []
  comments : ∀ c ∈ p.comments, ∃ s, p.strings.strings[c.toNat]? = some s ∧ s ≠ ""
  labelKey : label.key = 7 ∧ label.num = 0 ∧ label.numUnit = 0
  labelDomain : p.strings.strings[label.strIndex.toNat]? = some h.domain

theorem startComments_extends (h : HeapProfile) :
    (domainStrings h).2.strings <+: (startComments h).2.strings := by
  unfold startComments
  split_ifs
  · exact List.prefix_refl _
  · exact StringTable.intern_extends _ _

theorem startExport_started (h : HeapProfile) (timeNanos : Int64)
    (hfit : (startExport h timeNanos).1.strings.strings.length < 2 ^ 63) :
    HeapStarted h (startExport h timeNanos).1 (startExport h timeNanos).2 := by
  have hstrings : StringTable.fromStrings heapStrings = .ok (.ofStrings heapStrings) := rfl
  have hdomainBuilt : (domainStrings h).2.Built := .intern _ (.fromStrings hstrings)
  have hextends := startComments_extends h
  rw [startExport_eq] at hfit ⊢
  have hlen : (startComments h).2.strings.length < 2 ^ 64 := lt_trans hfit (by norm_num)
  have hdomain := StringTable.intern_getElem? (.ofStrings heapStrings) h.domain
    (lt_of_le_of_lt hextends.length_le hlen)
  refine ⟨?_, (StringTable.intern_extends _ _).trans hextends, rfl, ⟨rfl, rfl, rfl, rfl, rfl⟩,
    ⟨rfl, rfl, rfl, rfl⟩, ?_, ⟨rfl, rfl, rfl⟩, getElem?_of_extension hextends hdomain⟩
  · change (startComments h).2.Built
    unfold startComments
    split_ifs
    · exact hdomainBuilt
    · exact hdomainBuilt.intern _
  · change ∀ c ∈ (startComments h).1, _
    unfold startComments at hlen ⊢
    split_ifs at hlen ⊢ with hcomment
    · simp
    · rw [List.forall_mem_singleton]
      exact ⟨h.comment, StringTable.intern_getElem? _ _ hlen, hcomment⟩

/-- What an export holds, given the profile it started from. -/
structure HeapContents (frames : List HeapFrame) (label : Label)
    (entries : List (Stack × HeapValues)) (start p : PprofProfile) : Prop where
  grown : Grown start p
  built : p.strings.Built
  mappings : Numbered Mapping.id p.mappings
  mappingNames : ∀ m ∈ p.mappings, MappingIn p.strings m
  functions : Numbered Function.id p.functions
  functionNames : ∀ f ∈ p.functions, FunctionIn p.strings f
  locations : Numbered Location.id p.locations
  located : ∀ l ∈ p.locations, LocationIn p l
  samples : entries ≠ [] → List.Forall₂ (SampleShows p frames label) entries p.samples
  empty : entries = [] → p.samples = [⟨[], [0, 0, 0, 0], [label]⟩]

theorem HeapStarted.imageKnown {h : HeapProfile} {p : PprofProfile} {label : Label}
    (hs : HeapStarted h p label) {samples : Std.ExtTreeMap Stack HeapValues}
    (hfit : ExportFits (pushImages samples p).p) {frame : HeapFrame}
    (hframe : frame ∈ framesOf samples) :
    ImageKnown (pushImages samples p).mappings (pushImages samples p).p (framesOf samples)
      frame := by
  have hinv := pushImages_inv samples hs.built hs.bare.2.1 hfit
  unfold ImageKnown mappingIdOf
  cases hmapping : frame.mapping with
  | none => rfl
  | some image =>
    have hmem := pushImages_complete samples p hframe hmapping
    obtain ⟨id, hid⟩ := Option.isSome_iff_exists.mp
      (Std.ExtTreeMap.mem_iff_isSome_getElem?.mp hmem)
    obtain ⟨m, hm, hmid, hshows⟩ := hinv.known image id hid
    rw [Option.bind_some, hid, Option.getD_some, ← hmid]
    exact ⟨m, hinv.numbered.lookup_eq hm, hshows⟩

theorem pushStacks_grown (samples : Std.ExtTreeMap Stack HeapValues) (label : Label)
    (p : PprofProfile) : Grown (pushImages samples p).p (pushStacks samples label p).p :=
  foldl_grown FrameTable.p (pushStack_grown (pushImages samples p).mappings label) samples.toList
    ⟨∅, (pushImages samples p).p⟩

theorem HeapStarted.stackTable {h : HeapProfile} {p : PprofProfile} {label : Label}
    (hs : HeapStarted h p label) (samples : Std.ExtTreeMap Stack HeapValues)
    (hfit : ExportFits (pushStacks samples label p).p) :
    Stacks (framesOf samples) (pushImages samples p).mappings label samples.toList
      (pushStacks samples label p) := by
  have hfit₀ := (pushStacks_grown samples label p).fits hfit
  have hinv := pushImages_inv samples hs.built hs.bare.2.1 hfit₀
  obtain ⟨hsamples, hfunctions, hlocations⟩ := pushImages_rest samples p
  have hstart : Stacks (framesOf samples) (pushImages samples p).mappings label []
      ⟨∅, (pushImages samples p).p⟩ := by
    refine ⟨⟨hinv.built, hinv.numbered, hinv.named, ?_, ?_, ?_, ?_, ?_, by simp⟩,
      fun frame hframe => hs.imageKnown hfit₀ hframe, ?_⟩
    · rw [hfunctions, hs.bare.2.2.1]
      exact numbered_nil _
    · simp [hfunctions, hs.bare.2.2.1]
    · rw [hlocations, hs.bare.2.2.2]
      exact numbered_nil _
    · rw [hlocations, hfunctions, hs.bare.2.2.1, hs.bare.2.2.2]
      rfl
    · simp [hlocations, hs.bare.2.2.2]
    · rw [hsamples, hs.bare.1]
      exact .nil
  refine hstart.pushAll ?_ hfit
  intro entry hentry frame hframe
  exact List.mem_flatten.mpr ⟨entry.1, List.mem_map_of_mem hentry, hframe⟩

theorem pushSamples_last (samples : Std.ExtTreeMap Stack HeapValues) (label : Label)
    (p : PprofProfile) : Grown (pushStacks samples label p).p (pushSamples samples label p) := by
  unfold pushSamples
  dsimp only
  split_ifs
  · exact ⟨List.prefix_refl _, List.prefix_refl _, List.prefix_refl _, List.prefix_refl _, rfl⟩
  · exact .refl _

theorem pushSamples_grown (samples : Std.ExtTreeMap Stack HeapValues) (label : Label)
    (p : PprofProfile) : Grown p (pushSamples samples label p) :=
  ((pushImages_grown samples p).trans (pushStacks_grown samples label p)).trans
    (pushSamples_last samples label p)

theorem pushSamples_contents {h : HeapProfile} {p : PprofProfile} {label : Label}
    (hs : HeapStarted h p label) (samples : Std.ExtTreeMap Stack HeapValues)
    (hfit : ExportFits (pushSamples samples label p)) :
    HeapContents (framesOf samples) label samples.toList p (pushSamples samples label p) := by
  have hlast := pushSamples_last samples label p
  have hgrown := pushSamples_grown samples label p
  have hstacks := hs.stackTable samples (hlast.fits hfit)
  have hcount := hstacks.samples.length_eq
  by_cases hempty : samples.toList = []
  · have hnone : (pushStacks samples label p).p.samples = [] := by
      rw [hempty] at hcount
      exact List.eq_nil_of_length_eq_zero hcount.symm
    have hresult : pushSamples samples label p = { (pushStacks samples label p).p with
        samples := [⟨[], [0, 0, 0, 0], [label]⟩] } := by
      unfold pushSamples
      exact if_pos hnone
    rw [hresult] at hgrown hlast ⊢
    exact ⟨hgrown, hstacks.built, hstacks.numbered, hstacks.mappingNames, hstacks.functions,
      hstacks.functionNames, hstacks.locations, fun l hl => (hstacks.located l hl).of_grown hlast,
      fun hne => absurd hempty hne, fun _ => rfl⟩
  · have hsome : (pushStacks samples label p).p.samples ≠ [] := by
      intro hnone
      rw [hnone] at hcount
      exact hempty (List.eq_nil_of_length_eq_zero hcount)
    have hresult : pushSamples samples label p = (pushStacks samples label p).p := by
      unfold pushSamples
      exact if_neg hsome
    rw [hresult] at hgrown ⊢
    exact ⟨hgrown, hstacks.built, hstacks.numbered, hstacks.mappingNames, hstacks.functions,
      hstacks.functionNames, hstacks.locations, hstacks.located, fun _ => hstacks.samples,
      fun hnil => absurd hnil hempty⟩

end PProfessor.Heap
