import PProfessor.HeapExport
import PProfessor.HeapSamples
import PProfessor.ProtoContents

set_option autoImplicit false

/-!
# The images of a heap export

The tables of an export only grow. Its mappings are numbered, one for each
image that a frame names, and each says what the frames of its image know.
-/
namespace PProfessor.Heap
open Capture (InTable TablesFit inTable_intern)
open NumberedTable Pprof

theorem foldl_of_fits {σ α : Type} {step : σ → α → σ} (Fits : σ → Prop) {Inv : σ → Prop}
    (hfits : ∀ s x, Fits (step s x) → Fits s) {xs : List α}
    (hstep : ∀ s, ∀ x ∈ xs, Inv s → Fits (step s x) → Inv (step s x)) {s : σ} (h : Inv s)
    (hfit : Fits (xs.foldl step s)) : Inv (xs.foldl step s) := by
  induction xs using List.reverseRecOn with
  | nil => exact h
  | append_singleton xs x ih =>
    rw [List.foldl_append] at hfit ⊢
    apply hstep _ x (List.mem_append_right xs List.mem_cons_self) _ hfit
    exact ih (fun s y hy => hstep s y (List.mem_append_left [x] hy)) (hfits _ x hfit)

/-- Tables are only appended to, and the rest of the header stays. -/
structure Grown (p q : PprofProfile) : Prop where
  strings : p.strings.strings <+: q.strings.strings
  mappings : p.mappings <+: q.mappings
  functions : p.functions <+: q.functions
  locations : p.locations <+: q.locations
  header : q =
    { p with
      strings := q.strings, mappings := q.mappings, functions := q.functions,
      locations := q.locations, samples := q.samples }

theorem Grown.refl (p : PprofProfile) : Grown p p :=
  ⟨List.prefix_refl _, List.prefix_refl _, List.prefix_refl _, List.prefix_refl _, rfl⟩

theorem Grown.trans {p q r : PprofProfile} (h : Grown p q) (h' : Grown q r) : Grown p r :=
  ⟨h.strings.trans h'.strings, h.mappings.trans h'.mappings, h.functions.trans h'.functions,
    h.locations.trans h'.locations, h'.header.trans (by rw [h.header])⟩

/-- `Vec`s whose lengths decide the ids of an export. -/
structure ExportFits (p : PprofProfile) : Prop extends TablesFit p where
  mappings : p.mappings.length < 2 ^ 63

theorem Grown.fits {p q : PprofProfile} (h : Grown p q) (hq : ExportFits q) : ExportFits p :=
  ⟨⟨lt_of_le_of_lt h.strings.length_le hq.strings,
    lt_of_le_of_lt h.functions.length_le hq.functions,
    lt_of_le_of_lt h.locations.length_le hq.locations⟩,
    lt_of_le_of_lt h.mappings.length_le hq.mappings⟩

theorem foldl_grown {σ α : Type} {step : σ → α → σ} (profile : σ → PprofProfile)
    (hstep : ∀ s x, Grown (profile s) (profile (step s x))) (xs : List α) (s : σ) :
    Grown (profile s) (profile (xs.foldl step s)) := by
  induction xs generalizing s with
  | nil => exact .refl _
  | cons x xs ih => exact (hstep s x).trans (ih (step s x))

def flagsOf (frames : List HeapFrame) (image : HeapMapping) : ImageFlags where
  functions := frames.any fun frame => frame.mapping = some image ∧ frame.function ≠ ""
  files := frames.any fun frame => frame.mapping = some image ∧ frame.file ≠ ""
  lines := frames.any fun frame => frame.mapping = some image ∧ frame.line ≠ 0

theorem flagsOf_of_not_mem {frames : List HeapFrame} {image : HeapMapping}
    (h : ∀ frame ∈ frames, frame.mapping ≠ some image) : flagsOf frames image = default := by
  have hany (known : HeapFrame → Prop) [DecidablePred known] :
      (frames.any fun frame => frame.mapping = some image ∧ known frame) = false := by
    rw [List.any_eq_false]
    intro frame hframe
    simp [h frame hframe]
  rw [flagsOf, hany, hany, hany]
  rfl

theorem flagsOf_concat (frames : List HeapFrame) (frame : HeapFrame) (image : HeapMapping) :
    flagsOf (frames ++ [frame]) image =
      if frame.mapping = some image then
        { functions := (flagsOf frames image).functions || frame.function ≠ ""
          files := (flagsOf frames image).files || frame.file ≠ ""
          lines := (flagsOf frames image).lines || frame.line ≠ 0 }
      else flagsOf frames image := by
  unfold flagsOf
  split_ifs with h <;> simp [h]

theorem imageFlags_getElem? (frames : List HeapFrame) (image : HeapMapping) :
    (imageFlags frames)[image]? =
      if ∃ frame ∈ frames, frame.mapping = some image then some (flagsOf frames image)
      else none := by
  induction frames using List.reverseRecOn generalizing image with
  | nil => simp [imageFlags]
  | append_singleton frames frame ih =>
    have hknown (image : HeapMapping) :
        (imageFlags frames)[image]?.getD default = flagsOf frames image := by
      rw [ih]
      split_ifs with h
      · rfl
      · push Not at h
        exact (flagsOf_of_not_mem h).symm
    rw [flagsOf_concat]
    simp only [List.mem_append, List.mem_singleton, or_and_right, exists_or, exists_eq_left]
    cases hmapping : frame.mapping with
    | none =>
      have hfold : imageFlags (frames ++ [frame]) = imageFlags frames := by
        rw [imageFlags, List.foldl_append, List.foldl_cons, List.foldl_nil, hmapping]
        rfl
      simp [hfold, ih]
    | some own =>
      have hfold : imageFlags (frames ++ [frame]) = (imageFlags frames).insert own
          { functions := ((imageFlags frames)[own]?.getD default).functions ||
              frame.function ≠ ""
            files := ((imageFlags frames)[own]?.getD default).files || frame.file ≠ ""
            lines := ((imageFlags frames)[own]?.getD default).lines || frame.line ≠ 0 } := by
        rw [imageFlags, List.foldl_append, List.foldl_cons, List.foldl_nil, hmapping]
        rfl
      simp only [Option.some.injEq, hfold, getElem?_insert_eq, hknown]
      by_cases he : own = image
      · simp [he]
      · simp [he, ih]

structure MappingShows (strings : StringTable) (frames : List HeapFrame) (image : HeapMapping)
    (m : Mapping) : Prop where
  memoryStart : m.memoryStart = image.memoryStart
  memoryLimit : m.memoryLimit = image.memoryLimit
  fileOffset : m.fileOffset = image.fileOffset
  filename : strings.strings[m.filename.toNat]? = some image.filename
  buildId : strings.strings[m.buildId.toNat]? = some image.buildId
  flags : (⟨m.hasFunctions, m.hasFilenames, m.hasLineNumbers⟩ : ImageFlags) = flagsOf frames image

theorem MappingShows.of_extension {a b : StringTable} {frames : List HeapFrame}
    {image : HeapMapping} {m : Mapping} (h : MappingShows a frames image m)
    (hp : a.strings <+: b.strings) : MappingShows b frames image m :=
  ⟨h.memoryStart, h.memoryLimit, h.fileOffset, getElem?_of_extension hp h.filename,
    getElem?_of_extension hp h.buildId, h.flags⟩

/-- The strings of a mapping are in the table. -/
structure MappingIn (strings : StringTable) (m : Mapping) : Prop where
  filename : InTable strings m.filename
  buildId : InTable strings m.buildId

theorem MappingIn.of_extension {a b : StringTable} {m : Mapping} (h : MappingIn a m)
    (hp : a.strings <+: b.strings) : MappingIn b m :=
  ⟨h.filename.of_extension hp, h.buildId.of_extension hp⟩

structure ImageTable.Inv (frames : List HeapFrame) (t : ImageTable) : Prop where
  built : t.p.strings.Built
  numbered : Numbered Mapping.id t.p.mappings
  named : ∀ m ∈ t.p.mappings, MappingIn t.p.strings m
  known : ∀ (image : HeapMapping) (id : UInt64), t.mappings[image]? = some id →
    ∃ m ∈ t.p.mappings, m.id = id ∧ MappingShows t.p.strings frames image m

theorem pushImage_grown (t : ImageTable) (entry : HeapMapping × ImageFlags) :
    Grown t.p (pushImage t entry).p :=
  ⟨(StringTable.intern_extends _ _).trans (StringTable.intern_extends _ _), List.prefix_append _ _,
    List.prefix_refl _, List.prefix_refl _, rfl⟩

theorem pushImage_inv {frames : List HeapFrame} {t : ImageTable} (h : t.Inv frames)
    {entry : HeapMapping × ImageFlags} (hflags : entry.2 = flagsOf frames entry.1)
    (hfit : ExportFits (pushImage t entry).p) : (pushImage t entry).Inv frames := by
  obtain ⟨image, flags⟩ := entry
  have hgrown := pushImage_grown t (image, flags)
  have hextends := StringTable.intern_extends (t.p.strings.intern image.filename).2 image.buildId
  have hfitName : (t.p.strings.intern image.filename).2.strings.length < 2 ^ 63 :=
    lt_of_le_of_lt hextends.length_le hfit.strings
  have hfitId : ((t.p.strings.intern image.filename).2.intern image.buildId).2.strings.length <
      2 ^ 63 := hfit.strings
  have hlen : t.p.mappings.length + 1 < 2 ^ 63 := by
    have := hfit.mappings
    simpa [pushImage] using this
  have hfilename := getElem?_of_extension hextends
    (StringTable.intern_getElem? t.p.strings image.filename (lt_trans hfitName (by norm_num)))
  have hbuildId := StringTable.intern_getElem? (t.p.strings.intern image.filename).2 image.buildId
    (lt_trans hfitId (by norm_num))
  refine ⟨(h.built.intern _).intern _, ?_, ?_, ?_⟩
  · exact h.numbered.concat (ofNat_succ_toNat (by omega))
  · intro m hm
    rcases List.mem_append.mp hm with hold | hnew
    · exact (h.named m hold).of_extension hgrown.strings
    · rw [List.mem_singleton.mp hnew]
      exact ⟨(inTable_intern hfitName).of_extension hextends, inTable_intern hfitId⟩
  · intro other id hid
    have hinsert : (t.mappings.insert image (UInt64.ofNat (t.p.mappings.length + 1)))[other]? =
        some id := hid
    rw [getElem?_insert_eq] at hinsert
    split_ifs at hinsert with he
    · subst he
      refine ⟨_, List.mem_append_right _ List.mem_cons_self, Option.some.inj hinsert, ?_⟩
      exact ⟨rfl, rfl, rfl, hfilename, hbuildId, hflags⟩
    · obtain ⟨m, hm, hmid, hshows⟩ := h.known other id hinsert
      exact ⟨m, hgrown.mappings.subset hm, hmid, hshows.of_extension hgrown.strings⟩

theorem foldl_pushImage_mem (entries : List (HeapMapping × ImageFlags)) (t : ImageTable)
    (image : HeapMapping) :
    image ∈ (entries.foldl pushImage t).mappings ↔
      image ∈ t.mappings ∨ image ∈ entries.map Prod.fst := by
  induction entries generalizing t with
  | nil => simp
  | cons entry entries ih =>
    have hinsert : (pushImage t entry).mappings =
        t.mappings.insert entry.1 (UInt64.ofNat (t.p.mappings.length + 1)) := rfl
    rw [List.foldl_cons, ih, hinsert, Std.ExtTreeMap.mem_insert, Std.compare_eq_iff_eq,
      List.map_cons, List.mem_cons, eq_comm]
    tauto

theorem pushImages_grown (samples : Std.ExtTreeMap Stack HeapValues) (p : PprofProfile) :
    Grown p (pushImages samples p).p :=
  foldl_grown ImageTable.p pushImage_grown _ ⟨∅, p⟩

theorem pushImages_rest (samples : Std.ExtTreeMap Stack HeapValues) (p : PprofProfile) :
    (pushImages samples p).p.samples = p.samples ∧
      (pushImages samples p).p.functions = p.functions ∧
      (pushImages samples p).p.locations = p.locations := by
  have hrest (entries : List (HeapMapping × ImageFlags)) (t : ImageTable) :
      (entries.foldl pushImage t).p.samples = t.p.samples ∧
        (entries.foldl pushImage t).p.functions = t.p.functions ∧
        (entries.foldl pushImage t).p.locations = t.p.locations := by
    induction entries generalizing t with
    | nil => exact ⟨rfl, rfl, rfl⟩
    | cons entry entries ih => exact ih (pushImage t entry)
  exact hrest _ _

theorem pushImages_inv (samples : Std.ExtTreeMap Stack HeapValues) {p : PprofProfile}
    (hbuilt : p.strings.Built) (hmappings : p.mappings = [])
    (hfit : ExportFits (pushImages samples p).p) :
    (pushImages samples p).Inv (framesOf samples) := by
  refine foldl_of_fits (fun t : ImageTable => ExportFits t.p)
    (fun t entry => (pushImage_grown t entry).fits) ?_ ?_ hfit
  · rintro t ⟨image, flags⟩ hentry h hstep
    refine pushImage_inv h ?_ hstep
    rw [Std.ExtTreeMap.mem_toList_iff_getElem?_eq_some, imageFlags_getElem?] at hentry
    split_ifs at hentry
    exact (Option.some.inj hentry).symm
  · refine ⟨hbuilt, ?_, ?_, by simp⟩
    · rw [hmappings]
      exact numbered_nil _
    · simp [hmappings]

theorem pushImages_complete (samples : Std.ExtTreeMap Stack HeapValues) (p : PprofProfile)
    {frame : HeapFrame} (hframe : frame ∈ framesOf samples) {image : HeapMapping}
    (himage : frame.mapping = some image) : image ∈ (pushImages samples p).mappings := by
  rw [pushImages, foldl_pushImage_mem]
  right
  rw [List.mem_map]
  refine ⟨(image, flagsOf (framesOf samples) image), ?_, rfl⟩
  rw [Std.ExtTreeMap.mem_toList_iff_getElem?_eq_some, imageFlags_getElem?,
    if_pos ⟨frame, hframe, himage⟩]

end PProfessor.Heap
