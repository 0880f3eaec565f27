import PProfessor.HeapErrors

set_option autoImplicit false

/-!
# Address space layout and the difference

A profile whose images are loaded elsewhere, with other hexadecimal names for the
functions that have no symbol, has the same differences.
-/
namespace PProfessor.Heap
open CheckedArith Fallible Pprof

/-- The text behind a string index, if there is one. -/
def text (p : PprofProfile) (id : UInt64) : Option String := p.strings.strings[id.toNat]?

/-- The same text, or two hexadecimal names. -/
def SameName (s s' : Option String) : Prop :=
  s' = s ∨ ∃ name name', s = some name ∧ s' = some name' ∧
    ProfileIndex.isHexName name ∧ ProfileIndex.isHexName name'

/-- How far a mapping has moved. -/
def slide (m m' : Mapping) : ℤ := m'.memoryStart.toNat - m.memoryStart.toNat

structure MovedMapping (p p' : PprofProfile) (m m' : Mapping) : Prop where
  id : m'.id = m.id
  memoryLimit : (m'.memoryLimit.toNat : ℤ) = m.memoryLimit.toNat + slide m m'
  fileOffset : m'.fileOffset = m.fileOffset
  filename : text p' m'.filename = text p m.filename
  buildId : text p' m'.buildId = text p m.buildId

structure MovedFunction (p p' : PprofProfile) (f f' : Function) : Prop where
  id : f'.id = f.id
  name : SameName (text p f.name) (text p' f'.name)
  systemName : SameName (text p f.systemName) (text p' f'.systemName)
  filename : text p' f'.filename = text p f.filename
  startLine : f'.startLine = f.startLine

structure MovedLocation (p p' : PprofProfile) (l l' : Location) : Prop where
  id : l'.id = l.id
  mappingId : l'.mappingId = l.mappingId
  lines : l'.lines = l.lines
  mapped : ∀ m m', (m, m') ∈ p.mappings.zip p'.mappings → m.id = l.mappingId →
    (l'.address.toNat : ℤ) = l.address.toNat + slide m m'
  unmapped : l.mappingId ∉ p.mappings.map Mapping.id → l'.address = l.address

structure MovedLabel (p p' : PprofProfile) (label label' : Label) : Prop where
  key : text p' label'.key = text p label.key
  strIndex : text p' label'.strIndex = text p label.strIndex
  num : label'.num = label.num
  numUnit : text p' label'.numUnit = text p label.numUnit

structure MovedSample (p p' : PprofProfile) (s s' : Sample) : Prop where
  locationIds : s'.locationIds = s.locationIds
  values : s'.values = s.values
  labels : List.Forall₂ (MovedLabel p p') s.labels s'.labels

def headerIds (p : PprofProfile) : List UInt64 :=
  p.comments ++ [p.defaultSampleType, p.docUrl, p.dropFrames, p.keepFrames, p.periodType.type,
    p.periodType.unit]

/-- `p'` is `p` with its images loaded elsewhere: every mapping has slid with the
addresses of its locations, and hexadecimal names may have changed. The string
table of `p'` is its own. -/
structure Moved (p p' : PprofProfile) : Prop where
  empty : text p' 0 = text p 0
  mappings : List.Forall₂ (MovedMapping p p') p.mappings p'.mappings
  functions : List.Forall₂ (MovedFunction p p') p.functions p'.functions
  locations : List.Forall₂ (MovedLocation p p') p.locations p'.locations
  samples : List.Forall₂ (MovedSample p p') p.samples p'.samples
  valueTypes : List.Forall₂ (fun v v' => text p' v'.type = text p v.type ∧
    text p' v'.unit = text p v.unit) p.valueTypes p'.valueTypes
  header : List.Forall₂ (fun id id' => text p' id' = text p id) (headerIds p) (headerIds p')

theorem SameName.symm {s s' : Option String} (h : SameName s s') : SameName s' s := by
  rcases h with h | ⟨name, name', hs, hs', hn, hn'⟩
  · exact .inl h.symm
  · exact .inr ⟨name', name, hs', hs, hn', hn⟩

theorem slide_symm (m m' : Mapping) : slide m' m = -slide m m' := by
  unfold slide
  omega

theorem map_related {α κ : Type} (f : α → κ) {R : α → α → Prop} (hf : ∀ x y, R x y → f y = f x)
    {xs ys : List α} (h : List.Forall₂ R xs ys) : ys.map f = xs.map f := by
  induction h with
  | nil => rfl
  | cons hxy _ ih => rw [List.map_cons, List.map_cons, hf _ _ hxy, ih]

namespace Moved

variable {p p' : PprofProfile} (h : Moved p p')
include h

theorem mappingIds : p'.mappings.map Mapping.id = p.mappings.map Mapping.id :=
  map_related _ (fun _ _ hm => hm.id) h.mappings

theorem functionIds : p'.functions.map Function.id = p.functions.map Function.id :=
  map_related _ (fun _ _ hf => hf.id) h.functions

theorem locationIds : p'.locations.map Location.id = p.locations.map Location.id :=
  map_related _ (fun _ _ hl => hl.id) h.locations

omit h in
theorem refl (p : PprofProfile) : Moved p p := by
  refine ⟨rfl, ?_, ?_, ?_, ?_, ?_, ?_⟩
  · refine List.forall₂_same.mpr fun m _ => ⟨rfl, ?_, rfl, rfl, rfl⟩
    unfold slide
    omega
  · exact List.forall₂_same.mpr fun f _ => ⟨rfl, .inl rfl, .inl rfl, rfl, rfl⟩
  · refine List.forall₂_same.mpr fun l _ => ⟨rfl, rfl, rfl, fun m m' hm _ => ?_, fun _ => rfl⟩
    have heq : m' = m := by
      obtain ⟨i, hi⟩ := List.mem_iff_getElem?.mp hm
      obtain ⟨hl, hr⟩ := List.getElem?_zip_eq_some.mp hi
      exact Option.some.inj (hr.symm.trans hl)
    rw [heq]
    unfold slide
    omega
  · exact List.forall₂_same.mpr fun s _ =>
      ⟨rfl, rfl, List.forall₂_same.mpr fun label _ => ⟨rfl, rfl, rfl, rfl⟩⟩
  · exact List.forall₂_same.mpr fun v _ => ⟨rfl, rfl⟩
  · exact List.forall₂_same.mpr fun id _ => rfl

theorem symm : Moved p' p := by
  refine ⟨h.empty.symm, h.mappings.flip.imp ?_, h.functions.flip.imp ?_, h.locations.flip.imp ?_,
    h.samples.flip.imp ?_, h.valueTypes.flip.imp ?_, h.header.flip.imp ?_⟩
  · intro m' m hm
    refine ⟨hm.id.symm, ?_, hm.fileOffset.symm, hm.filename.symm, hm.buildId.symm⟩
    rw [slide_symm, hm.memoryLimit]
    omega
  · intro f' f hf
    exact ⟨hf.id.symm, hf.name.symm, hf.systemName.symm, hf.filename.symm, hf.startLine.symm⟩
  · intro l' l hl
    refine ⟨hl.id.symm, hl.mappingId.symm, hl.lines.symm, ?_, ?_⟩
    · intro m' m hm hid
      have hm' : (m, m') ∈ p.mappings.zip p'.mappings := by
        rw [List.mem_iff_getElem?] at hm ⊢
        obtain ⟨i, hi⟩ := hm
        refine ⟨i, ?_⟩
        rw [List.getElem?_zip_eq_some] at hi ⊢
        exact hi.symm
      have hmm := (List.forall₂_iff_zip.mp h.mappings).2 hm'
      rw [hmm.id, hl.mappingId] at hid
      rw [slide_symm, hl.mapped m m' hm' hid]
      omega
    · intro hid
      rw [h.mappingIds, hl.mappingId] at hid
      exact (hl.unmapped hid).symm
  · intro s' s hs
    refine ⟨hs.locationIds.symm, hs.values.symm, hs.labels.flip.imp ?_⟩
    intro label' label hl
    exact ⟨hl.key.symm, hl.strIndex.symm, hl.num.symm, hl.numUnit.symm⟩
  · intro v' v hv
    exact ⟨hv.1.symm, hv.2.symm⟩
  · intro id' id hid
    exact hid.symm

omit h in
theorem inStrings_iff (p : PprofProfile) (id : UInt64) :
    InStrings p id ↔ ∃ s, text p id = some s :=
  ⟨fun hid => ⟨_, List.getElem?_eq_getElem hid⟩,
    fun ⟨_, hs⟩ => (List.getElem?_eq_some_iff.mp hs).choose⟩

omit h in
theorem inStrings_of_text {id id' : UInt64} (ht : text p' id' = text p id)
    (hid : InStrings p id) : InStrings p' id' := by
  rw [inStrings_iff] at hid ⊢
  rwa [ht]

omit h in
theorem inStrings_of_name {id id' : UInt64} (ht : SameName (text p id) (text p' id'))
    (hid : InStrings p id) : InStrings p' id' := by
  rcases ht with ht | ⟨_, name', -, hn, -⟩
  · exact inStrings_of_text ht hid
  · exact (inStrings_iff p' id').mpr ⟨name', hn⟩

omit h in
theorem stringAt_of_text {id id' : UInt64} (ht : text p' id' = text p id) :
    stringAt p' id' = stringAt p id := by
  unfold stringAt
  exact congrArg (Option.getD · "") ht

theorem types_eq : types p' = types p := by
  unfold types
  refine Eq.symm (List.forall₂_eq_eq_eq ▸ ?_)
  rw [List.forall₂_map_left_iff, List.forall₂_map_right_iff]
  refine h.valueTypes.imp ?_
  intro v v' hv
  rw [stringAt_of_text hv.1, stringAt_of_text hv.2]

theorem valueTypes_length : p'.valueTypes.length = p.valueTypes.length :=
  h.valueTypes.length_eq.symm

theorem valid (hv : Valid p) : Valid p' := by
  refine ⟨?_, ?_, ?_, ?_, ?_, ?_, ?_, ?_, ?_, ?_, ?_, ?_, ?_, ?_⟩
  · have he := hv.emptyFirst
    rw [List.head?_eq_getElem?] at he ⊢
    exact h.empty.trans he
  · rw [h.mappingIds]
    exact hv.mappingIds
  · rw [h.functionIds]
    exact hv.functionIds
  · rw [h.locationIds]
    exact hv.locationIds
  · intro m' hm'
    obtain ⟨m, hm, hmm⟩ := KeyedSum.forall₂_exists_left h.mappings hm'
    obtain ⟨hf, hb⟩ := hv.mapping m hm
    exact ⟨inStrings_of_text hmm.filename hf, inStrings_of_text hmm.buildId hb⟩
  · intro f' hf'
    obtain ⟨f, hf, hff⟩ := KeyedSum.forall₂_exists_left h.functions hf'
    obtain ⟨hn, hs, hfile⟩ := hv.function f hf
    exact ⟨inStrings_of_name hff.name hn, inStrings_of_name hff.systemName hs,
      inStrings_of_text hff.filename hfile⟩
  · intro l' hl'
    obtain ⟨l, hl, hll⟩ := KeyedSum.forall₂_exists_left h.locations hl'
    rw [hll.mappingId, hll.lines, h.mappingIds, h.functionIds]
    exact hv.location l hl
  · intro s' hs'
    obtain ⟨s, hs, hss⟩ := KeyedSum.forall₂_exists_left h.samples hs'
    obtain ⟨hids, hlabels⟩ := hv.sample s hs
    rw [hss.locationIds, h.locationIds]
    refine ⟨hids, fun label' hl' => ?_⟩
    obtain ⟨label, hl, hll⟩ := KeyedSum.forall₂_exists_left hss.labels hl'
    obtain ⟨hk, ht, hu⟩ := hlabels label hl
    exact ⟨inStrings_of_text hll.key hk, inStrings_of_text hll.strIndex ht,
      inStrings_of_text hll.numUnit hu⟩
  · intro id' hid'
    obtain ⟨id, hid, ht⟩ := KeyedSum.forall₂_exists_left h.header hid'
    exact inStrings_of_text ht (hv.header id hid)
  · intro hnil
    have hlen := h.valueTypes_length
    rw [hnil, List.length_nil, eq_comm, List.length_eq_zero_iff] at hlen
    exact hv.hasMetrics hlen
  · intro v' hv'
    obtain ⟨v, hvm, hvv⟩ := KeyedSum.forall₂_exists_left h.valueTypes hv'
    obtain ⟨ht, hu⟩ := hv.valueType v hvm
    exact ⟨inStrings_of_text hvv.1 ht, inStrings_of_text hvv.2 hu⟩
  · rw [h.types_eq]
    exact hv.names
  · rw [h.types_eq]
    exact hv.supported
  · intro s' hs'
    obtain ⟨s, hs, hss⟩ := KeyedSum.forall₂_exists_left h.samples hs'
    rw [hss.values, h.valueTypes_length]
    exact hv.values s hs

theorem validateProfile_matches :
    Matches (fun _ _ => Valid p ∧ Valid p') (validateProfile p) (validateProfile p') := by
  intro u hu
  have hv := (validateProfile_eq_ok_iff p u).mp hu
  exact ⟨(), (validateProfile_eq_ok_iff p' ()).mpr (h.valid hv), hv, h.valid hv⟩

theorem domains_eq : domains p' = domains p := by
  ext d
  simp only [domains, List.mem_toFinset, List.mem_flatMap, List.mem_map, List.mem_filter,
    decide_eq_true_eq]
  have hone : ∀ {q q' : PprofProfile}, Moved q q' →
      (∃ s ∈ q.samples, ∃ l, (l ∈ s.labels ∧ stringAt q l.key = "heap") ∧
        stringAt q l.strIndex = d) → ∃ s ∈ q'.samples, ∃ l, (l ∈ s.labels ∧
          stringAt q' l.key = "heap") ∧ stringAt q' l.strIndex = d := by
    rintro q q' hq ⟨s, hs, l, ⟨hl, hkey⟩, htext⟩
    obtain ⟨s', hs', hss⟩ := KeyedSum.forall₂_exists_left hq.samples.flip hs
    obtain ⟨l', hl', hll⟩ := KeyedSum.forall₂_exists_left hss.labels.flip hl
    exact ⟨s', hs', l', ⟨hl', (stringAt_of_text hll.key).trans hkey⟩,
      (stringAt_of_text hll.strIndex).trans htext⟩
  exact ⟨hone h.symm, hone h⟩

end Moved

theorem saturatingSubU64_slide {a a' b b' : UInt64} {d : ℤ} (ha : (a'.toNat : ℤ) = a.toNat + d)
    (hb : (b'.toNat : ℤ) = b.toNat + d) : saturatingSubU64 a' b' = saturatingSubU64 a b := by
  unfold saturatingSubU64
  by_cases h : b ≤ a
  · have h' : b' ≤ a' := by
      rw [UInt64.le_iff_toNat_le] at h ⊢
      omega
    rw [if_pos h, if_pos h', ← UInt64.toNat_inj, UInt64.toNat_sub_of_le _ _ h,
      UInt64.toNat_sub_of_le _ _ h']
    omega
  · have h' : ¬ b' ≤ a' := by
      rw [UInt64.le_iff_toNat_le] at h ⊢
      omega
    rw [if_neg h, if_neg h']

theorem indexBy_related {α : Type} {id : α → UInt64} {R : α → α → Prop}
    (hid : ∀ x y, R x y → id y = id x) {xs ys : List α} (h : List.Forall₂ R xs ys)
    (hxs : (xs.map id).Nodup) (k : UInt64) :
    Option.Rel (fun x y => R x y ∧ (x, y) ∈ xs.zip ys) (indexBy id xs)[k]? (indexBy id ys)[k]? := by
  have hys : (ys.map id).Nodup := by rwa [map_related id hid h]
  cases hx : (indexBy id xs)[k]? with
  | none =>
    rw [indexBy_eq_none_iff hxs, ← map_related id hid h, ← indexBy_eq_none_iff hys] at hx
    rw [hx]
    exact .none
  | some x =>
    obtain ⟨hmem, rfl⟩ := (indexBy_eq_some_iff hxs k x).mp hx
    obtain ⟨i, hi⟩ := List.mem_iff_getElem?.mp hmem
    have hlt : i < ys.length := by
      rw [← h.length_eq]
      exact (List.getElem?_eq_some_iff.mp hi).choose
    have hy : ys[i]? = some ys[i] := List.getElem?_eq_getElem hlt
    have hzip : (x, ys[i]) ∈ xs.zip ys :=
      List.mem_iff_getElem?.mpr ⟨i, List.getElem?_zip_eq_some.mpr ⟨hi, hy⟩⟩
    have hR := (List.forall₂_iff_zip.mp h).2 hzip
    rw [(indexBy_eq_some_iff hys (id x) ys[i]).mpr ⟨List.mem_of_getElem? hy, hid _ _ hR⟩]
    exact .some ⟨hR, hzip⟩

def SameLine (key key' : LineKey) : Prop :=
  ProfileIndex.hideHexNames key' = ProfileIndex.hideHexNames key ∧
    ProfileIndex.isHexName key'.1 = ProfileIndex.isHexName key.1

theorem sameName_hidden {name name' : String} (h : SameName (some name) (some name')) :
    ProfileIndex.hideHexName name' = ProfileIndex.hideHexName name ∧
      ProfileIndex.isHexName name' = ProfileIndex.isHexName name := by
  rcases h with h | ⟨a, b, ha, hb, hn, hn'⟩
  · rw [Option.some.injEq] at h
    rw [h]
    exact ⟨rfl, rfl⟩
  · rw [Option.some.injEq] at ha hb
    subst ha hb
    rw [ProfileIndex.hideHexName, ProfileIndex.hideHexName, if_pos hn, if_pos hn', hn, hn']
    exact ⟨rfl, rfl⟩

theorem sameName_some {s' : Option String} {name : String} (h : SameName (some name) s') :
    ∃ name', s' = some name' ∧ SameName (some name) (some name') := by
  rcases h with rfl | ⟨a, b, ha, rfl, hn, hn'⟩
  · exact ⟨name, rfl, .inl rfl⟩
  · exact ⟨b, rfl, .inr ⟨a, b, ha, rfl, hn, hn'⟩⟩

theorem string_text (p : PprofProfile) (id : UInt64) :
    (ProfileIndex.new p).string id = orError .invalidKeyIndex (text p id) := rfl

namespace Moved

variable {p p' : PprofProfile} (h : Moved p p') (hv : Valid p)
include h hv

theorem lineKey_matches (line : Line) : Matches SameLine ((ProfileIndex.new p).lineKey line)
    ((ProfileIndex.new p').lineKey line) := by
  intro key hkey
  simp only [ProfileIndex.lineKey, string_text, bind_eq_ok, orError_eq_ok_iff,
    Except.ok.injEq] at hkey ⊢
  obtain ⟨f, hf, name, hname, systemName, hsystem, filename, hfile, rfl⟩ := hkey
  have hrel := indexBy_related (fun _ _ hm => hm.id) h.functions hv.functionIds.1 line.functionId
  change Option.Rel _ (ProfileIndex.new p).functions[line.functionId]?
    (ProfileIndex.new p').functions[line.functionId]? at hrel
  rw [hf] at hrel
  generalize hf' : (ProfileIndex.new p').functions[line.functionId]? = found at hrel
  cases hrel with
  | some hff =>
    have hff := hff.1
    obtain ⟨name', hname', hn⟩ := sameName_some (hname ▸ hff.name)
    obtain ⟨systemName', hsystem', hs⟩ := sameName_some (hsystem ▸ hff.systemName)
    obtain ⟨hhide, hhex⟩ := sameName_hidden hn
    refine ⟨_, ⟨_, rfl, name', hname', systemName', hsystem', filename,
      hff.filename.trans hfile, rfl⟩, ?_, hhex⟩
    simp only [ProfileIndex.hideHexNames, hhide, (sameName_hidden hs).1, hff.startLine]

theorem binary_matches {m m' : Option Mapping}
    (hm : Option.Rel (fun m m' => MovedMapping p p' m m' ∧ (m, m') ∈ p.mappings.zip p'.mappings)
      m m') :
    Matches Eq ((ProfileIndex.new p).binary m) ((ProfileIndex.new p').binary m') := by
  cases hm with
  | none => exact .refl _
  | some hm =>
    intro s hs
    have hzero : ∀ {q : PprofProfile}, Valid q → (ProfileIndex.new q).string 0 = .ok "" :=
      fun hq => string_zero hq.emptyFirst (List.prefix_refl _)
    rw [ProfileIndex.binary_some_eq_ok_iff (hzero hv)] at hs
    refine ⟨s, ?_, rfl⟩
    rw [ProfileIndex.binary_some_eq_ok_iff (hzero (h.valid hv))]
    simpa only [string_text, hm.1.filename, hm.1.buildId] using hs

omit h in
theorem relativeAddress_eq {l l' : Location} (hl : MovedLocation p p' l l') {m m' : Option Mapping}
    (hfound : (ProfileIndex.new p).mappings[l.mappingId]? = m)
    (hm : Option.Rel (fun m m' => MovedMapping p p' m m' ∧ (m, m') ∈ p.mappings.zip p'.mappings)
      m m') :
    ProfileIndex.relativeAddress l' m' = ProfileIndex.relativeAddress l m := by
  cases hm with
  | none =>
    exact hl.unmapped ((indexBy_eq_none_iff hv.mappingIds.1 l.mappingId).mp hfound)
  | @some m m' hm =>
    obtain ⟨-, hid⟩ := (indexBy_eq_some_iff hv.mappingIds.1 l.mappingId m).mp hfound
    have hstart : (m'.memoryStart.toNat : ℤ) = m.memoryStart.toNat + slide m m' := by
      unfold slide
      omega
    simp only [ProfileIndex.relativeAddress, hm.1.fileOffset,
      saturatingSubU64_slide (hl.mapped m m' hm.2 hid) hstart]

theorem frameKey_matches (id : UInt64) : Matches Eq ((ProfileIndex.new p).frameKey id)
    ((ProfileIndex.new p').frameKey id) := by
  intro key hkey
  simp only [ProfileIndex.frameKey, bind_eq_ok, orError_eq_ok_iff] at hkey ⊢
  obtain ⟨l, hl, lines, hlines, binary, hbinary, hkey⟩ := hkey
  have hrel := indexBy_related (fun _ _ hm => hm.id) h.locations hv.locationIds.1 id
  change Option.Rel _ (ProfileIndex.new p).locations[id]?
    (ProfileIndex.new p').locations[id]? at hrel
  rw [hl] at hrel
  generalize hl' : (ProfileIndex.new p').locations[id]? = found at hrel
  cases hrel with
  | @some _ l' hll =>
    have hll := hll.1
    have hmapping := indexBy_related (fun _ _ hm => hm.id) h.mappings hv.mappingIds.1 l.mappingId
    change Option.Rel _ (ProfileIndex.new p).mappings[l.mappingId]?
      (ProfileIndex.new p').mappings[l.mappingId]? at hmapping
    obtain ⟨lines', hlines', hR⟩ := Matches.mapM_self (h.lineKey_matches hv) l.lines lines hlines
    obtain ⟨binary', hbinary', rfl⟩ := h.binary_matches hv hmapping binary hbinary
    refine ⟨key, ⟨l', rfl, lines', ?_, binary, ?_, ?_⟩, rfl⟩
    · rw [hll.lines]
      exact hlines'
    · rw [hll.mappingId]
      exact hbinary'
    · have hhide : lines'.map ProfileIndex.hideHexNames = lines.map ProfileIndex.hideHexNames :=
        map_related _ (fun _ _ hk => hk.1) hR
      have hall : lines'.all (fun line => ProfileIndex.isHexName line.1) =
          lines.all fun line => ProfileIndex.isHexName line.1 := by
        have hmap : lines'.map (fun line => ProfileIndex.isHexName line.1) =
            lines.map fun line => ProfileIndex.isHexName line.1 :=
          map_related _ (fun _ _ hk => hk.2) hR
        have hb := congrArg (fun bs => bs.all fun b => b) hmap
        simpa only [List.all_map, Function.comp_def] using hb
      have hnil : lines' = [] ↔ lines = [] := by
        rw [← List.length_eq_zero_iff, ← List.length_eq_zero_iff, hR.length_eq]
      rw [hll.mappingId, relativeAddress_eq hv hll rfl hmapping, hhide, hall]
      simp only [hnil]
      exact hkey

omit h hv in
theorem labelKey_matches {label label' : Label} (hl : MovedLabel p p' label label') :
    Matches Eq ((ProfileIndex.new p).labelKey label) ((ProfileIndex.new p').labelKey label') := by
  intro key hkey
  refine ⟨key, ?_, rfl⟩
  simpa only [ProfileIndex.labelKey, string_text, hl.key, hl.strIndex, hl.num, hl.numUnit]
    using hkey

theorem sampleKey_matches (toJson : List FrameKey × List LabelKey → String) {s s' : Sample}
    (hs : MovedSample p p' s s') : Matches Eq ((ProfileIndex.new p).sampleKey toJson s)
      ((ProfileIndex.new p').sampleKey toJson s') := by
  unfold ProfileIndex.sampleKey
  rw [hs.locationIds]
  refine (Matches.mapM_self (h.frameKey_matches hv) s.locationIds).bind
    fun stack stack' _ hstack => ?_
  refine (Matches.mapM hs.labels fun _ _ hl => labelKey_matches hl).bind
    fun labels labels' _ hlabels => ?_
  rw [List.forall₂_eq_eq_eq] at hstack hlabels
  rw [hstack, hlabels]
  exact .refl _

end Moved

/-- Two sample maps with the same values under every key. -/
def SameRows (samples samples' : SampleMap) : Prop :=
  ∀ k : String, samples'[k]?.map Sample.values = samples[k]?.map Sample.values

theorem SameRows.insert {samples samples' : SampleMap} (h : SameRows samples samples')
    (key : String) {s s' : Sample} (hs : s'.values = s.values) :
    SameRows (samples.insert key s) (samples'.insert key s') := by
  intro k
  rw [Std.ExtTreeMap.getElem?_insert, Std.ExtTreeMap.getElem?_insert]
  split_ifs
  · rw [Option.map_some, Option.map_some, hs]
  · exact h k

theorem SameRows.toList {samples samples' : SampleMap} (h : SameRows samples samples') :
    (samples'.toList.map fun e => (e.1, e.2.values)) =
      samples.toList.map fun e => (e.1, e.2.values) := by
  have hmap : samples'.map (fun _ s => s.values) = samples.map fun _ s => s.values := by
    apply Std.ExtTreeMap.ext_getElem?
    intro k
    rw [Std.ExtTreeMap.getElem?_map, Std.ExtTreeMap.getElem?_map]
    exact h k
  have hlist := congrArg Std.ExtTreeMap.toList hmap
  rwa [Std.ExtTreeMap.toList_map, Std.ExtTreeMap.toList_map] at hlist

/-- What a turn of either loop does under `key`, when both maps find the same there. -/
theorem SameRows.step {samples samples' : SampleMap} (h : SameRows samples samples')
    (key : String) {values values' : List Int64} (hvalues : values' = values) (sign : Int64)
    {new new' : Except ProfileError Sample}
    (hnew : Matches (fun s s' => s'.values = s.values) new new') :
    Matches SameRows
      (match samples[key]? with
        | some existing => do
          let values ← add existing.values values sign
          .ok (samples.insert key { existing with values := values })
        | none => do
          let moved ← new
          .ok (samples.insert key moved))
      (match samples'[key]? with
        | some existing => do
          let values ← add existing.values values' sign
          .ok (samples'.insert key { existing with values := values })
        | none => do
          let moved ← new'
          .ok (samples'.insert key moved)) := by
  subst hvalues
  have hk := h key
  cases hs : samples[key]? with
  | none =>
    rw [hs, Option.map_none, Option.map_eq_none_iff] at hk
    simp only [hk]
    exact hnew.bind fun s s' _ hss => .of_ok (h.insert key hss)
  | some existing =>
    rw [hs, Option.map_some, Option.map_eq_some_iff] at hk
    obtain ⟨existing', hs', heq⟩ := hk
    simp only [hs', heq]
    refine (Matches.refl _).bind fun sum sum' _ hsum => .of_ok (h.insert key hsum.symm)

variable {toJson : List FrameKey × List LabelKey → String}

theorem addCurrent_matches {p p' : PprofProfile} (h : Moved p p') (hv : Valid p) {s s' : Sample}
    (hs : MovedSample p p' s s') {samples samples' : SampleMap}
    (hrows : SameRows samples samples') :
    Matches SameRows (addCurrent toJson (.new p) samples s)
      (addCurrent toJson (.new p') samples' s') := by
  unfold addCurrent
  refine (h.sampleKey_matches hv toJson hs).bind fun key key' _ hkey => ?_
  subst hkey
  exact hrows.step key hs.values 1 (.of_ok hs.values)

theorem copySample_matches {base' : PprofProfile} (hv : Valid base')
    {strings strings' : List UInt64} (hlen : base'.strings.strings.length ≤ strings'.length)
    {locationIds locationIds' : Std.ExtHashMap UInt64 UInt64}
    (hids : ∀ id ∈ base'.locations.map Location.id, ∃ id', locationIds'[id]? = some id')
    (values : List Int64) (s : Sample) {s' : Sample} (hs : s' ∈ base'.samples) :
    Matches (fun t t' => t'.values = t.values) (copySample strings locationIds values s)
      (copySample strings' locationIds' values s') := by
  intro t ht
  simp only [copySample, bind_eq_ok, Except.ok.injEq] at ht ⊢
  obtain ⟨negated, hnegated, ids, -, labels, -, rfl⟩ := ht
  obtain ⟨ids', hids'⟩ := mapM_ok_of_forall fun id hid => by
    obtain ⟨id', hid'⟩ := hids id ((hv.sample s' hs).1 id hid)
    exact ⟨id', (orError_eq_ok_iff ProfileError.missingBaseLocation _ _).mpr hid'⟩
  obtain ⟨labels', hlabels'⟩ := mapM_ok_of_forall fun label hl => copyLabel_ok hlen hv hs hl
  exact ⟨_, ⟨negated, hnegated, ids', hids', labels', hlabels', rfl⟩, rfl⟩

theorem subtractBase_matches {p p' : PprofProfile} (h : Moved p p') (hv : Valid p) {order : List ℕ}
    {copy copy' : List Int64 → Sample → Except ProfileError Sample} {s s' : Sample}
    (hs : MovedSample p p' s s')
    (hcopy : ∀ values, Matches (fun t t' => t'.values = t.values) (copy values s) (copy' values s'))
    {samples samples' : SampleMap} (hrows : SameRows samples samples') :
    Matches SameRows (subtractBase toJson (.new p) order copy samples s)
      (subtractBase toJson (.new p') order copy' samples' s') := by
  unfold subtractBase
  refine (h.sampleKey_matches hv toJson hs).bind fun key key' _ hkey => ?_
  subst hkey
  rw [hs.values]
  refine (Matches.refl _).bind fun values values' _ hvalues => ?_
  subst hvalues
  exact hrows.step key rfl (-1) (hcopy values)

theorem addCurrent_run_matches {current current' : PprofProfile} (hc : Moved current current')
    (hv : Valid current) :
    Matches SameRows (current.samples.foldlM (addCurrent toJson (.new current)) ∅)
      (current'.samples.foldlM (addCurrent toJson (.new current')) ∅) :=
  Matches.foldlM hc.samples (fun _ _ hs _ _ => addCurrent_matches hc hv hs) fun _ => rfl

theorem subtractBase_run_matches {base base' : PprofProfile} (hb : Moved base base')
    (hv : Valid base) (hv' : Valid base') {order : List ℕ} {strings strings' : List UInt64}
    (hlen : base'.strings.strings.length ≤ strings'.length)
    {locationIds locationIds' : Std.ExtHashMap UInt64 UInt64}
    (hids : ∀ id ∈ base'.locations.map Location.id, ∃ id', locationIds'[id]? = some id')
    {samples samples' : SampleMap} (hrows : SameRows samples samples') :
    Matches SameRows
      (base.samples.foldlM (subtractBase toJson (.new base) order
        (copySample strings locationIds)) samples)
      (base'.samples.foldlM (subtractBase toJson (.new base') order
        (copySample strings' locationIds')) samples') := by
  have hmem := (KeyedSum.forall₂_mem_left hb.samples.flip).flip
  refine Matches.foldlM hmem (fun s s' hs _ _ => ?_) hrows
  exact subtractBase_matches hb hv hs.2 fun values =>
    copySample_matches hv' hlen hids values s hs.1

theorem maxId_eq {α : Type} {id : α → UInt64} {xs ys : List α} (h : ys.map id = xs.map id) :
    maxId id ys = maxId id xs := by
  rw [maxId, maxId, h]

theorem relocate_matches {α : Type} {id : α → UInt64}
    {copy copy' : α → UInt64 → Except ProfileError α} {xs xs' : List α}
    (hlen : xs'.length = xs.length) {next next' : UInt64} (hnext : next' = next)
    (hok : ∀ x ∈ xs', ∀ n, ∃ y, copy' x n = .ok y) (ids ids' : Std.ExtHashMap UInt64 UInt64)
    (out out' : List α) :
    Matches (fun _ r' => relocate id copy' xs' next' ids' out' = .ok r')
      (relocate id copy xs next ids out) (relocate id copy' xs' next' ids' out') := by
  intro r hr
  have hlt := relocate_lt hr
  rw [← hlen, ← hnext] at hlt
  obtain ⟨r', hr'⟩ := relocate_ok hok hlt ids' out'
  exact ⟨r', hr', hr'⟩

theorem difference_matches {base base' current current' : PprofProfile} (hb : Moved base base')
    (hc : Moved current current') :
    Matches (fun _ _ => True) (difference toJson base current)
      (difference toJson base' current') := by
  unfold difference
  refine hb.validateProfile_matches.bind fun _ _ _ hbv => ?_
  refine hc.validateProfile_matches.bind fun _ _ _ hcv => ?_
  rw [hb.types_eq, hc.types_eq, hb.domains_eq, hc.domains_eq]
  refine (Matches.refl _).bind fun _ _ _ _ => (Matches.refl _).bind fun _ _ _ _ => ?_
  refine (Matches.refl _).bind fun order order' _ horder => ?_
  subst horder
  refine (addCurrent_run_matches hc hcv.1).bind fun samples samples' _ hsamples => ?_
  have hlen := (internAll_ids_length base'.strings.strings current'.strings).ge
  refine Matches.bind (relocate_matches hb.mappings.length_eq.symm (maxId_eq hc.mappingIds)
    (fun m hm n => copyMapping_ok hlen hbv.2 hm n) _ _ _ _) ?_
  rintro ⟨mappingIds, mappings⟩ ⟨mappingIds', mappings'⟩ - hmappings
  refine Matches.bind (relocate_matches hb.functions.length_eq.symm (maxId_eq hc.functionIds)
    (fun f hf n => copyFunction_ok hlen hbv.2 hf n) _ _ _ _) ?_
  rintro ⟨functionIds, functions⟩ ⟨functionIds', functions'⟩ - hfunctions
  obtain ⟨_, -, hmr, -⟩ := relocate_spec (fun _ _ _ hy => (copyMapping_same hy).1)
    hbv.2.mappingIds.1 hmappings
  obtain ⟨_, -, hfr, -⟩ := relocate_spec (fun _ _ _ hy => (copyFunction_same hy).1)
    hbv.2.functionIds.1 hfunctions
  refine Matches.bind (relocate_matches hb.locations.length_eq.symm (maxId_eq hc.locationIds)
    (fun l hl n => copyLocation_ok hbv.2 hmr hfr hl n) _ _ _ _) ?_
  rintro ⟨locationIds, locations⟩ ⟨locationIds', locations'⟩ - hlocations
  obtain ⟨_, -, hlr, -⟩ := relocate_spec (fun _ _ _ hy => (copyLocation_same hy).1)
    hbv.2.locationIds.1 hlocations
  refine Matches.bind (subtractBase_run_matches hb hbv.1 hbv.2 hlen
    (fun id hid => hlr.found hid) hsamples) ?_
  intro _ _ _ _
  exact .of_ok trivial

theorem Merged.strings_length_le {base current out : PprofProfile} {strings : List UInt64}
    {functionIds locationIds : Std.ExtHashMap UInt64 UInt64}
    (h : Merged base current out strings functionIds locationIds) :
    base.strings.strings.length ≤ strings.length := by
  by_contra hlt
  rw [Nat.not_le] at hlt
  obtain ⟨id, hid, -⟩ := h.stringsMoved _ _ (List.getElem?_eq_getElem hlt)
  rw [List.getElem?_eq_none (Nat.le_refl _)] at hid
  cases hid

theorem stages_rows {base base' current current' out out' : PprofProfile} (hb : Moved base base')
    (hc : Moved current current') {strings strings' : List UInt64}
    {mappingIds functionIds locationIds mappingIds' functionIds' locationIds' :
      Std.ExtHashMap UInt64 UInt64}
    {mappings mappings' : List Mapping} {functions functions' : List Function}
    {locations locations' : List Location} {order order' : List ℕ}
    {added added' final final' : SampleMap}
    (h : Stages toJson base current out strings mappingIds functionIds locationIds mappings
      functions locations order added final)
    (h' : Stages toJson base' current' out' strings' mappingIds' functionIds' locationIds' mappings'
      functions' locations' order' added' final') : SameRows final final' := by
  have horder : order' = order := by
    have ho := h'.ordered
    rw [hb.types_eq, hc.types_eq, h.ordered, Except.ok.injEq] at ho
    exact ho.symm
  subst horder
  have hlen := h'.merged.strings_length_le
  obtain ⟨r, hr, hrows⟩ := addCurrent_run_matches hc h.merged.currentValid added h.added
  rw [h'.added, Except.ok.injEq] at hr
  subst hr
  obtain ⟨r, hr, hrows⟩ := subtractBase_run_matches hb h.merged.baseValid h'.merged.baseValid
    hlen (fun id hid => h'.locations.2.1.found hid) hrows final h.subtracted
  rw [h'.subtracted, Except.ok.injEq] at hr
  subst hr
  exact hrows

/-- The key and the values of each sample. -/
def keyedValues (toJson : List FrameKey × List LabelKey → String) (p : PprofProfile) :
    List (Option String × List Int64) :=
  p.samples.map fun s => (keyOf toJson p s, s.values)

theorem Stages.keyedValues_out {base current out : PprofProfile} {strings : List UInt64}
    {mappingIds functionIds locationIds : Std.ExtHashMap UInt64 UInt64}
    {mappings : List Mapping} {functions : List Function} {locations : List Location}
    {order : List ℕ} {added final : SampleMap}
    (h : Stages toJson base current out strings mappingIds functionIds locationIds mappings
      functions locations order added final) :
    keyedValues toJson out = ((final.toList.map fun e => (e.1, e.2.values)).filter
      fun e => e.2.any fun v => v ≠ 0).map fun e => (some e.1, e.2) := by
  have hkey : ∀ e ∈ final.toList, keyOf toJson out e.2 = some e.1 := by
    intro e he
    rw [keyOf_eq_some_iff]
    exact (h.tally.entry e.1 e.2 (Std.ExtTreeMap.mem_toList_iff_getElem?_eq_some.mp he)).1
  rw [keyedValues, h.shown, List.filter_map, List.filter_map, List.map_map, List.map_map]
  apply List.map_congr_left
  intro e he
  change (keyOf toJson out e.2, e.2.values) = (some e.1, e.2.values)
  rw [hkey e (List.mem_filter.mp he).1]

/-- Where the images are loaded, and what the functions without a symbol are
called, changes neither whether a difference exists nor what it shows. -/
theorem difference_ignores_relocation (toJson : List FrameKey × List LabelKey → String)
    (base base' current current' : PprofProfile) (hb : Moved base base')
    (hc : Moved current current') :
    ((∃ out, difference toJson base current = .ok out) ↔
      ∃ out, difference toJson base' current' = .ok out) ∧
    ∀ out out', difference toJson base current = .ok out →
      difference toJson base' current' = .ok out' →
      out.strings.strings.length < 2 ^ 64 → out'.strings.strings.length < 2 ^ 64 →
      keyedValues toJson out' = keyedValues toJson out := by
  constructor
  · constructor
    · rintro ⟨out, h⟩
      obtain ⟨out', h', -⟩ := difference_matches hb hc out h
      exact ⟨out', h'⟩
    · rintro ⟨out', h'⟩
      obtain ⟨out, h, -⟩ := difference_matches hb.symm hc.symm out' h'
      exact ⟨out, h⟩
  · intro out out' h h' hlen hlen'
    obtain ⟨_, _, _, _, _, _, _, _, _, _, hs⟩ := difference_stages h hlen
    obtain ⟨_, _, _, _, _, _, _, _, _, _, hs'⟩ := difference_stages h' hlen'
    rw [hs.keyedValues_out, hs'.keyedValues_out, (stages_rows hb hc hs hs').toList]

def unknownKey : String :=
  "[[[\"cache.so\",16,[[\"[unknown]\",\"[unknown]\",\"\",0,0,0]]]],[]]"

/-- One sample of an image loaded at `start`, in a function without a symbol. -/
def loadedAt (start : UInt64) (name : String) (value : Int64) : PprofProfile :=
  { PprofProfile.withStrings (.ofStrings ["", "inuse_space", "bytes", "cache.so", name]) with
    valueTypes := [⟨1, 2⟩]
    mappings := [⟨1, start, start + 0x1000, 0, 3, 0, false, false, false, false⟩]
    functions := [⟨1, 4, 4, 0, 0⟩]
    locations := [⟨1, 1, start + 0x10, [⟨1, 0, 0⟩], false⟩]
    samples := [⟨[1], [value], []⟩] }

theorem loadedAt_moved (value : Int64) : Moved (loadedAt 0x1000 "0x0000000000001010" value)
    (loadedAt 0x7000 "0x0000000000007010" value) := by
  have hname : SameName (text (loadedAt 0x1000 "0x0000000000001010" value) 4)
      (text (loadedAt 0x7000 "0x0000000000007010" value) 4) :=
    .inr ⟨_, _, rfl, rfl, by decide, by decide⟩
  refine ⟨rfl, .cons ⟨rfl, by decide, rfl, rfl, rfl⟩ .nil, .cons ⟨rfl, hname, hname, rfl, rfl⟩ .nil,
    .cons ⟨rfl, rfl, rfl, ?_, ?_⟩ .nil, .cons ⟨rfl, rfl, .nil⟩ .nil, .cons ⟨rfl, rfl⟩ .nil, ?_⟩
  · intro m m' hm _
    obtain ⟨rfl, rfl⟩ := Prod.mk.injEq .. ▸ List.mem_singleton.mp hm
    decide
  · intro hid
    exact absurd (List.mem_singleton_self _) hid
  · exact .cons rfl (.cons rfl (.cons rfl (.cons rfl (.cons rfl (.cons rfl .nil)))))

theorem loadedAt_difference : ∃ out, difference (fun _ => unknownKey)
    (loadedAt 0x1000 "0x0000000000001010" 24) (loadedAt 0x1000 "0x0000000000001010" 64) =
      .ok out := by
  have hbase : Valid (loadedAt 0x1000 "0x0000000000001010" 24) :=
    (validateProfile_eq_ok_iff _ ()).mp (by decide)
  have hcurrent : Valid (loadedAt 0x1000 "0x0000000000001010" 64) :=
    (validateProfile_eq_ok_iff _ ()).mp (by decide)
  have hadded : (loadedAt 0x1000 "0x0000000000001010" 64).samples.foldlM
      (addCurrent (fun _ => unknownKey) (.new (loadedAt 0x1000 "0x0000000000001010" 64))) ∅ =
      .ok ((∅ : SampleMap).insert unknownKey ⟨[1], [64], []⟩) := by
    change addCurrent (fun _ => unknownKey) _ ∅ _ >>= _ = _
    rw [addCurrent, hcurrent.constant_sampleKey unknownKey (List.mem_singleton_self _)]
    simp [bind, Except.bind, pure, Except.pure]
  refine difference_returns hbase hcurrent (by decide) (by decide) (rfl : _ = Except.ok [0]) hadded
    (by decide) (by decide) (by decide) fun copy =>
      ⟨((∅ : SampleMap).insert unknownKey ⟨[1], [64], []⟩).insert unknownKey ⟨[1], [40], []⟩, ?_⟩
  change subtractBase (fun _ => unknownKey) _ [0] copy _ _ >>= _ = _
  rw [subtractBase, hbase.constant_sampleKey unknownKey (List.mem_singleton_self _)]
  have hv : add [64] [24] (-1) = .ok [40] := rfl
  simp [bind, Except.bind, pure, Except.pure, hv, orError]

/-- The image of the current profile is loaded elsewhere. -/
theorem difference_ignores_relocation_loadedAt : ∃ out out',
    difference (fun _ => unknownKey) (loadedAt 0x1000 "0x0000000000001010" 24)
      (loadedAt 0x1000 "0x0000000000001010" 64) = .ok out ∧
    difference (fun _ => unknownKey) (loadedAt 0x1000 "0x0000000000001010" 24)
      (loadedAt 0x7000 "0x0000000000007010" 64) = .ok out' ∧
    keyedValues (fun _ => unknownKey) out' = keyedValues (fun _ => unknownKey) out := by
  obtain ⟨hiff, hsame⟩ := difference_ignores_relocation (fun _ => unknownKey) _ _ _ _
    (.refl (loadedAt 0x1000 "0x0000000000001010" 24)) (loadedAt_moved 64)
  obtain ⟨out, h⟩ := loadedAt_difference
  obtain ⟨out', h'⟩ := hiff.mp ⟨out, h⟩
  exact ⟨out, out', h, h', hsame out out' h h'
    (lt_of_le_of_lt (difference_strings_length_le h) (by decide))
    (lt_of_le_of_lt (difference_strings_length_le h') (by decide))⟩

end PProfessor.Heap
