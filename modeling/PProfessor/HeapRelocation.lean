import PProfessor.HeapCompare

set_option autoImplicit false

/-!
# Sample keys under relocation

Copying a profile's tables behind those of another one renames every id, yet
every sample keeps its key. What `relocate` and `internAll` produce, and the
relation `Carries` between two indexes under which keys agree.
-/
namespace PProfessor.Heap
open CheckedArith Fallible Pprof

theorem indexBy_getElem? {α : Type} (id : α → UInt64) (xs : List α) (h : (xs.map id).Nodup)
    (k : UInt64) : (indexBy id xs)[k]? = xs.find? fun x => id x = k := by
  suffices hgen : ∀ map : Std.ExtHashMap UInt64 α,
      (xs.foldl (fun map x => map.insert (id x) x) map)[k]? =
        (xs.find? fun x => id x = k).or map[k]? by
    simpa [indexBy] using hgen ∅
  induction xs with
  | nil => simp
  | cons x xs ih =>
    rw [List.map_cons, List.nodup_cons] at h
    intro map
    rw [List.foldl_cons, ih h.2, Std.ExtHashMap.getElem?_insert, List.find?_cons]
    by_cases hk : id x = k
    · have hn : (xs.find? fun y => id y = k) = none := by
        rw [List.find?_eq_none]
        intro y hy
        simp only [decide_eq_true_eq]
        intro hyk
        exact h.1 (List.mem_map.mpr ⟨y, hy, hyk.trans hk.symm⟩)
      simp [hk, hn]
    · simp [hk]

theorem indexBy_eq_some_iff {α : Type} {id : α → UInt64} {xs : List α} (h : (xs.map id).Nodup)
    (k : UInt64) (x : α) : (indexBy id xs)[k]? = some x ↔ x ∈ xs ∧ id x = k := by
  rw [indexBy_getElem? id xs h]
  constructor
  · intro hx
    exact ⟨List.mem_of_find?_eq_some hx, by simpa using List.find?_some hx⟩
  · rintro ⟨hx, rfl⟩
    cases hf : xs.find? fun y => id y = id x with
    | none =>
      rw [List.find?_eq_none] at hf
      exact absurd (hf x hx) (by simp)
    | some y =>
      have hy : id y = id x := by simpa using List.find?_some hf
      rw [Option.some.injEq]
      exact List.inj_on_of_nodup_map h (List.mem_of_find?_eq_some hf) hx hy

theorem indexBy_eq_none_iff {α : Type} {id : α → UInt64} {xs : List α} (h : (xs.map id).Nodup)
    (k : UInt64) : (indexBy id xs)[k]? = none ↔ k ∉ xs.map id := by
  rw [indexBy_getElem? id xs h, List.find?_eq_none]
  simp

instance lawfulOrderMaxUInt64 : Std.LawfulOrderMax UInt64 := by
  apply Std.LawfulOrderMax.of_max_le_iff
  · intro a b c
    change (if a ≤ b then b else a) ≤ c ↔ _
    split_ifs with h <;> simp only [UInt64.le_iff_toNat_le] at * <;> omega
  · intro a b
    change (if a ≤ b then b else a) = a ∨ (if a ≤ b then b else a) = b
    split_ifs <;> simp

theorem le_maxId {α : Type} (id : α → UInt64) {xs : List α} {x : α} (h : x ∈ xs) :
    id x ≤ maxId id xs := by
  unfold maxId
  cases hm : (xs.map id).max? with
  | none =>
    rw [List.max?_eq_none_iff, List.map_eq_nil_iff] at hm
    simp [hm] at h
  | some m => exact (List.max?_eq_some_iff.mp hm).2 _ (List.mem_map_of_mem h)

/-- What the loop of `relocate` adds: copies under fresh ids, and the map that
sends each old id to the copy's. -/
structure Relocated {α : Type} (id : α → UInt64) (copy : α → UInt64 → Except ProfileError α)
    (xs : List α) (next : UInt64) (ids ids' : Std.ExtHashMap UInt64 UInt64) (copies : List α) :
    Prop where
  nodup : (copies.map id).Nodup
  fresh : ∀ y ∈ copies, next < id y
  other : ∀ k, k ∉ xs.map id → ids'[k]? = ids[k]?
  copied : ∀ x ∈ xs, ∃ y ∈ copies, copy x (id y) = .ok y ∧ ids'[id x]? = some (id y)

theorem relocate_spec {α : Type} {id : α → UInt64} {copy : α → UInt64 → Except ProfileError α}
    (hid : ∀ x n y, copy x n = .ok y → id y = n) {xs : List α} (hxs : (xs.map id).Nodup)
    {next : UInt64} {ids ids' : Std.ExtHashMap UInt64 UInt64} {out out' : List α}
    (h : relocate id copy xs next ids out = .ok (ids', out')) :
    ∃ copies, out' = out ++ copies ∧ Relocated id copy xs next ids ids' copies ∧
      List.Forall₂ (fun x y => copy x (id y) = .ok y) xs copies := by
  induction xs generalizing next ids out with
  | nil =>
    cases h
    exact ⟨[], by simp, ⟨by simp, by simp, fun _ _ => rfl, by simp⟩, .nil⟩
  | cons x xs ih =>
    rw [List.map_cons, List.nodup_cons] at hxs
    simp only [relocate, bind_eq_ok, orError_eq_ok_iff, addU64_eq_some_iff] at h
    obtain ⟨n, hn, y, hy, hrest⟩ := h
    obtain ⟨copies, rfl, hc, hcopies⟩ := ih hxs.2 hrest
    have hyn : id y = n := hid x n y hy
    have hlt : next < n := by
      rw [UInt64.lt_iff_toNat_lt, hn]
      change next.toNat < next.toNat + 1
      omega
    refine ⟨y :: copies, by simp, ⟨?_, ?_, ?_, ?_⟩, .cons (by rw [hyn]; exact hy) hcopies⟩
    · rw [List.map_cons, List.nodup_cons]
      refine ⟨?_, hc.nodup⟩
      rintro hmem
      obtain ⟨z, hz, hzy⟩ := List.mem_map.mp hmem
      have hlt' := hc.fresh z hz
      rw [hzy, hyn] at hlt'
      exact UInt64.lt_irrefl n hlt'
    · intro z hz
      rcases List.mem_cons.mp hz with rfl | hz
      · rw [hyn]
        exact hlt
      · exact UInt64.lt_trans hlt (hc.fresh z hz)
    · intro k hk
      rw [List.map_cons, List.mem_cons, not_or] at hk
      rw [hc.other k hk.2, Std.ExtHashMap.getElem?_insert, if_neg]
      simpa using fun hx : id x = k => hk.1 hx.symm
    · intro z hz
      rcases List.mem_cons.mp hz with rfl | hz
      · refine ⟨y, List.mem_cons_self, by rw [hyn]; exact hy, ?_⟩
        rw [hc.other _ hxs.1, hyn]
        simp
      · obtain ⟨w, hw, hcopy, hmap⟩ := hc.copied z hz
        exact ⟨w, List.mem_cons_of_mem _ hw, hcopy, hmap⟩

theorem Relocated.append_nodup {α : Type} {id : α → UInt64}
    {copy : α → UInt64 → Except ProfileError α} {xs out copies : List α}
    {ids ids' : Std.ExtHashMap UInt64 UInt64}
    (h : Relocated id copy xs (maxId id out) ids ids' copies) (hout : (out.map id).Nodup) :
    ((out ++ copies).map id).Nodup := by
  rw [List.map_append]
  refine hout.append h.nodup ?_
  intro k hk hk'
  obtain ⟨x, hx, rfl⟩ := List.mem_map.mp hk
  obtain ⟨y, hy, hyx⟩ := List.mem_map.mp hk'
  have hlt := h.fresh y hy
  rw [hyx] at hlt
  exact absurd (le_maxId id hx) (UInt64.not_le.mpr hlt)

theorem internAll_extends (ss : List String) (st : StringTable) :
    st.strings <+: (internAll ss st).2.strings := by
  induction ss generalizing st with
  | nil => exact List.prefix_refl _
  | cons s ss ih => exact (StringTable.intern_extends st s).trans (ih _)

theorem internAll_getElem? (ss : List String) (st : StringTable)
    (hlen : (internAll ss st).2.strings.length < 2 ^ 64) {n : ℕ} {s : String}
    (hs : ss[n]? = some s) : ∃ id, (internAll ss st).1[n]? = some id ∧
      (internAll ss st).2.strings[id.toNat]? = some s := by
  induction ss generalizing st n with
  | nil => simp at hs
  | cons head ss ih =>
    have hextends := internAll_extends ss (st.intern head).2
    cases n with
    | zero =>
      rw [List.getElem?_cons_zero, Option.some.injEq] at hs
      subst hs
      refine ⟨(st.intern head).1, rfl, ?_⟩
      apply getElem?_of_extension hextends
      exact StringTable.intern_getElem? st head (lt_of_le_of_lt hextends.length_le hlen)
    | succ n => exact ih (st.intern head).2 hlen hs

def renameLine (function : UInt64 → UInt64) (line : Line) : Line :=
  { line with functionId := function line.functionId }

def renameLabel (str : UInt64 → UInt64) (label : Label) : Label :=
  { label with
    key := str label.key
    strIndex := str label.strIndex
    numUnit := str label.numUnit }

/-- `m'` is `m` under other ids. -/
structure SameMapping (str : UInt64 → UInt64) (m m' : Mapping) : Prop where
  memoryStart : m'.memoryStart = m.memoryStart
  fileOffset : m'.fileOffset = m.fileOffset
  filename : m'.filename = str m.filename
  buildId : m'.buildId = str m.buildId

/-- `f'` is `f` under other ids. -/
structure SameFunction (str : UInt64 → UInt64) (f f' : Function) : Prop where
  name : f'.name = str f.name
  systemName : f'.systemName = str f.systemName
  filename : f'.filename = str f.filename
  startLine : f'.startLine = f.startLine

/-- Everything `source` resolves, `out` resolves under the renamed ids. -/
structure Carries (source out : ProfileIndex) (str function location : UInt64 → UInt64) :
    Prop where
  empty : source.string 0 = .ok "" ∧ out.string 0 = .ok ""
  string : ∀ id s, source.string id = .ok s → out.string (str id) = .ok s
  functions : ∀ id f, source.functions[id]? = some f →
    ∃ f', out.functions[function id]? = some f' ∧ SameFunction str f f'
  locations : ∀ id l, source.locations[id]? = some l →
    ∃ l', out.locations[location id]? = some l' ∧ l'.address = l.address ∧
      l'.lines = l.lines.map (renameLine function) ∧
      Option.Rel (SameMapping str) source.mappings[l.mappingId]? out.mappings[l'.mappingId]?

namespace ProfileIndex

/-- With index 0 empty, the test `build_id != 0` decides nothing. -/
theorem binary_some_eq_ok_iff {index : ProfileIndex} (h : index.string 0 = .ok "") (m : Mapping)
    (s : String) : index.binary (some m) = .ok s ↔
      ∃ b, index.string m.buildId = .ok b ∧
        if b ≠ "" then s = b else index.string m.filename = .ok s := by
  unfold binary
  by_cases hb : m.buildId = 0
  · simp [hb, h, bind, Except.bind]
  · cases hs : index.string m.buildId with
    | error e => simp [hb, hs, bind, Except.bind]
    | ok b => by_cases he : b = "" <;> simp [hb, hs, he, bind, Except.bind, eq_comm]

theorem relativeAddress_carried {l l' : Location} (h : l'.address = l.address)
    {str : UInt64 → UInt64} {m m' : Option Mapping} (hm : Option.Rel (SameMapping str) m m') :
    relativeAddress l' m' = relativeAddress l m := by
  cases hm with
  | none => exact h
  | some same =>
    simp only [relativeAddress, h, same.memoryStart, same.fileOffset]

variable {source out : ProfileIndex} {str function location : UInt64 → UInt64}
  (h : Carries source out str function location)
include h

theorem binary_carried {m m' : Option Mapping} (hm : Option.Rel (SameMapping str) m m')
    {s : String} (hs : source.binary m = .ok s) : out.binary m' = .ok s := by
  cases hm with
  | none => exact hs
  | some hm =>
    rw [binary_some_eq_ok_iff h.empty.1] at hs
    obtain ⟨b, hb, hf⟩ := hs
    rw [binary_some_eq_ok_iff h.empty.2, hm.buildId, hm.filename]
    refine ⟨b, h.string _ _ hb, ?_⟩
    split_ifs at hf ⊢ with he
    · exact hf
    · exact h.string _ _ hf

theorem lineKey_carried {line : Line} {key : LineKey} (hk : source.lineKey line = .ok key) :
    out.lineKey (renameLine function line) = .ok key := by
  simp only [lineKey, bind_eq_ok, orError_eq_ok_iff] at hk ⊢
  obtain ⟨f, hf, name, hname, systemName, hsystem, filename, hfile, hkey⟩ := hk
  obtain ⟨f', hf', same⟩ := h.functions _ f hf
  refine ⟨f', hf', name, ?_, systemName, ?_, filename, ?_, ?_⟩
  · rw [same.name]
    exact h.string _ _ hname
  · rw [same.systemName]
    exact h.string _ _ hsystem
  · rw [same.filename]
    exact h.string _ _ hfile
  · rw [same.startLine]
    exact hkey

theorem frameKey_carried {id : UInt64} {key : FrameKey} (hk : source.frameKey id = .ok key) :
    out.frameKey (location id) = .ok key := by
  simp only [frameKey, bind_eq_ok, orError_eq_ok_iff] at hk ⊢
  obtain ⟨l, hl, lines, hlines, binary, hbinary, hkey⟩ := hk
  obtain ⟨l', hl', haddress, hlines', hmapping⟩ := h.locations id l hl
  refine ⟨l', hl', lines, ?_, binary, binary_carried h hmapping hbinary, ?_⟩
  · rw [hlines']
    exact mapM_map_eq_ok _ hlines fun line _ k hk => lineKey_carried h hk
  · rw [relativeAddress_carried haddress hmapping]
    exact hkey

theorem labelKey_carried {label : Label} {key : LabelKey} (hk : source.labelKey label = .ok key) :
    out.labelKey (renameLabel str label) = .ok key := by
  simp only [labelKey, bind_eq_ok] at hk ⊢
  obtain ⟨name, hname, text, htext, unit, hunit, hkey⟩ := hk
  exact ⟨name, h.string _ _ hname, text, h.string _ _ htext, unit, h.string _ _ hunit, hkey⟩

theorem sampleKey_carried {toJson : List FrameKey × List LabelKey → String} {s s' : Sample}
    (hids : s'.locationIds = s.locationIds.map location)
    (hlabels : s'.labels = s.labels.map (renameLabel str)) {key : String}
    (hk : source.sampleKey toJson s = .ok key) : out.sampleKey toJson s' = .ok key := by
  simp only [sampleKey, bind_eq_ok] at hk ⊢
  obtain ⟨stack, hstack, labels, hl, hkey⟩ := hk
  refine ⟨stack, ?_, labels, ?_, hkey⟩
  · rw [hids]
    exact mapM_map_eq_ok _ hstack fun id _ k hk => frameKey_carried h hk
  · rw [hlabels]
    exact mapM_map_eq_ok _ hl fun label _ k hk => labelKey_carried h hk

end ProfileIndex

theorem string_zero {p : PprofProfile} {strings : List String} (h : strings.head? = some "")
    (hp : strings <+: p.strings.strings) : (ProfileIndex.new p).string 0 = .ok "" := by
  rw [List.head?_eq_getElem?] at h
  unfold ProfileIndex.string
  rw [orError_eq_ok_iff]
  exact getElem?_of_extension hp h

namespace Valid

variable {p : PprofProfile} (h : Valid p)

theorem string_ok {id : UInt64} (hid : InStrings p id) :
    ∃ s, (ProfileIndex.new p).string id = .ok s :=
  ⟨_, (orError_eq_ok_iff _ _ _).mpr (List.getElem?_eq_getElem hid)⟩

include h

theorem function_found {id : UInt64} (hid : id ∈ p.functions.map Function.id) :
    ∃ f ∈ p.functions, (ProfileIndex.new p).functions[id]? = some f := by
  obtain ⟨f, hf, hfid⟩ := List.mem_map.mp hid
  exact ⟨f, hf, (indexBy_eq_some_iff h.functionIds.1 id f).mpr ⟨hf, hfid⟩⟩

theorem lineKey_ok {l : Location} (hl : l ∈ p.locations) {line : Line} (hline : line ∈ l.lines) :
    ∃ key, (ProfileIndex.new p).lineKey line = .ok key := by
  obtain ⟨f, hf, hfound⟩ := h.function_found ((h.location l hl).2 line hline)
  obtain ⟨hn, hs, hfile⟩ := h.function f hf
  obtain ⟨name, hname⟩ := string_ok hn
  obtain ⟨systemName, hsystem⟩ := string_ok hs
  obtain ⟨filename, hfilename⟩ := string_ok hfile
  simp only [ProfileIndex.lineKey, bind_eq_ok, orError_eq_ok_iff]
  exact ⟨_, f, hfound, name, hname, systemName, hsystem, filename, hfilename, rfl⟩

theorem binary_ok (id : UInt64) :
    ∃ s, (ProfileIndex.new p).binary (ProfileIndex.new p).mappings[id]? = .ok s := by
  cases hm : (ProfileIndex.new p).mappings[id]? with
  | none => exact ⟨"", rfl⟩
  | some m =>
    obtain ⟨hmem, -⟩ := (indexBy_eq_some_iff h.mappingIds.1 id m).mp hm
    obtain ⟨hf, hb⟩ := h.mapping m hmem
    obtain ⟨buildId, hbuild⟩ := string_ok hb
    obtain ⟨filename, hfilename⟩ := string_ok hf
    have hzero := string_zero h.emptyFirst (List.prefix_refl p.strings.strings)
    simp only [ProfileIndex.binary_some_eq_ok_iff hzero]
    by_cases he : buildId = ""
    · exact ⟨filename, buildId, hbuild, by rw [if_neg (by simpa using he)]; exact hfilename⟩
    · exact ⟨buildId, buildId, hbuild, by rw [if_pos he]⟩

theorem frameKey_ok {id : UInt64} (hid : id ∈ p.locations.map Location.id) :
    ∃ key, (ProfileIndex.new p).frameKey id = .ok key := by
  obtain ⟨l, hl, hlid⟩ := List.mem_map.mp hid
  have hfound : (ProfileIndex.new p).locations[id]? = some l :=
    (indexBy_eq_some_iff h.locationIds.1 id l).mpr ⟨hl, hlid⟩
  obtain ⟨lines, hlines⟩ := mapM_ok_of_forall fun line hline => h.lineKey_ok hl hline
  obtain ⟨binary, hbinary⟩ := h.binary_ok l.mappingId
  simp only [ProfileIndex.frameKey, bind_eq_ok, orError_eq_ok_iff]
  exact ⟨_, l, hfound, lines, hlines, binary, hbinary, rfl⟩

theorem labelKey_ok {s : Sample} (hs : s ∈ p.samples) {label : Label} (hl : label ∈ s.labels) :
    ∃ key, (ProfileIndex.new p).labelKey label = .ok key := by
  obtain ⟨hk, ht, hu⟩ := (h.sample s hs).2 label hl
  obtain ⟨key, hkey⟩ := string_ok hk
  obtain ⟨text, htext⟩ := string_ok ht
  obtain ⟨unit, hunit⟩ := string_ok hu
  simp only [ProfileIndex.labelKey, bind_eq_ok]
  exact ⟨_, key, hkey, text, htext, unit, hunit, rfl⟩

theorem sampleKey_ok (toJson : List FrameKey × List LabelKey → String) {s : Sample}
    (hs : s ∈ p.samples) : ∃ key, (ProfileIndex.new p).sampleKey toJson s = .ok key := by
  obtain ⟨stack, hstack⟩ := mapM_ok_of_forall fun id hid => h.frameKey_ok ((h.sample s hs).1 id hid)
  obtain ⟨labels, hlabels⟩ := mapM_ok_of_forall fun label hl => h.labelKey_ok hs hl
  simp only [ProfileIndex.sampleKey, bind_eq_ok]
  exact ⟨_, stack, hstack, labels, hlabels, rfl⟩

end Valid

theorem relocate_ok {α : Type} {id : α → UInt64} {copy : α → UInt64 → Except ProfileError α}
    {xs : List α} (h : ∀ x ∈ xs, ∀ n, ∃ y, copy x n = .ok y) {next : UInt64}
    (hlt : next.toNat + xs.length < 2 ^ 64) (ids : Std.ExtHashMap UInt64 UInt64) (out : List α) :
    ∃ r, relocate id copy xs next ids out = .ok r := by
  induction xs generalizing next ids out with
  | nil => exact ⟨_, rfl⟩
  | cons x xs ih =>
    rw [List.forall_mem_cons] at h
    rw [List.length_cons] at hlt
    have hadd : addU64 next 1 = some (next + 1) := by
      rw [addU64, if_pos]
      change next.toNat + 1 < 2 ^ 64
      omega
    have hnext := (addU64_eq_some_iff next 1 (next + 1)).mp hadd
    change (next + 1).toNat = next.toNat + 1 at hnext
    obtain ⟨y, hy⟩ := h.1 (next + 1)
    have hlt' : (next + 1).toNat + xs.length < 2 ^ 64 := by omega
    obtain ⟨r, hr⟩ := ih h.2 hlt' (ids.insert (id x) (next + 1)) (out ++ [y])
    refine ⟨r, ?_⟩
    simp only [relocate, bind_eq_ok, orError_eq_ok_iff]
    exact ⟨next + 1, hadd, y, hy, hr⟩

theorem internAll_ids_length (ss : List String) (st : StringTable) :
    (internAll ss st).1.length = ss.length := by
  induction ss generalizing st with
  | nil => rfl
  | cons s ss ih => exact congrArg (· + 1) (ih (st.intern s).2)

section Copies

variable {base : PprofProfile} {strings : List UInt64}
  (hlen : base.strings.strings.length ≤ strings.length)
include hlen

theorem remapString_ok {id : UInt64} (hid : InStrings base id) :
    ∃ id', remapString strings id = .ok id' :=
  ⟨_, (orError_eq_ok_iff _ _ _).mpr (List.getElem?_eq_getElem (lt_of_lt_of_le hid hlen))⟩

theorem copyMapping_ok (h : Valid base) {m : Mapping} (hm : m ∈ base.mappings) (n : UInt64) :
    ∃ m', copyMapping strings m n = .ok m' := by
  obtain ⟨hf, hb⟩ := h.mapping m hm
  obtain ⟨filename, hfilename⟩ := remapString_ok hlen hf
  obtain ⟨buildId, hbuild⟩ := remapString_ok hlen hb
  simp only [copyMapping, bind_eq_ok]
  exact ⟨_, filename, hfilename, buildId, hbuild, rfl⟩

theorem copyFunction_ok (h : Valid base) {f : Function} (hf : f ∈ base.functions) (n : UInt64) :
    ∃ f', copyFunction strings f n = .ok f' := by
  obtain ⟨hn, hs, hfile⟩ := h.function f hf
  obtain ⟨name, hname⟩ := remapString_ok hlen hn
  obtain ⟨systemName, hsystem⟩ := remapString_ok hlen hs
  obtain ⟨filename, hfilename⟩ := remapString_ok hlen hfile
  simp only [copyFunction, bind_eq_ok]
  exact ⟨_, name, hname, systemName, hsystem, filename, hfilename, rfl⟩

theorem copyLabel_ok (h : Valid base) {s : Sample} (hs : s ∈ base.samples) {label : Label}
    (hl : label ∈ s.labels) : ∃ label', copyLabel strings label = .ok label' := by
  obtain ⟨hk, ht, hu⟩ := (h.sample s hs).2 label hl
  obtain ⟨key, hkey⟩ := remapString_ok hlen hk
  obtain ⟨text, htext⟩ := remapString_ok hlen ht
  obtain ⟨unit, hunit⟩ := remapString_ok hlen hu
  simp only [copyLabel, bind_eq_ok]
  exact ⟨_, key, hkey, text, htext, unit, hunit, rfl⟩

end Copies

/-- The map of ids that `relocate` builds knows every id of the table. -/
theorem Relocated.found {α : Type} {id : α → UInt64}
    {copy : α → UInt64 → Except ProfileError α} {xs copies : List α} {next : UInt64}
    {ids ids' : Std.ExtHashMap UInt64 UInt64} (h : Relocated id copy xs next ids ids' copies)
    {k : UInt64} (hk : k ∈ xs.map id) : ∃ k', ids'[k]? = some k' := by
  obtain ⟨x, hx, rfl⟩ := List.mem_map.mp hk
  obtain ⟨y, -, -, hy⟩ := h.copied x hx
  exact ⟨id y, hy⟩

theorem copyLocation_ok {base : PprofProfile} (h : Valid base) {strings : List UInt64}
    {nextMapping nextFunction : UInt64} {mappingIds functionIds : Std.ExtHashMap UInt64 UInt64}
    {mappings : List Mapping} {functions : List Function}
    (hm : Relocated Mapping.id (copyMapping strings) base.mappings nextMapping
      (Std.ExtHashMap.ofList [(0, 0)]) mappingIds mappings)
    (hf : Relocated Function.id (copyFunction strings) base.functions nextFunction
      (Std.ExtHashMap.ofList [(0, 0)]) functionIds functions)
    {l : Location} (hl : l ∈ base.locations) (n : UInt64) :
    ∃ l', copyLocation mappingIds functionIds l n = .ok l' := by
  obtain ⟨hmapping, hlines⟩ := h.location l hl
  have hid : ∃ k, mappingIds[l.mappingId]? = some k := by
    rcases hmapping with hz | hmem
    · rw [hz, hm.other 0 h.mappingIds.2]
      exact ⟨0, by simp⟩
    · exact hm.found hmem
  obtain ⟨mappingId, hid⟩ := hid
  obtain ⟨lines, hl'⟩ : ∃ lines, l.lines.mapM (copyLine functionIds) = .ok lines := by
    refine mapM_ok_of_forall fun line hline => ?_
    obtain ⟨k, hk⟩ := hf.found (hlines line hline)
    simp only [copyLine, bind_eq_ok, orError_eq_ok_iff]
    exact ⟨_, k, hk, rfl⟩
  simp only [copyLocation, bind_eq_ok, orError_eq_ok_iff]
  exact ⟨_, mappingId, hid, lines, hl', rfl⟩

end PProfessor.Heap
