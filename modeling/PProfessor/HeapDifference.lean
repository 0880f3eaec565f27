import PProfessor.Columns
import PProfessor.HeapRelocation
import PProfessor.KeyedSum

set_option autoImplicit false

/-!
# Heap difference is subtraction

Every sample of a difference has the key it had in its own profile, and the
difference holds under each key the cost of `current` less that of `base`.
-/
namespace PProfessor.Heap
open CheckedArith Columns Fallible KeyedSum Pprof

/-- How the tables of `out` come from those of `base` and `current`. -/
structure Merged (base current out : PprofProfile) (strings : List UInt64)
    (functionIds locationIds : Std.ExtHashMap UInt64 UInt64) : Prop where
  baseValid : Valid base
  currentValid : Valid current
  stringsKept : current.strings.strings <+: out.strings.strings
  stringsMoved : ∀ (n : ℕ) (s : String), base.strings.strings[n]? = some s →
    ∃ id : UInt64, strings[n]? = some id ∧ out.strings.strings[id.toNat]? = some s
  tables : ∃ mappings functions locations, ∃ mappingIds : Std.ExtHashMap UInt64 UInt64,
    (out.mappings = current.mappings ++ mappings ∧
      Relocated Mapping.id (copyMapping strings) base.mappings (maxId Mapping.id current.mappings)
        (Std.ExtHashMap.ofList [(0, 0)]) mappingIds mappings) ∧
    (out.functions = current.functions ++ functions ∧
      Relocated Function.id (copyFunction strings) base.functions
        (maxId Function.id current.functions) (Std.ExtHashMap.ofList [(0, 0)]) functionIds
        functions) ∧
    (out.locations = current.locations ++ locations ∧
      Relocated Location.id (copyLocation mappingIds functionIds) base.locations
        (maxId Location.id current.locations) ∅ locationIds locations)

def moveString (strings : List UInt64) (id : UInt64) : UInt64 := strings[id.toNat]?.getD 0

def moveId (ids : Std.ExtHashMap UInt64 UInt64) (id : UInt64) : UInt64 := ids[id]?.getD 0

theorem remapString_eq {strings : List UInt64} {id id' : UInt64}
    (h : remapString strings id = .ok id') : id' = moveString strings id := by
  unfold remapString at h
  rw [orError_eq_ok_iff] at h
  simp [moveString, h]

theorem copyMapping_same {strings : List UInt64} {m m' : Mapping} {next : UInt64}
    (h : copyMapping strings m next = .ok m') :
    m'.id = next ∧ SameMapping (moveString strings) m m' := by
  simp only [copyMapping, bind_eq_ok, Except.ok.injEq] at h
  obtain ⟨filename, hf, buildId, hb, rfl⟩ := h
  exact ⟨rfl, rfl, rfl, remapString_eq hf, remapString_eq hb⟩

theorem copyFunction_same {strings : List UInt64} {f f' : Function} {next : UInt64}
    (h : copyFunction strings f next = .ok f') :
    f'.id = next ∧ SameFunction (moveString strings) f f' := by
  simp only [copyFunction, bind_eq_ok, Except.ok.injEq] at h
  obtain ⟨name, hn, systemName, hs, filename, hf, rfl⟩ := h
  exact ⟨rfl, remapString_eq hn, remapString_eq hs, remapString_eq hf, rfl⟩

theorem copyLine_eq {functionIds : Std.ExtHashMap UInt64 UInt64} (line line' : Line)
    (h : copyLine functionIds line = .ok line') :
    line' = renameLine (moveId functionIds) line := by
  simp only [copyLine, bind_eq_ok, orError_eq_ok_iff, Except.ok.injEq] at h
  obtain ⟨id, hid, rfl⟩ := h
  simp [renameLine, moveId, hid]

theorem copyLocation_same {mappingIds functionIds : Std.ExtHashMap UInt64 UInt64}
    {l l' : Location} {next : UInt64}
    (h : copyLocation mappingIds functionIds l next = .ok l') :
    l'.id = next ∧ l'.address = l.address ∧ mappingIds[l.mappingId]? = some l'.mappingId ∧
      l'.lines = l.lines.map (renameLine (moveId functionIds)) := by
  simp only [copyLocation, bind_eq_ok, orError_eq_ok_iff, Except.ok.injEq] at h
  obtain ⟨mappingId, hm, lines, hl, rfl⟩ := h
  exact ⟨rfl, rfl, hm, mapM_eq_map copyLine_eq hl⟩

theorem copyLabel_eq {strings : List UInt64} (label label' : Label)
    (h : copyLabel strings label = .ok label') :
    label' = renameLabel (moveString strings) label := by
  simp only [copyLabel, bind_eq_ok, Except.ok.injEq] at h
  obtain ⟨key, hk, text, ht, unit, hu, rfl⟩ := h
  rw [remapString_eq hk, remapString_eq ht, remapString_eq hu]
  rfl

theorem Relocated.append_uniqueIds {α : Type} {id : α → UInt64}
    {copy : α → UInt64 → Except ProfileError α} {xs out copies : List α}
    {ids ids' : Std.ExtHashMap UInt64 UInt64}
    (h : Relocated id copy xs (maxId id out) ids ids' copies) (hout : UniqueIds (out.map id)) :
    UniqueIds ((out ++ copies).map id) := by
  refine ⟨h.append_nodup hout.1, ?_⟩
  rw [List.map_append, List.mem_append, not_or]
  refine ⟨hout.2, ?_⟩
  intro hz
  obtain ⟨y, hy, hy0⟩ := List.mem_map.mp hz
  have hlt := h.fresh y hy
  rw [hy0, UInt64.lt_iff_toNat_lt] at hlt
  exact absurd hlt (Nat.not_lt_zero _)

namespace Merged

variable {base current out : PprofProfile} {strings : List UInt64}
  {functionIds locationIds : Std.ExtHashMap UInt64 UInt64}
  (h : Merged base current out strings functionIds locationIds)
include h

theorem uniqueIds : UniqueIds (out.mappings.map Mapping.id) ∧
    UniqueIds (out.functions.map Function.id) ∧ UniqueIds (out.locations.map Location.id) := by
  obtain ⟨_, _, _, _, ⟨hm, hmr⟩, ⟨hf, hfr⟩, hl, hlr⟩ := h.tables
  rw [hm, hf, hl]
  exact ⟨hmr.append_uniqueIds h.currentValid.mappingIds,
    hfr.append_uniqueIds h.currentValid.functionIds,
    hlr.append_uniqueIds h.currentValid.locationIds⟩

/-- The samples of `current` keep their ids. -/
theorem current_carries :
    Carries (.new current) (.new out) (fun id => id) (fun id => id) (fun id => id) := by
  obtain ⟨hmu, hfu, hlu⟩ := h.uniqueIds
  obtain ⟨_, _, _, _, ⟨hm, -⟩, ⟨hf, -⟩, hl, -⟩ := h.tables
  refine ⟨⟨string_zero h.currentValid.emptyFirst (List.prefix_refl _),
    string_zero h.currentValid.emptyFirst h.stringsKept⟩, ?_, ?_, ?_⟩
  · intro id s hs
    unfold ProfileIndex.string at hs ⊢
    rw [orError_eq_ok_iff] at hs ⊢
    exact getElem?_of_extension h.stringsKept hs
  · intro id f hid
    obtain ⟨hmem, rfl⟩ := (indexBy_eq_some_iff h.currentValid.functionIds.1 id f).mp hid
    refine ⟨f, (indexBy_eq_some_iff hfu.1 f.id f).mpr ⟨?_, rfl⟩, rfl, rfl, rfl, rfl⟩
    rw [hf]
    exact List.mem_append_left _ hmem
  · intro id l hid
    obtain ⟨hmem, rfl⟩ := (indexBy_eq_some_iff h.currentValid.locationIds.1 id l).mp hid
    refine ⟨l, (indexBy_eq_some_iff hlu.1 l.id l).mpr ⟨?_, rfl⟩, rfl, ?_, ?_⟩
    · rw [hl]
      exact List.mem_append_left _ hmem
    · exact (List.map_id l.lines).symm
    · change Option.Rel _ (indexBy Mapping.id current.mappings)[l.mappingId]?
        (indexBy Mapping.id out.mappings)[l.mappingId]?
      rcases (h.currentValid.location l hmem).1 with hz | hin
      · rw [hz, (indexBy_eq_none_iff h.currentValid.mappingIds.1 0).mpr h.currentValid.mappingIds.2,
          (indexBy_eq_none_iff hmu.1 0).mpr hmu.2]
        exact .none
      · obtain ⟨m, hmm, hmid⟩ := List.mem_map.mp hin
        have hout : m ∈ out.mappings := by
          rw [hm]
          exact List.mem_append_left _ hmm
        rw [(indexBy_eq_some_iff h.currentValid.mappingIds.1 _ m).mpr ⟨hmm, hmid⟩,
          (indexBy_eq_some_iff hmu.1 _ m).mpr ⟨hout, hmid⟩]
        exact .some ⟨rfl, rfl, rfl, rfl⟩

/-- The samples of `base` change theirs. -/
theorem base_carries :
    Carries (.new base) (.new out) (moveString strings) (moveId functionIds)
      (moveId locationIds) := by
  obtain ⟨hmu, hfu, hlu⟩ := h.uniqueIds
  obtain ⟨_, _, _, mappingIds, ⟨hm, hmr⟩, ⟨hf, hfr⟩, hl, hlr⟩ := h.tables
  refine ⟨⟨string_zero h.baseValid.emptyFirst (List.prefix_refl _),
    string_zero h.currentValid.emptyFirst h.stringsKept⟩, ?_, ?_, ?_⟩
  · intro id s hs
    unfold ProfileIndex.string at hs ⊢
    rw [orError_eq_ok_iff] at hs ⊢
    obtain ⟨id', hid, hs'⟩ := h.stringsMoved _ s hs
    rw [moveString, hid]
    exact hs'
  · intro id f hid
    obtain ⟨hmem, rfl⟩ := (indexBy_eq_some_iff h.baseValid.functionIds.1 id f).mp hid
    obtain ⟨f', hf', hcopy, hmap⟩ := hfr.copied f hmem
    refine ⟨f', ?_, (copyFunction_same hcopy).2⟩
    rw [moveId, hmap]
    apply (indexBy_eq_some_iff hfu.1 f'.id f').mpr
    exact ⟨by rw [hf]; exact List.mem_append_right _ hf', rfl⟩
  · intro id l hid
    obtain ⟨hmem, rfl⟩ := (indexBy_eq_some_iff h.baseValid.locationIds.1 id l).mp hid
    obtain ⟨l', hl', hcopy, hmap⟩ := hlr.copied l hmem
    obtain ⟨-, haddress, hmapping, hlines⟩ := copyLocation_same hcopy
    refine ⟨l', ?_, haddress, hlines, ?_⟩
    · rw [moveId, hmap]
      apply (indexBy_eq_some_iff hlu.1 l'.id l').mpr
      exact ⟨by rw [hl]; exact List.mem_append_right _ hl', rfl⟩
    · change Option.Rel _ (indexBy Mapping.id base.mappings)[l.mappingId]?
        (indexBy Mapping.id out.mappings)[l'.mappingId]?
      rcases (h.baseValid.location l hmem).1 with hz | hin
      · have hz' : l'.mappingId = 0 := by
          rw [hz, hmr.other 0 h.baseValid.mappingIds.2] at hmapping
          simpa [eq_comm] using hmapping
        rw [hz, hz', (indexBy_eq_none_iff h.baseValid.mappingIds.1 0).mpr h.baseValid.mappingIds.2,
          (indexBy_eq_none_iff hmu.1 0).mpr hmu.2]
        exact .none
      · obtain ⟨m, hmm, hmid⟩ := List.mem_map.mp hin
        obtain ⟨m', hm', hmcopy, hmmap⟩ := hmr.copied m hmm
        rw [hmid, hmapping, Option.some.injEq] at hmmap
        have hout : m' ∈ out.mappings := by
          rw [hm]
          exact List.mem_append_right _ hm'
        rw [(indexBy_eq_some_iff h.baseValid.mappingIds.1 _ m).mpr ⟨hmm, hmid⟩,
          (indexBy_eq_some_iff hmu.1 _ m').mpr ⟨hout, hmmap.symm⟩]
        exact .some (copyMapping_same hmcopy).2

end Merged

/-! ## The sample loops -/

/-- `add` works column by column. -/
theorem add_spec {target source result : List Int64} {sign : Int64}
    (hlen : target.length = source.length) (h : add target source sign = .ok result) :
    result.length = target.length ∧ ∀ j, cell result j =
      cell target j + if sign = 1 then cell source j else -cell source j := by
  induction target generalizing source result with
  | nil =>
    cases source with
    | nil =>
      cases h
      simp
    | cons b source => simp at hlen
  | cons a target ih =>
    cases source with
    | nil => simp at hlen
    | cons b source =>
      simp only [add, bind_eq_ok, orError_eq_ok_iff, Except.ok.injEq] at h
      obtain ⟨sum, hsum, rest, hrest, rfl⟩ := h
      obtain ⟨hrl, hrc⟩ := ih (by simpa using hlen) hrest
      refine ⟨by simp [hrl], ?_⟩
      intro j
      cases j with
      | zero =>
        simp only [cell_cons_zero]
        split_ifs at hsum ⊢
        · exact (addI64_eq_some_iff a b sum).mp hsum
        · rw [(subI64_eq_some_iff a b sum).mp hsum, sub_eq_add_neg]
      | succ j => simpa using hrc j

/-- The columns of `values` that `order` selects. -/
theorem select_spec {values selected : List Int64} {order : List ℕ}
    (h : order.mapM (fun i => orError .panic values[i]?) = .ok selected) (j : ℕ) :
    cell selected j = (order[j]?.map (cell values)).getD 0 := by
  cases ho : order[j]? with
  | none =>
    have hle : selected.length ≤ j := by
      rw [mapM_length h]
      exact List.getElem?_eq_none_iff.mp ho
    rw [cell_of_length_le hle]
    rfl
  | some i =>
    obtain ⟨v, hv, hi⟩ := mapM_getElem? h ho
    rw [orError_eq_ok_iff] at hi
    simp [cell, hv, hi]

theorem negate_spec {values negated : List Int64}
    (h : values.mapM (fun v => orError .differenceOverflow (negI64 v)) = .ok negated) (j : ℕ) :
    cell negated j = -cell values j := by
  cases hv : values[j]? with
  | none =>
    have hle := List.getElem?_eq_none_iff.mp hv
    rw [cell_of_length_le hle, cell_of_length_le (by rwa [mapM_length h]), neg_zero]
  | some v =>
    obtain ⟨w, hw, hn⟩ := mapM_getElem? h hv
    rw [orError_eq_ok_iff, negI64_eq_some_iff] at hn
    simp [cell, hv, hw, hn]

variable (toJson : List FrameKey × List LabelKey → String)

/-- The key of a sample over its own profile. -/
def keyOf (p : PprofProfile) (s : Sample) : Option String :=
  ((ProfileIndex.new p).sampleKey toJson s).toOption

theorem keyOf_eq_some_iff (p : PprofProfile) (s : Sample) (k : String) :
    keyOf toJson p s = some k ↔ (ProfileIndex.new p).sampleKey toJson s = .ok k := by
  unfold keyOf
  cases (ProfileIndex.new p).sampleKey toJson s <;> simp [Except.toOption]

def rowAt (samples : SampleMap) (k : String) (j : ℕ) : ℤ :=
  (samples[k]?.map fun s => cell s.values j).getD 0

/-- What the sample map holds once it stands for the costs `want`. -/
structure Tally (out : ProfileIndex) (width : ℕ) (want : String → ℕ → ℤ)
    (occurs : String → Prop) (samples : SampleMap) : Prop where
  entry : ∀ (k : String) (s : Sample), samples[k]? = some s →
    out.sampleKey toJson s = .ok k ∧ s.values.length = width ∧ occurs k
  row : ∀ k j, rowAt samples k j = want k j

variable {toJson}

/-- One turn of either loop: the row under `key` changes by `delta`. -/
theorem Tally.insert {out : ProfileIndex} {width : ℕ} {want : String → ℕ → ℤ}
    {occurs : String → Prop} {samples : SampleMap} (h : Tally toJson out width want occurs samples)
    {key : String} {s : Sample} {delta : ℕ → ℤ} (hkey : out.sampleKey toJson s = .ok key)
    (hwidth : s.values.length = width)
    (hrow : ∀ j, cell s.values j = rowAt samples key j + delta j) :
    Tally toJson out width (fun k j => want k j + if key = k then delta j else 0)
      (fun k => occurs k ∨ key = k) (samples.insert key s) := by
  constructor
  · intro k t ht
    rw [Std.ExtTreeMap.getElem?_insert] at ht
    split_ifs at ht with hk
    · rw [Std.LawfulEqCmp.compare_eq_iff_eq] at hk
      rw [Option.some.injEq] at ht
      subst hk ht
      exact ⟨hkey, hwidth, .inr rfl⟩
    · obtain ⟨hk', hw, ho⟩ := h.entry k t ht
      exact ⟨hk', hw, .inl ho⟩
  · intro k j
    unfold rowAt
    rw [Std.ExtTreeMap.getElem?_insert]
    by_cases hk : key = k
    · subst hk
      simp only [Std.LawfulEqCmp.compare_eq_iff_eq, if_true, Option.map_some, Option.getD_some]
      rw [hrow, h.row]
    · simp only [Std.LawfulEqCmp.compare_eq_iff_eq, hk, if_false, add_zero]
      exact h.row k j

theorem Tally.congr {out : ProfileIndex} {width : ℕ} {want want' : String → ℕ → ℤ}
    {occurs occurs' : String → Prop} {samples : SampleMap}
    (h : Tally toJson out width want occurs samples) (hwant : ∀ k j, want k j = want' k j)
    (hoccurs : ∀ k, occurs k → occurs' k) : Tally toJson out width want' occurs' samples := by
  constructor
  · intro k s hs
    obtain ⟨hk, hw, ho⟩ := h.entry k s hs
    exact ⟨hk, hw, hoccurs k ho⟩
  · intro k j
    rw [h.row, hwant]

/-- The cost of some samples of `p` under `k`, in the column `j`. -/
def rows (toJson : List FrameKey × List LabelKey → String) (p : PprofProfile)
    (value : ℕ → Sample → ℤ) (done : List Sample) (k : String) (j : ℕ) : ℤ :=
  total (keyOf toJson p) (value j) done (some k)

theorem rows_concat {p : PprofProfile} {s : Sample} {key : String}
    (h : keyOf toJson p s = some key) (value : ℕ → Sample → ℤ) (done : List Sample) (k : String)
    (j : ℕ) : rows toJson p value (done ++ [s]) k j =
      rows toJson p value done k j + if key = k then value j s else 0 := by
  unfold rows
  rw [total_append, total_cons, total_nil, add_zero, h]
  simp only [Option.some.injEq]

theorem Carries.current_key {current out : PprofProfile}
    (h : Carries (.new current) (.new out) (fun id => id) (fun id => id) (fun id => id))
    {s s' : Sample} (hids : s'.locationIds = s.locationIds) (hlabels : s'.labels = s.labels)
    {key : String} (hk : (ProfileIndex.new current).sampleKey toJson s = .ok key) :
    (ProfileIndex.new out).sampleKey toJson s' = .ok key :=
  ProfileIndex.sampleKey_carried h (by rw [hids, List.map_id']) (by
    rw [hlabels]
    exact (List.map_id s.labels).symm) hk

/-- The run of the loop over the samples of `current`. -/
theorem addCurrent_run {current out : PprofProfile} (hv : Valid current)
    (hc : Carries (.new current) (.new out) (fun id => id) (fun id => id) (fun id => id))
    {samples : SampleMap}
    (h : current.samples.foldlM (addCurrent toJson (.new current)) ∅ = .ok samples) :
    Tally toJson (.new out) current.valueTypes.length
      (rows toJson current (fun j s => cell s.values j) current.samples)
      (fun k => ∃ s ∈ current.samples, keyOf toJson current s = some k) samples := by
  refine foldlM_invariant (fun done samples => Tally toJson (.new out)
    current.valueTypes.length (rows toJson current (fun j s => cell s.values j) done)
    (fun k => ∃ s ∈ done, keyOf toJson current s = some k) samples) current.samples ?_ ?_ h
  · exact ⟨by simp, fun _ _ => by simp [rowAt, rows]⟩
  · intro done s samples samples' hinv hs hstep
    simp only [addCurrent, bind_eq_ok] at hstep
    obtain ⟨key, hkey, hstep⟩ := hstep
    have hk := (keyOf_eq_some_iff toJson current s key).mpr hkey
    have hwidth := hv.values s hs
    suffices hins : ∃ s', samples' = samples.insert key s' ∧
        (ProfileIndex.new out).sampleKey toJson s' = .ok key ∧
        s'.values.length = current.valueTypes.length ∧
        ∀ j, cell s'.values j = rowAt samples key j + cell s.values j by
      obtain ⟨s', rfl, hkey', hwidth', hrow⟩ := hins
      refine (hinv.insert hkey' hwidth' hrow).congr ?_ ?_
      · exact fun k j => (rows_concat hk _ done k j).symm
      · rintro k (⟨t, ht, htk⟩ | rfl)
        · exact ⟨t, List.mem_append_left _ ht, htk⟩
        · exact ⟨s, by simp, hk⟩
    cases hsam : samples[key]? with
    | none =>
      rw [hsam, Except.ok.injEq] at hstep
      refine ⟨s, hstep.symm, hc.current_key rfl rfl hkey, hwidth, ?_⟩
      intro j
      simp [rowAt, hsam]
    | some existing =>
      simp only [hsam, bind_eq_ok, Except.ok.injEq] at hstep
      obtain ⟨values, hadd, rfl⟩ := hstep
      obtain ⟨hek, hew, -⟩ := hinv.entry key existing hsam
      obtain ⟨hlen, hcell⟩ := add_spec (hew.trans hwidth.symm) hadd
      refine ⟨{ existing with values := values }, rfl, hek, hlen.trans hew, ?_⟩
      intro j
      rw [hcell, if_pos rfl]
      simp [rowAt, hsam]

/-- Column `j` of the output, read from a sample of `base`. -/
def reordered (order : List ℕ) (j : ℕ) (s : Sample) : ℤ :=
  (order[j]?.map (cell s.values)).getD 0

theorem copySample_spec {strings : List UInt64} {locationIds : Std.ExtHashMap UInt64 UInt64}
    {values : List Int64} {s s' : Sample}
    (h : copySample strings locationIds values s = .ok s') :
    s'.locationIds = s.locationIds.map (moveId locationIds) ∧
    s'.labels = s.labels.map (renameLabel (moveString strings)) ∧
    s'.values.length = values.length ∧ ∀ j, cell s'.values j = -cell values j := by
  simp only [copySample, bind_eq_ok, Except.ok.injEq] at h
  obtain ⟨negated, hneg, ids, hids, labels, hlabels, rfl⟩ := h
  refine ⟨?_, mapM_eq_map copyLabel_eq hlabels, mapM_length hneg, negate_spec hneg⟩
  apply mapM_eq_map _ hids
  intro id id' hid
  rw [orError_eq_ok_iff] at hid
  simp [moveId, hid]

/-- The run of the loop over the samples of `base`. -/
theorem subtractBase_run {base out : PprofProfile} {strings : List UInt64}
    {functionIds locationIds : Std.ExtHashMap UInt64 UInt64}
    (hc : Carries (.new base) (.new out) (moveString strings) (moveId functionIds)
      (moveId locationIds))
    {order : List ℕ} {width : ℕ} (horder : order.length = width) {want : String → ℕ → ℤ}
    {occurs : String → Prop} {samples samples' : SampleMap}
    (hinit : Tally toJson (.new out) width want occurs samples)
    (h : base.samples.foldlM (subtractBase toJson (.new base) order
      (copySample strings locationIds)) samples = .ok samples') :
    Tally toJson (.new out) width
      (fun k j => want k j - rows toJson base (reordered order) base.samples k j)
      (fun k => occurs k ∨ ∃ s ∈ base.samples, keyOf toJson base s = some k) samples' := by
  refine foldlM_invariant (fun done samples => Tally toJson (.new out) width
    (fun k j => want k j - rows toJson base (reordered order) done k j)
    (fun k => occurs k ∨ ∃ s ∈ done, keyOf toJson base s = some k) samples) base.samples ?_ ?_ h
  · exact hinit.congr (by simp [rows]) (fun _ => .inl)
  · intro done s samples samples' hinv hs hstep
    simp only [subtractBase, bind_eq_ok] at hstep
    obtain ⟨key, hkey, values, hvalues, hstep⟩ := hstep
    have hk := (keyOf_eq_some_iff toJson base s key).mpr hkey
    have hwidth : values.length = width := (mapM_length hvalues).trans horder
    have hcells : ∀ j, cell values j = reordered order j s := select_spec hvalues
    suffices hins : ∃ s', samples' = samples.insert key s' ∧
        (ProfileIndex.new out).sampleKey toJson s' = .ok key ∧ s'.values.length = width ∧
        ∀ j, cell s'.values j = rowAt samples key j + -reordered order j s by
      obtain ⟨s', rfl, hkey', hwidth', hrow⟩ := hins
      refine (hinv.insert hkey' hwidth' hrow).congr ?_ ?_
      · intro k j
        rw [rows_concat hk]
        split_ifs <;> ring
      · rintro k ((ho | ⟨t, ht, htk⟩) | rfl)
        · exact .inl ho
        · exact .inr ⟨t, List.mem_append_left _ ht, htk⟩
        · exact .inr ⟨s, by simp, hk⟩
    cases hsam : samples[key]? with
    | none =>
      simp only [hsam, bind_eq_ok, Except.ok.injEq] at hstep
      obtain ⟨moved, hcopy, rfl⟩ := hstep
      obtain ⟨hids, hlabels, hlen, hneg⟩ := copySample_spec hcopy
      refine ⟨moved, rfl, ProfileIndex.sampleKey_carried hc hids hlabels hkey,
        hlen.trans hwidth, ?_⟩
      intro j
      rw [hneg, hcells]
      simp [rowAt, hsam]
    | some existing =>
      simp only [hsam, bind_eq_ok, Except.ok.injEq] at hstep
      obtain ⟨sum, hadd, rfl⟩ := hstep
      obtain ⟨hek, hew, -⟩ := hinv.entry key existing hsam
      obtain ⟨hlen, hcell⟩ := add_spec (hew.trans hwidth.symm) hadd
      refine ⟨{ existing with values := sum }, rfl, hek, hlen.trans hew, ?_⟩
      intro j
      rw [hcell, if_neg (by decide), hcells]
      simp [rowAt, hsam]

/-! ## The difference -/

/-- Reading a tally out as samples drops only rows of zeros. -/
theorem Tally.read {out : PprofProfile} {width : ℕ} {want : String → ℕ → ℤ}
    {occurs : String → Prop} {samples : SampleMap}
    (h : Tally toJson (.new out) width want occurs samples)
    (hout : out.samples =
      (samples.toList.map Prod.snd).filter fun s => s.values.any fun v => v ≠ 0) :
    (∀ k j, rows toJson out (fun j s => cell s.values j) out.samples k j = want k j) ∧
    (out.samples.map (keyOf toJson out)).Nodup ∧
    ∀ s ∈ out.samples, (∃ v ∈ s.values, v ≠ 0) ∧ ∃ k, keyOf toJson out s = some k ∧ occurs k := by
  have hkey : ∀ e ∈ samples.toList, keyOf toJson out e.2 = some e.1 := by
    intro e he
    rw [keyOf_eq_some_iff]
    exact (h.entry e.1 e.2 (Std.ExtTreeMap.mem_toList_iff_getElem?_eq_some.mp he)).1
  have hkeys : (samples.toList.map Prod.snd).map (keyOf toJson out) =
      (samples.toList.map Prod.fst).map some := by
    rw [List.map_map, List.map_map]
    exact List.map_congr_left hkey
  have hnodup : ((samples.toList.map Prod.snd).map (keyOf toJson out)).Nodup := by
    rw [hkeys]
    refine List.Nodup.map (Option.some_injective _) ?_
    have hd := Std.ExtTreeMap.distinct_keys_toList (t := samples)
    rw [List.Nodup, List.pairwise_map]
    exact hd.imp fun hne heq => hne (Std.LawfulEqCmp.compare_eq_iff_eq.mpr heq)
  refine ⟨?_, ?_, ?_⟩
  · intro k j
    rw [← h.row]
    unfold rows rowAt
    rw [hout, total_filter]
    · cases hk : samples[k]? with
      | none =>
        apply total_eq_zero
        intro s hs hsk
        obtain ⟨e, he, rfl⟩ := List.mem_map.mp hs
        rw [hkey e he, Option.some.injEq] at hsk
        rw [Std.ExtTreeMap.mem_toList_iff_getElem?_eq_some, hsk, hk] at he
        cases he
      | some s =>
        have he : (k, s) ∈ samples.toList := Std.ExtTreeMap.mem_toList_iff_getElem?_eq_some.mpr hk
        have hs : s ∈ samples.toList.map Prod.snd := List.mem_map_of_mem he
        rw [← hkey _ he]
        exact total_of_nodup _ _ hnodup hs
    · intro s _ hz
      exact cell_of_zeros (by simpa using hz) j
  · rw [hout]
    exact hnodup.sublist (List.filter_sublist.map _)
  · intro s hs
    rw [hout, List.mem_filter] at hs
    obtain ⟨hs, hz⟩ := hs
    obtain ⟨e, he, rfl⟩ := List.mem_map.mp hs
    have ho := (h.entry e.1 e.2 (Std.ExtTreeMap.mem_toList_iff_getElem?_eq_some.mp he)).2.2
    exact ⟨by simpa using hz, e.1, hkey e he, ho⟩

/-- The value of a sample of `p` for a metric. -/
def metricValue (p : PprofProfile) (metric : String × String) (s : Sample) : ℤ :=
  cell s.values ((types p).idxOf metric)

variable (toJson)

/-- The total of a metric over the samples of `p` with key `k`. -/
def cost (p : PprofProfile) (metric : String × String) (k : String) : ℤ :=
  total (keyOf toJson p) (metricValue p metric) p.samples (some k)

def Occurs (p : PprofProfile) (k : String) : Prop := ∃ s ∈ p.samples, keyOf toJson p s = some k

variable {toJson}

theorem types_kept {current out : PprofProfile} (hv : Valid current)
    (htypes : out.valueTypes = current.valueTypes)
    (hs : current.strings.strings <+: out.strings.strings) : types out = types current := by
  unfold types
  rw [htypes]
  apply List.map_congr_left
  intro v hv'
  have hat : ∀ id, InStrings current id → stringAt out id = stringAt current id := by
    intro id hid
    unfold stringAt
    rw [getElem?_of_extension hs (List.getElem?_eq_getElem hid), List.getElem?_eq_getElem hid]
  obtain ⟨ht, hu⟩ := hv.valueType v hv'
  rw [hat _ ht, hat _ hu]

theorem reordered_metric {base current : PprofProfile} {order : List ℕ}
    (h : (types current).mapM (fun metric => orError .panic ((types base).idxOf? metric)) =
      .ok order) {metric : String × String} (hm : metric ∈ types current) (s : Sample) :
    reordered order ((types current).idxOf metric) s = metricValue base metric s := by
  have hj : (types current)[(types current).idxOf metric]? = some metric := by
    rw [List.getElem?_eq_getElem (List.idxOf_lt_length_of_mem hm), List.getElem_idxOf]
  obtain ⟨i, hi, hf⟩ := mapM_getElem? h hj
  rw [orError_eq_ok_iff] at hf
  have hidx : (types base).idxOf metric = i := by
    rw [List.idxOf_eq_getD_idxOf?, hf]
    rfl
  unfold reordered metricValue
  rw [hi, hidx]
  rfl

theorem rows_eq_cost {p : PprofProfile} {columns : List (String × String)} (h : columns = types p)
    (metric : String × String) (k : String) :
    rows toJson p (fun j s => cell s.values j) p.samples k (columns.idxOf metric) =
      cost toJson p metric k := by
  subst h
  rfl

theorem rows_reordered {base current : PprofProfile} {order : List ℕ}
    (h : (types current).mapM (fun metric => orError .panic ((types base).idxOf? metric)) =
      .ok order) {metric : String × String} (hm : metric ∈ types current) (k : String) :
    rows toJson base (reordered order) base.samples k ((types current).idxOf metric) =
      cost toJson base metric k :=
  total_congr _ _ (fun _ _ => Iff.rfl) fun s _ => reordered_metric h hm s

theorem internAll_length_le (ss : List String) (st : StringTable) :
    (internAll ss st).2.strings.length ≤ st.strings.length + ss.length := by
  induction ss generalizing st with
  | nil => exact Nat.le_refl _
  | cons s ss ih =>
    have hs := StringTable.intern_length_le st s
    have hr := ih (st.intern s).2
    rw [List.length_cons]
    change (internAll ss (st.intern s).2).2.strings.length ≤ _
    omega

theorem difference_strings_length_le {toJson : List FrameKey × List LabelKey → String}
    {base current out : PprofProfile} (h : difference toJson base current = .ok out) :
    out.strings.strings.length ≤
      current.strings.strings.length + base.strings.strings.length + 1 := by
  simp only [difference, bind_eq_ok, Except.ok.injEq] at h
  obtain ⟨_, -, _, -, _, -, _, -, _, -, _, -, _, -, _, -, _, -, _, -, rfl⟩ := h
  have hlast := StringTable.intern_length_le (internAll base.strings.strings current.strings).2
    "Signed heap difference: current snapshot minus base snapshot."
  have hall := internAll_length_le base.strings.strings current.strings
  change ((internAll base.strings.strings current.strings).2.intern _).2.strings.length ≤ _
  omega

/-- The stages of a difference that returns: the tables of `base` behind those
of `current`, the two sample loops and what is read out of their map. -/
structure Stages (toJson : List FrameKey × List LabelKey → String)
    (base current out : PprofProfile) (strings : List UInt64)
    (mappingIds functionIds locationIds : Std.ExtHashMap UInt64 UInt64) (mappings : List Mapping)
    (functions : List Function) (locations : List Location) (order : List ℕ)
    (samples samples' : SampleMap) : Prop where
  merged : Merged base current out strings functionIds locationIds
  mappings : out.mappings = current.mappings ++ mappings ∧
    Relocated Mapping.id (copyMapping strings) base.mappings (maxId Mapping.id current.mappings)
      (Std.ExtHashMap.ofList [(0, 0)]) mappingIds mappings ∧
    List.Forall₂ (fun m m' => copyMapping strings m m'.id = .ok m') base.mappings mappings
  functions : out.functions = current.functions ++ functions ∧
    Relocated Function.id (copyFunction strings) base.functions
      (maxId Function.id current.functions) (Std.ExtHashMap.ofList [(0, 0)]) functionIds
      functions ∧
    List.Forall₂ (fun f f' => copyFunction strings f f'.id = .ok f') base.functions functions
  locations : out.locations = current.locations ++ locations ∧
    Relocated Location.id (copyLocation mappingIds functionIds) base.locations
      (maxId Location.id current.locations) ∅ locationIds locations ∧
    List.Forall₂ (fun l l' => copyLocation mappingIds functionIds l l'.id = .ok l')
      base.locations locations
  metrics : (types base).toFinset = (types current).toFinset
  sameDomains : domains base = domains current
  ordered : (types current).mapM (fun metric => orError .panic ((types base).idxOf? metric)) =
    .ok order
  added : current.samples.foldlM (addCurrent toJson (.new current)) ∅ = .ok samples
  subtracted : base.samples.foldlM
    (subtractBase toJson (.new base) order (copySample strings locationIds)) samples = .ok samples'
  shown : out.samples =
    (samples'.toList.map Prod.snd).filter fun s => s.values.any fun v => v ≠ 0
  header : ∃ comment, out.strings.strings[comment.toNat]? =
      some "Signed heap difference: current snapshot minus base snapshot." ∧
    out = { current with
      strings := out.strings
      mappings := out.mappings
      functions := out.functions
      locations := out.locations
      samples := out.samples
      comments := current.comments ++ [comment] }

theorem difference_stages {toJson : List FrameKey × List LabelKey → String}
    {base current out : PprofProfile} (h : difference toJson base current = .ok out)
    (hlen : out.strings.strings.length < 2 ^ 64) :
    ∃ strings mappingIds functionIds locationIds mappings functions locations order samples
      samples', Stages toJson base current out strings mappingIds functionIds locationIds mappings
        functions locations order samples samples' := by
  simp only [difference, bind_eq_ok, validateProfile_eq_ok_iff, require_eq_ok_iff, exists_const,
    Except.ok.injEq] at h
  obtain ⟨hbase, hcurrent, ⟨hcount, htypes⟩, hdomains, order, horder, samples, hadd,
    ⟨mappingIds, mappings⟩, hmappings, ⟨functionIds, functions⟩, hfunctions,
    ⟨locationIds, locations⟩, hlocations, samples', hsub, hout⟩ := h
  obtain ⟨newMappings, hms, hmr, hmc⟩ := relocate_spec (fun _ _ _ hy => (copyMapping_same hy).1)
    hbase.mappingIds.1 hmappings
  obtain ⟨newFunctions, hfs, hfr, hfc⟩ := relocate_spec
    (fun _ _ _ hy => (copyFunction_same hy).1) hbase.functionIds.1 hfunctions
  obtain ⟨newLocations, hls, hlr, hlc⟩ := relocate_spec
    (fun _ _ _ hy => (copyLocation_same hy).1) hbase.locationIds.1 hlocations
  set table := (internAll base.strings.strings current.strings).2 with htable
  have hlast : table.strings <+: out.strings.strings := by
    rw [← hout]
    exact StringTable.intern_extends table _
  have hms' : out.mappings = current.mappings ++ newMappings := by rw [← hout]; exact hms
  have hfs' : out.functions = current.functions ++ newFunctions := by rw [← hout]; exact hfs
  have hls' : out.locations = current.locations ++ newLocations := by rw [← hout]; exact hls
  have hmerged : Merged base current out (internAll base.strings.strings current.strings).1
      functionIds locationIds := by
    refine ⟨hbase, hcurrent, (internAll_extends _ _).trans hlast, ?_, newMappings, newFunctions,
      newLocations, mappingIds, ⟨hms', hmr⟩, ⟨hfs', hfr⟩, hls', hlr⟩
    intro n s hs
    obtain ⟨id, hid, hs'⟩ := internAll_getElem? base.strings.strings current.strings
      (lt_of_le_of_lt hlast.length_le hlen) hs
    exact ⟨id, hid, getElem?_of_extension hlast hs'⟩
  refine ⟨_, mappingIds, functionIds, locationIds, newMappings, newFunctions, newLocations, order,
    samples, samples', hmerged, ⟨hms', hmr, hmc⟩, ⟨hfs', hfr, hfc⟩, ⟨hls', hlr, hlc⟩, htypes,
    hdomains, horder, hadd, hsub, by rw [← hout], ?_⟩
  refine ⟨(table.intern _).1, ?_, by rw [← hout]⟩
  rw [← hout] at hlen ⊢
  exact StringTable.intern_getElem? table _ hlen

theorem difference_returns {toJson : List FrameKey × List LabelKey → String}
    {base current : PprofProfile} (hbase : Valid base) (hcurrent : Valid current)
    (htypes : (types base).length = (types current).length ∧
      (types base).toFinset = (types current).toFinset)
    (hdomains : domains base = domains current) {order : List ℕ}
    (horder : ((types current).mapM fun metric =>
      orError .panic ((types base).idxOf? metric)) = .ok order) {samples : SampleMap}
    (hadded : current.samples.foldlM (addCurrent toJson (.new current)) ∅ = .ok samples)
    (hmappings : (maxId Mapping.id current.mappings).toNat + base.mappings.length < 2 ^ 64)
    (hfunctions : (maxId Function.id current.functions).toNat + base.functions.length < 2 ^ 64)
    (hlocations : (maxId Location.id current.locations).toNat + base.locations.length < 2 ^ 64)
    (hsubtracted : ∀ copy, ∃ samples',
      base.samples.foldlM (subtractBase toJson (.new base) order copy) samples = .ok samples') :
    ∃ out, difference toJson base current = .ok out := by
  have hlen := (internAll_ids_length base.strings.strings current.strings).ge
  obtain ⟨⟨mappingIds, mappings⟩, hm⟩ := relocate_ok
    (fun m hm n => copyMapping_ok hlen hbase hm n) hmappings (Std.ExtHashMap.ofList [(0, 0)])
    current.mappings
  obtain ⟨⟨functionIds, functions⟩, hf⟩ := relocate_ok
    (fun f hf n => copyFunction_ok hlen hbase hf n) hfunctions (Std.ExtHashMap.ofList [(0, 0)])
    current.functions
  obtain ⟨_, -, hmr, -⟩ := relocate_spec (fun _ _ _ hy => (copyMapping_same hy).1)
    hbase.mappingIds.1 hm
  obtain ⟨_, -, hfr, -⟩ := relocate_spec (fun _ _ _ hy => (copyFunction_same hy).1)
    hbase.functionIds.1 hf
  obtain ⟨⟨locationIds, locations⟩, hl⟩ := relocate_ok
    (fun l hl n => copyLocation_ok hbase hmr hfr hl n) hlocations ∅ current.locations
  obtain ⟨samples', hs⟩ := hsubtracted
    (copySample (internAll base.strings.strings current.strings).1 locationIds)
  simp only [difference, bind_eq_ok, require_eq_ok_iff, exists_const, Except.ok.injEq]
  exact ⟨_, (), (validateProfile_eq_ok_iff _ _).mpr hbase, (),
    (validateProfile_eq_ok_iff _ _).mpr hcurrent, htypes, hdomains, order, horder, samples, hadded,
    (mappingIds, mappings), hm, (functionIds, functions), hf, (locationIds, locations), hl,
    samples', hs, rfl⟩

namespace Stages

variable {toJson : List FrameKey × List LabelKey → String} {base current out : PprofProfile}
  {strings : List UInt64} {mappingIds functionIds locationIds : Std.ExtHashMap UInt64 UInt64}
  {mappings : List Mapping} {functions : List Function} {locations : List Location}
  {order : List ℕ} {samples samples' : SampleMap}
  (h : Stages toJson base current out strings mappingIds functionIds locationIds mappings
    functions locations order samples samples')
include h

theorem types_out : types out = types current := by
  obtain ⟨_, -, hout⟩ := h.header
  exact types_kept h.merged.currentValid (by rw [hout]) h.merged.stringsKept

theorem tally : Tally toJson (.new out) current.valueTypes.length
    (fun k j => rows toJson current (fun j s => cell s.values j) current.samples k j -
      rows toJson base (reordered order) base.samples k j)
    (fun k => Occurs toJson current k ∨ Occurs toJson base k) samples' := by
  have hwidth : order.length = current.valueTypes.length := by
    rw [mapM_length h.ordered, types, List.length_map]
  exact subtractBase_run h.merged.base_carries hwidth
    (addCurrent_run h.merged.currentValid h.merged.current_carries h.added) h.subtracted

end Stages

/-- The difference carries exactly `current` minus `base` under every key, in
the columns of `current`, and no sample that says nothing. -/
theorem difference_subtracts (toJson : List FrameKey × List LabelKey → String)
    (base current out : PprofProfile) (h : difference toJson base current = .ok out)
    (hlen : out.strings.strings.length < 2 ^ 64) :
    (types out = types current ∧ (types current).Nodup ∧
      (types base).Perm (types current)) ∧
    (∀ metric ∈ types current, ∀ k,
      cost toJson out metric k = cost toJson current metric k - cost toJson base metric k) ∧
    (out.samples.map (keyOf toJson out)).Nodup ∧
    ∀ s ∈ out.samples, (∃ v ∈ s.values, v ≠ 0) ∧
      ∃ k, keyOf toJson out s = some k ∧ (Occurs toJson current k ∨ Occurs toJson base k) := by
  obtain ⟨strings, mappingIds, functionIds, locationIds, mappings, functions, locations, order,
    samples, samples', hs⟩ := difference_stages h hlen
  obtain ⟨hrows, hnodup, hentries⟩ := hs.tally.read hs.shown
  have hcurrent := hs.merged.currentValid.types_nodup
  refine ⟨⟨hs.types_out, hcurrent, ?_⟩, ?_, hnodup, hentries⟩
  · exact List.perm_of_nodup_nodup_toFinset_eq hs.merged.baseValid.types_nodup hcurrent hs.metrics
  · intro metric hm k
    have hrow := hrows k ((types current).idxOf metric)
    rw [rows_eq_cost hs.types_out.symm, rows_eq_cost rfl, rows_reordered hs.ordered hm] at hrow
    exact hrow

/-- The JSON text of the key of a sample in line 12 of `fill`. -/
def fillKey : String := "[[[\"cache.so\",0,[[\"fill\",\"fill\",\"\",0,12,0]]]],[]]"

/-- A sample in a function of an image loaded at `start`; each table has one entry, with this id. -/
def filling (id start : UInt64) (types : List ValueType) (values : List Int64) : PprofProfile :=
  { PprofProfile.withStrings (.ofStrings
      ["", "inuse_space", "bytes", "inuse_objects", "count", "cache.so", "fill"]) with
    valueTypes := types
    mappings := [⟨id, start, start + 0x1000, 0, 5, 0, false, false, false, false⟩]
    functions := [⟨id, 6, 6, 0, 0⟩]
    locations := [⟨id, id, start + 0x10, [⟨id, 12, 0⟩], false⟩]
    samples := [⟨[id], values, []⟩] }

def objectsFirst : PprofProfile := filling 1 0x1000 [⟨3, 4⟩, ⟨1, 2⟩] [1, 3]

def spaceFirst : PprofProfile := filling 7 0x5000 [⟨1, 2⟩, ⟨3, 4⟩] [10, 5]

theorem Valid.constant_sampleKey {p : PprofProfile} (h : Valid p) (key : String) {s : Sample}
    (hs : s ∈ p.samples) : (ProfileIndex.new p).sampleKey (fun _ => key) s = .ok key := by
  obtain ⟨found, hfound⟩ := h.sampleKey_ok (fun _ => key) hs
  rw [hfound]
  simp only [ProfileIndex.sampleKey, bind_eq_ok] at hfound
  obtain ⟨_, -, _, -, hkey⟩ := hfound
  exact hkey.symm

theorem swappedColumns_ok :
    ∃ out, difference (fun _ => fillKey) objectsFirst spaceFirst = .ok out := by
  have hbase : Valid objectsFirst := (validateProfile_eq_ok_iff _ ()).mp (by decide)
  have hcurrent : Valid spaceFirst := (validateProfile_eq_ok_iff _ ()).mp (by decide)
  have hadded : spaceFirst.samples.foldlM (addCurrent (fun _ => fillKey) (.new spaceFirst)) ∅ =
      .ok ((∅ : SampleMap).insert fillKey ⟨[7], [10, 5], []⟩) := by
    change addCurrent (fun _ => fillKey) (.new spaceFirst) ∅ _ >>= _ = _
    rw [addCurrent, hcurrent.constant_sampleKey fillKey (List.mem_singleton_self _)]
    simp [bind, Except.bind, pure, Except.pure]
  refine difference_returns hbase hcurrent (by decide) (by decide)
    (rfl : _ = Except.ok [1, 0]) hadded
    (by decide) (by decide) (by decide) fun copy =>
      ⟨((∅ : SampleMap).insert fillKey ⟨[7], [10, 5], []⟩).insert fillKey ⟨[7], [7, 4], []⟩, ?_⟩
  change subtractBase (fun _ => fillKey) (.new objectsFirst) [1, 0] copy _ _ >>= _ = _
  rw [subtractBase, hbase.constant_sampleKey fillKey (List.mem_singleton_self _)]
  have hv : add [10, 5] [3, 1] (-1) = .ok [7, 4] := rfl
  simp [bind, Except.bind, pure, Except.pure, hv, orError]

/-- The stack has other ids and addresses in the two profiles, and their columns are swapped. -/
theorem difference_subtracts_swappedColumns : ∃ out,
    difference (fun _ => fillKey) objectsFirst spaceFirst = .ok out ∧
    cost (fun _ => fillKey) out ("inuse_space", "bytes") fillKey = 7 ∧
    cost (fun _ => fillKey) out ("inuse_objects", "count") fillKey = 4 := by
  obtain ⟨out, h⟩ := swappedColumns_ok
  have hlen : out.strings.strings.length < 2 ^ 64 :=
    lt_of_le_of_lt (difference_strings_length_le h) (by decide)
  have hbase : Valid objectsFirst := (validateProfile_eq_ok_iff _ ()).mp (by decide)
  have hcurrent : Valid spaceFirst := (validateProfile_eq_ok_iff _ ()).mp (by decide)
  have hcost := (difference_subtracts (fun _ => fillKey) objectsFirst spaceFirst out h hlen).2.1
  have hcurrentCost (metric : String × String) : cost (fun _ => fillKey) spaceFirst metric fillKey =
      metricValue spaceFirst metric ⟨[7], [10, 5], []⟩ := by
    rw [cost, show spaceFirst.samples = [⟨[7], [10, 5], []⟩] from rfl, total_cons, keyOf,
      hcurrent.constant_sampleKey fillKey (List.mem_singleton_self _)]
    exact add_zero _
  have hbaseCost (metric : String × String) : cost (fun _ => fillKey) objectsFirst metric fillKey =
      metricValue objectsFirst metric ⟨[1], [1, 3], []⟩ := by
    rw [cost, show objectsFirst.samples = [⟨[1], [1, 3], []⟩] from rfl, total_cons, keyOf,
      hbase.constant_sampleKey fillKey (List.mem_singleton_self _)]
    exact add_zero _
  refine ⟨out, h, ?_, ?_⟩
  · rw [hcost _ (by decide), hcurrentCost, hbaseCost]
    rfl
  · rw [hcost _ (by decide), hcurrentCost, hbaseCost]
    rfl

end PProfessor.Heap
