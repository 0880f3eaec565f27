import PProfessor.CheckedArith
import PProfessor.Columns
import PProfessor.KeyedSum
import PProfessor.LiveLocations

set_option autoImplicit false

/-!
# Merging deltas adds them

The stored samples of the accumulator are the samples of all merged profiles,
grouped by what they say, each with the sum of their rows.
-/
namespace PProfessor.Kit
open CheckedArith Columns Fallible IndexedTable KeyedSum NumberedTable Pprof

theorem addColumns_ok {values source : List Int64} (hlen : source.length ≤ values.length)
    (hfit : ∀ j, InI64 (cell values j + cell source j)) :
    ∃ result, LiveProfileAccumulator.addColumns values source = .ok result ∧
      result.map Int64.toInt = addCells (values.map Int64.toInt) (source.map Int64.toInt) := by
  induction source generalizing values with
  | nil =>
    unfold LiveProfileAccumulator.addColumns
    exact ⟨values, rfl, (addCells_nil _).symm⟩
  | cons w source ih =>
    cases values with
    | nil => simp at hlen
    | cons v values =>
      have hsum : addI64 v w = some (v + w) := if_pos (hfit 0)
      obtain ⟨rest, hrest, hcells⟩ := ih (by simpa using hlen) fun j => hfit (j + 1)
      refine ⟨(v + w) :: rest, ?_, ?_⟩
      · unfold LiveProfileAccumulator.addColumns
        rw [hsum, hrest]
        rfl
      · rw [List.map_cons, hcells, (addI64_eq_some_iff v w _).mp hsum]
        rfl

theorem addCells_pad (xs ys : List ℤ) :
    addCells (xs ++ List.replicate (ys.length - xs.length) 0) ys = addCells xs ys := by
  induction xs generalizing ys with
  | nil =>
    induction ys with
    | nil => rfl
    | cons y ys ih =>
      change (0 + y) :: addCells ([] ++ List.replicate (ys.length - 0) 0) ys = y :: ys
      rw [zero_add]
      exact congrArg _ ih
  | cons x xs ih =>
    cases ys with
    | nil => simp
    | cons y ys =>
      simp only [List.length_cons, Nat.add_sub_add_right, List.cons_append, addCells]
      rw [ih]

theorem addValues_ok (values source : List Int64)
    (hfit : ∀ j, InI64 (cell values j + cell source j)) :
    ∃ result, LiveProfileAccumulator.addValues values source = .ok result ∧
      Row.ofValues result = Row.ofValues values + Row.ofValues source := by
  unfold LiveProfileAccumulator.addValues
  have hcell := cell_append_zeros values (source.length - values.length)
  have hlen : source.length ≤
      (values ++ List.replicate (source.length - values.length) 0).length := by
    rw [List.length_append, List.length_replicate]
    omega
  obtain ⟨result, hr, hcells⟩ := addColumns_ok hlen fun j => by rw [hcell]; exact hfit j
  refine ⟨result, hr, Row.ext ?_⟩
  have hpad := addCells_pad (values.map Int64.toInt) (source.map Int64.toInt)
  rw [List.length_map, List.length_map] at hpad
  rw [Row.add_cells]
  change result.map Int64.toInt = _
  rw [hcells, List.map_append, List.map_replicate]
  exact hpad

theorem cell_inI64 (values : List Int64) (j : ℕ) : InI64 (cell values j) := by
  unfold cell
  cases values[j]? with
  | none => exact ⟨by decide, by decide⟩
  | some v => exact toInt_inI64 v

theorem addColumns_overflows {values source : List Int64} (hlen : source.length ≤ values.length)
    (hfit : ¬∀ j, InI64 (cell values j + cell source j)) :
    LiveProfileAccumulator.addColumns values source = .error .intOverflow := by
  induction source generalizing values with
  | nil =>
    refine absurd (fun j => ?_) hfit
    rw [cell_nil, add_zero]
    exact cell_inI64 values j
  | cons w source ih =>
    cases values with
    | nil => simp at hlen
    | cons v values =>
      unfold LiveProfileAccumulator.addColumns
      by_cases hsum : InI64 (v.toInt + w.toInt)
      · have hrest : ¬∀ j, InI64 (cell values j + cell source j) := by
          refine fun hall => hfit fun j => ?_
          cases j with
          | zero => exact hsum
          | succ j => exact hall j
        rw [addI64, if_pos hsum, ih (by simpa using hlen) hrest]
        rfl
      · rw [addI64, if_neg hsum]
        rfl

theorem addValues_overflows {values source : List Int64}
    (hfit : ¬∀ j, InI64 (cell values j + cell source j)) :
    LiveProfileAccumulator.addValues values source = .error .intOverflow := by
  apply addColumns_overflows
  · rw [List.length_append, List.length_replicate]
    omega
  · simp only [cell_append_zeros]
    exact hfit

/-- What each sample says, with its row. -/
def contributions (canon : String → String) (d : DecodedProfile) : List (SampleView × Row) :=
  d.samples.map fun s => (sampleView canon d s, Row.ofValues s.values)

theorem contributions_append (canon : String → String) (d : DecodedProfile) (x : Sample) :
    contributions canon { d with samples := d.samples ++ [x] } =
      contributions canon d ++ [(sampleView canon d x, Row.ofValues x.values)] := List.map_append

theorem contributions_set (canon : String → String) (d : DecodedProfile) (i : ℕ) (x : Sample) :
    contributions canon { d with samples := d.samples.set i x } =
      (contributions canon d).set i (sampleView canon d x, Row.ofValues x.values) := List.map_set

theorem contributions_getElem? (canon : String → String) {d : DecodedProfile} {i : ℕ} {x : Sample}
    (h : d.samples[i]? = some x) :
    (contributions canon d)[i]? = some (sampleView canon d x, Row.ofValues x.values) := by
  rw [contributions, List.getElem?_map, h]
  rfl

theorem contributions_of_extension {canon : String → String} {d d' : DecodedProfile}
    (hp : d.Prefix d') (hz : lookup Mapping.id d'.mappings 0 = none)
    (hs : d'.samples = d.samples) (hin : ∀ s ∈ d.samples, SampleIn d s) :
    contributions canon d' = contributions canon d := by
  unfold contributions
  rw [hs]
  apply List.map_congr_left
  intro s hmem
  rw [sampleView_of_extension canon hp hz (hin s hmem)]

theorem LocationIn.set_samples {d : DecodedProfile} {l : Location} (h : LocationIn d l)
    (samples : List Sample) : LocationIn { d with samples := samples } l := by
  refine ⟨h.mapping.imp_right ?_, fun line hline => ?_⟩
  · rintro ⟨m, hm, hin⟩
    exact ⟨m, hm, hin.filename, hin.buildId⟩
  · obtain ⟨f, hf, hin⟩ := h.lines line hline
    exact ⟨f, hf, hin.name, hin.systemName, hin.filename⟩

theorem SampleIn.set_samples {d : DecodedProfile} {s : Sample} (h : SampleIn d s)
    (samples : List Sample) : SampleIn { d with samples := samples } s := by
  refine ⟨fun id hid => ?_, fun label hl => ?_⟩
  · obtain ⟨l, hl, hin⟩ := h.locations id hid
    exact ⟨l, hl, hin.set_samples samples⟩
  · exact ⟨(h.labels label hl).key, (h.labels label hl).str, (h.labels label hl).unit⟩

theorem SampleIn.set_values {d : DecodedProfile} {s : Sample} (h : SampleIn d s)
    (values : List Int64) : SampleIn d { s with values := values } :=
  ⟨h.locations, h.labels⟩

namespace LiveProfileAccumulator

variable {canon : String → String} {m n : ℕ} {acc acc' : LiveProfileAccumulator}
  {delta : DecodedProfile}

def sampleKey (s : Sample) : SampleKey := ⟨s.locationIds, s.labels.map labelKey⟩

theorem labelKey_injective {a b : Label} (h : labelKey a = labelKey b) : a = b := by
  cases a
  cases b
  cases h
  rfl

/-- The invariant of the accumulator: what was merged is stored. -/
structure Inv (canon : String → String) (n : ℕ) (acc : LiveProfileAccumulator)
    (merged : List (SampleView × Row)) : Prop extends Tables canon n acc where
  sampleIndex : Indexes id sampleKey acc.profile.samples acc.sampleIndexes
  sampleIn : ∀ s ∈ acc.profile.samples, SampleIn acc.profile s
  grouped : Grouped (contributions canon acc.profile) merged

theorem filterMap_inj {α β : Type} {f : α → Option β} {xs ys : List α}
    (hx : ∀ x ∈ xs, (f x).isSome) (hy : ∀ y ∈ ys, (f y).isSome)
    (hinj : ∀ x ∈ xs, ∀ y ∈ ys, f x = f y → x = y) (h : xs.filterMap f = ys.filterMap f) :
    xs = ys := by
  induction xs generalizing ys with
  | nil =>
    cases ys with
    | nil => rfl
    | cons y ys =>
      obtain ⟨b, hb⟩ := Option.isSome_iff_exists.mp (hy y List.mem_cons_self)
      rw [List.filterMap_cons_some hb] at h
      cases h
  | cons x xs ih =>
    obtain ⟨a, ha⟩ := Option.isSome_iff_exists.mp (hx x List.mem_cons_self)
    rw [List.filterMap_cons_some ha] at h
    cases ys with
    | nil => cases h
    | cons y ys =>
      obtain ⟨b, hb⟩ := Option.isSome_iff_exists.mp (hy y List.mem_cons_self)
      rw [List.filterMap_cons_some hb, List.cons.injEq] at h
      rw [List.forall_mem_cons] at hx hy hinj
      have hxy := hinj.1 y List.mem_cons_self (by rw [ha, hb, h.1])
      rw [hxy, ih hx.2 hy.2 (fun u hu v hv => hinj.2 u hu v (List.mem_cons_of_mem _ hv)) h.2]

theorem Tables.location_inj (h : Tables canon n acc) {a b : Location}
    (ha : a ∈ acc.profile.locations) (hb : b ∈ acc.profile.locations)
    (hab : locationView canon acc.profile a = locationView canon acc.profile b) : a = b := by
  have hina := h.locationIn a ha
  have hinb := h.locationIn b hb
  unfold locationView at hab
  rw [LocationView.mk.injEq] at hab
  obtain ⟨hmapping, haddress, hlines, hfold⟩ := hab
  apply h.locationIndex.inj h.locations ha hb
  unfold locationKey
  rw [haddress, hfold]
  have hm : a.mappingId = b.mappingId := by
    have hz := h.mapping_zero
    rcases hina.mapping with h0 | ⟨x, hx, -⟩ <;> rcases hinb.mapping with h0' | ⟨y, hy, -⟩
    · rw [h0, h0']
    · rw [h0, hz, hy] at hmapping
      cases hmapping
    · rw [h0', hz, hx] at hmapping
      cases hmapping
    · rw [hx, hy, Option.map_some, Option.map_some, Option.some.injEq] at hmapping
      obtain ⟨hxmem, hxid⟩ := lookup_eq_some _ hx
      obtain ⟨hymem, hyid⟩ := lookup_eq_some _ hy
      rw [← hxid, ← hyid, h.mappingIndex.inj h.mappings hxmem hymem hmapping]
  have hl : a.lines = b.lines := by
    refine filterMap_inj (fun line hl => ?_) (fun line hl => ?_) (fun x hx y hy hxy => ?_) hlines
    · obtain ⟨f, hf, -⟩ := hina.lines line hl
      rw [lineView, hf]
      rfl
    · obtain ⟨f, hf, -⟩ := hinb.lines line hl
      rw [lineView, hf]
      rfl
    · obtain ⟨f, hf, -⟩ := hina.lines x hx
      obtain ⟨g, hg, -⟩ := hinb.lines y hy
      rw [lineView, lineView, hf, hg, Option.map_some, Option.map_some, Option.some.injEq,
        LineView.mk.injEq] at hxy
      obtain ⟨hfmem, hfid⟩ := lookup_eq_some _ hf
      obtain ⟨hgmem, hgid⟩ := lookup_eq_some _ hg
      have hfg := h.functionIndex.inj h.functions hfmem hgmem hxy.1
      apply lineKey_injective
      rw [lineKey, lineKey, ← hfid, ← hgid, hfg, hxy.2.1, hxy.2.2]
  rw [hm, hl]

theorem Strings.optionalText_eq (h : Strings canon n acc) (index : UInt64) :
    optionalText canon acc.profile index = canon (acc.profile.text index) := by
  unfold optionalText
  split_ifs with hz
  · rw [hz, h.text_zero]
  · rfl

theorem Strings.label_inj (h : Strings canon n acc) {a b : Label} (ha : LabelIn acc.profile a)
    (hb : LabelIn acc.profile b)
    (hab : labelView canon acc.profile a = labelView canon acc.profile b) : a = b := by
  unfold labelView at hab
  rw [LabelView.mk.injEq, h.optionalText_eq, h.optionalText_eq, h.optionalText_eq,
    h.optionalText_eq] at hab
  obtain ⟨hkey, hstr, hnum, hunit⟩ := hab
  have h₁ := h.index_inj ha.key hb.key hkey
  have h₂ := h.index_inj ha.str hb.str hstr
  have h₃ := h.index_inj ha.unit hb.unit hunit
  cases a
  cases b
  cases h₁
  cases h₂
  cases h₃
  cases hnum
  rfl

theorem Tables.sampleKey_inj (h : Tables canon n acc) {a b : Sample} (ha : SampleIn acc.profile a)
    (hb : SampleIn acc.profile b)
    (hab : sampleView canon acc.profile a = sampleView canon acc.profile b) :
    sampleKey a = sampleKey b := by
  unfold sampleView at hab
  rw [SampleView.mk.injEq] at hab
  have hstack : a.locationIds = b.locationIds := by
    refine filterMap_inj (fun id hid => ?_) (fun id hid => ?_) (fun x hx y hy hxy => ?_) hab.1
    · obtain ⟨l, hl, -⟩ := ha.locations id hid
      rw [hl]
      rfl
    · obtain ⟨l, hl, -⟩ := hb.locations id hid
      rw [hl]
      rfl
    · obtain ⟨l, hl, -⟩ := ha.locations x hx
      obtain ⟨l', hl', -⟩ := hb.locations y hy
      rw [hl, hl', Option.map_some, Option.map_some, Option.some.injEq] at hxy
      obtain ⟨hmem, hid⟩ := lookup_eq_some _ hl
      obtain ⟨hmem', hid'⟩ := lookup_eq_some _ hl'
      rw [← hid, ← hid', h.location_inj hmem hmem' hxy]
  have hlabels : a.labels = b.labels := by
    refine filterMap_inj (f := fun label => some (labelView canon acc.profile label))
      (fun _ _ => rfl) (fun _ _ => rfl) (fun x hx y hy hxy => ?_) ?_
    · exact h.label_inj (ha.labels x hx) (hb.labels y hy) (Option.some.inj hxy)
    · rw [List.filterMap_eq_map']
      exact hab.2
  rw [sampleKey, sampleKey, hstack, hlabels]

theorem new_inv (hroom : 1 + n < 2 ^ 63) : Inv canon n (new canon) [] := by
  have hempty : Indexes UInt64.ofNat canon [] (∅ : Std.ExtHashMap String UInt64) := Indexes.nil
  have hindex : Indexes UInt64.ofNat canon [""]
      ((∅ : Std.ExtHashMap String UInt64).insert (canon "") 0) :=
    hempty.insert Std.ExtHashMap.getElem?_empty rfl
  exact ⟨⟨⟨rfl, hindex, hroom⟩, numbered_nil _, Indexes.nil, by simp [new, DecodedProfile.new],
    numbered_nil _, Indexes.nil, by simp [new, DecodedProfile.new], numbered_nil _, Indexes.nil,
    by simp [new, DecodedProfile.new]⟩, Indexes.nil, by simp [new, DecodedProfile.new],
    Grouped.nil⟩

variable {merged : List (SampleView × Row)}

theorem Inv.of_tables (h : Inv canon m acc merged) (ht : Tables canon n acc')
    (hp : acc.profile.Prefix acc'.profile) (hsamples : acc'.profile.samples = acc.profile.samples)
    (hindexes : acc'.sampleIndexes = acc.sampleIndexes) : Inv canon n acc' merged := by
  refine ⟨ht, ?_, ?_, ?_⟩
  · rw [hsamples, hindexes]
    exact h.sampleIndex
  · rw [hsamples]
    exact fun s hmem => (h.sampleIn s hmem).of_extension hp
  · rw [contributions_of_extension hp ht.mapping_zero hsamples h.sampleIn]
    exact h.grouped

theorem Inv.of_step (h : Inv canon m acc merged) (hs : Step canon n acc acc') :
    Inv canon n acc' merged :=
  h.of_tables hs.tables hs.grows hs.samples hs.sampleIndexes

theorem Tables.set_samples (h : Tables canon n acc) (samples : List Sample)
    (indexes : Std.ExtHashMap SampleKey ℕ) : Tables canon n { acc with
      sampleIndexes := indexes, profile := { acc.profile with samples := samples } } := by
  refine ⟨h.toStrings.of_eq (k := 0) rfl rfl (le_refl _), h.mappings, h.mappingIndex,
    fun m hm => ⟨(h.mappingIn m hm).filename, (h.mappingIn m hm).buildId⟩, h.functions,
    h.functionIndex, fun f hf => ⟨(h.functionIn f hf).name, (h.functionIn f hf).systemName,
      (h.functionIn f hf).filename⟩, h.locations, h.locationIndex, fun l hl => ?_⟩
  exact (h.locationIn l hl).set_samples samples

theorem Inv.append (h : Inv canon n acc merged) {x : Sample} (hin : SampleIn acc.profile x)
    (hkey : acc.sampleIndexes[sampleKey x]? = none) :
    Inv canon n { acc with
      sampleIndexes := acc.sampleIndexes.insert (sampleKey x) acc.profile.samples.length
      profile := { acc.profile with samples := acc.profile.samples ++ [x] } }
      (merged ++ [(sampleView canon acc.profile x, Row.ofValues x.values)]) := by
  refine ⟨h.toTables.set_samples _ _, h.sampleIndex.insert hkey rfl, ?_, ?_⟩
  · intro s hs
    rcases List.mem_append.mp hs with hs | hs
    · exact (h.sampleIn s hs).set_samples _
    · rw [List.mem_singleton.mp hs]
      exact hin.set_samples _
  · have hnew : sampleView canon acc.profile x ∉
        (contributions canon acc.profile).map Prod.fst := by
      intro hmem
      obtain ⟨c, hc, hx⟩ := List.mem_map.mp hmem
      obtain ⟨s, hs, rfl⟩ := List.mem_map.mp hc
      have heq := h.toTables.sampleKey_inj (h.sampleIn s hs) hin hx
      exact h.sampleIndex.key_ne hkey s hs heq
    have hadd := h.grouped.add_new hnew (Row.ofValues x.values)
    exact contributions_append canon acc.profile x ▸ hadd

theorem Inv.set (h : Inv canon n acc merged) {existing : Sample} {i : ℕ}
    (hi : acc.profile.samples[i]? = some existing) {values : List Int64} {row : Row}
    (hvalues : Row.ofValues values = Row.ofValues existing.values + row) :
    Inv canon n { acc with
      profile := { acc.profile with
        samples := acc.profile.samples.set i { existing with values := values } } }
      (merged ++ [(sampleView canon acc.profile existing, row)]) := by
  have hin := h.sampleIn existing (List.mem_of_getElem? hi)
  refine ⟨h.toTables.set_samples _ acc.sampleIndexes, h.sampleIndex.set hi rfl, ?_, ?_⟩
  · intro s hs
    rcases List.mem_or_eq_of_mem_set hs with hs | rfl
    · exact (h.sampleIn s hs).set_samples _
    · exact (hin.set_values values).set_samples _
  · have hadd := h.grouped.add_existing (contributions_getElem? canon hi) row
    rw [← hvalues] at hadd
    have hset := contributions_set canon acc.profile i { existing with values := values }
    exact hset ▸ hadd

theorem stackView_translated {map : IDMap}
    (ht : Translates (LocationKnown canon delta) Location.id delta.locations acc map)
    (ids : List UInt64) :
    stackView canon acc.profile (ids.filterMap fun id => map[id]?) = stackView canon delta ids ∧
      ∀ id ∈ ids.filterMap fun id => map[id]?,
        ∃ l, lookup Location.id acc.profile.locations id = some l ∧ LocationIn acc.profile l := by
  induction ids with
  | nil => exact ⟨rfl, by simp⟩
  | cons id ids ih =>
    unfold stackView at ih ⊢
    cases hl : lookup Location.id delta.locations id with
    | none =>
      have hnone : map[id]? = none := by
        apply ht.other
        rintro x hx rfl
        unfold lookup at hl
        rw [List.find?_eq_none] at hl
        exact hl x hx (by simp)
      rw [List.filterMap_cons_none hnone, List.filterMap_cons_none (by rw [hl]; rfl)]
      exact ih
    | some x =>
      obtain ⟨hx, rfl⟩ := lookup_eq_some _ hl
      obtain ⟨gid, hgid, g, hg, hin, hview⟩ := ht.entry x hx
      have hold : (lookup Location.id delta.locations x.id).map (locationView canon delta) =
          some (locationView canon delta x) := by rw [hl, Option.map_some]
      have hnew : (lookup Location.id acc.profile.locations gid).map
          (locationView canon acc.profile) = some (locationView canon delta x) := by
        rw [hg, Option.map_some, hview]
      rw [List.filterMap_cons_some hgid, List.filterMap_cons, hnew, List.filterMap_cons, hold,
        List.forall_mem_cons]
      exact ⟨congrArg (_ :: ·) ih.1, ⟨g, hg, hin⟩, ih.2⟩

theorem mergeSample_effective (map : IDMap) :
    mergeSample canon delta.effective map = mergeSample canon delta map := by
  have hlabel : internLabel canon delta.effective = internLabel canon delta := rfl
  funext a x
  unfold mergeSample
  rw [hlabel]

/-- A sample is appended, or added to the one that says the same. -/
theorem mergeSample_cases {map : IDMap} {x : Sample}
    (h : Inv canon (n + 3 * x.labels.length) acc merged)
    (ht : Translates (LocationKnown canon delta) Location.id delta.locations acc map)
    (hfit : ∀ label ∈ x.labels, LabelConverts label) :
    ∃ a y, Step canon n acc a ∧ Inv canon n a merged ∧ SampleIn a.profile y ∧
      y.values = x.values ∧ sampleView canon a.profile y = sampleView canon delta x ∧
      ((a.sampleIndexes[sampleKey y]? = none ∧ mergeSample canon delta map acc x = .ok { a with
          sampleIndexes := a.sampleIndexes.insert (sampleKey y) a.profile.samples.length
          profile := { a.profile with samples := a.profile.samples ++ [y] } }) ∨
        ∃ i existing, a.profile.samples[i]? = some existing ∧
          sampleView canon a.profile existing = sampleView canon delta x ∧
          mergeSample canon delta map acc x =
            addValues existing.values x.values >>= fun values => .ok { a with
              profile := { a.profile with
                samples := a.profile.samples.set i { existing with values := values } } }) := by
  obtain ⟨⟨labels, a⟩, hlabels, hinterns, hcopied⟩ := internEach_returns 3
    (LabelCopied canon delta) (fun _ _ _ _ hp hl => hl.of_extension hp)
    (fun _ label _ hl ha => internLabel_returns ha (hfit label hl)) h.toStrings
  have hstep := h.toTables.of_interns hinterns
  have hinv := h.of_step hstep
  have hstack := stackView_translated (ht.of_step fun _ _ hk => hk.of_step hstep) x.locationIds
  have hview : sampleView canon a.profile
      ⟨x.locationIds.filterMap fun id => map[id]?, x.values, labels⟩ =
        sampleView canon delta x := by
    unfold sampleView
    rw [hstack.1]
    congr 1
    rw [eq_comm, ← List.forall₂_eq_eq_eq, List.forall₂_map_left_iff, List.forall₂_map_right_iff]
    exact hcopied.imp fun _ _ hl => hl.2.symm
  have hin : SampleIn a.profile
      ⟨x.locationIds.filterMap fun id => map[id]?, x.values, labels⟩ := by
    refine ⟨hstack.2, fun label hl => ?_⟩
    obtain ⟨_, -, hlabel⟩ := forall₂_exists_left hcopied hl
    exact hlabel.1
  refine ⟨a, _, hstep, hinv, hin, rfl, hview, ?_⟩
  unfold mergeSample
  rw [hlabels, ok_bind]
  dsimp only
  cases hi : a.sampleIndexes[(⟨x.locationIds.filterMap fun id => map[id]?,
      labels.map labelKey⟩ : SampleKey)]? with
  | none => exact .inl ⟨hi, rfl⟩
  | some i =>
    right
    obtain ⟨i', existing, hget, hkey, hii⟩ := hinv.sampleIndex.sound _ i hi
    change i' = i at hii
    subst hii
    refine ⟨i', existing, hget, ?_, ?_⟩
    · have hlocations : existing.locationIds = x.locationIds.filterMap fun id => map[id]? :=
        congrArg SampleKey.stack hkey
      have hsame := List.map_injective_iff.mpr (fun _ _ => labelKey_injective)
        (congrArg SampleKey.labels hkey)
      rw [← hview, sampleView, sampleView, hlocations, hsame]
    · dsimp only
      rw [hget]

/-- One sample is added to what was merged, unless a column overflows. -/
theorem mergeSample_ends {map : IDMap} {x : Sample}
    (h : Inv canon (n + 3 * x.labels.length) acc merged)
    (ht : Translates (LocationKnown canon delta) Location.id delta.locations acc map)
    (hfit : ∀ label ∈ x.labels, LabelConverts label) :
    ((∀ j, InI64 (Row.col j (total Prod.fst Prod.snd
        (merged ++ [(sampleView canon delta x, Row.ofValues x.values)])
        (sampleView canon delta x)))) →
      Returns (fun acc' =>
        Inv canon n acc' (merged ++ [(sampleView canon delta x, Row.ofValues x.values)]) ∧
        acc.profile.Prefix acc'.profile ∧ acc'.profile.sampleTypes = acc.profile.sampleTypes ∧
        contributions canon acc'.profile = addPart (contributions canon acc.profile)
          (sampleView canon delta x, Row.ofValues x.values))
        (mergeSample canon delta map acc x)) ∧
    ((¬∀ j, InI64 (Row.col j (total Prod.fst Prod.snd
        (merged ++ [(sampleView canon delta x, Row.ofValues x.values)])
        (sampleView canon delta x)))) →
      mergeSample canon delta map acc x = .error .intOverflow) := by
  obtain ⟨a, y, hstep, hinv, hin, hvalues, hview, hcases⟩ := mergeSample_cases h ht hfit
  have hsame : contributions canon a.profile = contributions canon acc.profile :=
    contributions_of_extension hstep.grows hstep.tables.mapping_zero hstep.samples h.sampleIn
  rcases hcases with ⟨hnone, hrun⟩ | ⟨i, existing, hget, heq, hrun⟩
  · have hinv' := hinv.append hin hnone
    rw [hview, hvalues] at hinv'
    have hadd := contributions_append canon a.profile y
    rw [hview, hvalues] at hadd
    have hmem : (sampleView canon delta x, Row.ofValues x.values) ∈
        contributions canon { a.profile with samples := a.profile.samples ++ [y] } := by
      rw [hadd]
      exact List.mem_append_right _ List.mem_cons_self
    constructor
    · intro _
      rw [hrun]
      refine .of_ok ⟨hinv', ⟨hstep.grows.strings, hstep.grows.mappings, hstep.grows.functions,
        hstep.grows.locations⟩, hstep.sampleTypes, ?_⟩
      have hnodup := hinv'.grouped.nodup
      change contributions canon { a.profile with samples := a.profile.samples ++ [y] } = _
      change ((contributions canon { a.profile with
        samples := a.profile.samples ++ [y] }).map Prod.fst).Nodup at hnodup
      rw [hadd, List.map_append, List.nodup_append] at hnodup
      rw [hadd, hsame, addPart_of_not_mem]
      rw [← hsame]
      exact fun hk => hnodup.2.2 _ hk _ List.mem_cons_self rfl
    · intro hover
      refine absurd (fun j => ?_) hover
      rw [← ((hinv'.grouped.mem_iff _ _).mp hmem).2, Row.col_ofValues]
      exact cell_inI64 x.values j
  · have hrow : total Prod.fst Prod.snd merged (sampleView canon delta x) =
        Row.ofValues existing.values := by
      have hmem := List.mem_of_getElem? (contributions_getElem? canon hget)
      have hw := ((hinv.grouped.mem_iff _ _).mp hmem).2
      rw [← heq, hw]
    have hcells : (∀ j, InI64 (Row.col j (total Prod.fst Prod.snd
        (merged ++ [(sampleView canon delta x, Row.ofValues x.values)])
        (sampleView canon delta x)))) ↔
        ∀ j, InI64 (cell existing.values j + cell x.values j) := by
      apply forall_congr'
      intro j
      rw [Grouped.total_concat, if_pos rfl, hrow, map_add, Row.col_ofValues, Row.col_ofValues]
    rw [hcells, hrun]
    constructor
    · intro hall
      obtain ⟨values, hadd, hsum⟩ := addValues_ok existing.values x.values hall
      rw [hadd, ok_bind]
      refine .of_ok ⟨heq ▸ hinv.set hget hsum, ⟨hstep.grows.strings, hstep.grows.mappings,
        hstep.grows.functions, hstep.grows.locations⟩, hstep.sampleTypes, ?_⟩
      change contributions canon { a.profile with
        samples := a.profile.samples.set i { existing with values := values } } = _
      rw [contributions_set, ← hsame, addPart_of_getElem? hinv.grouped.nodup
        (heq ▸ contributions_getElem? canon hget), ← hsum]
      rw [← heq]
      rfl
    · intro hover
      rw [addValues_overflows hover]
      rfl

end LiveProfileAccumulator

end PProfessor.Kit
