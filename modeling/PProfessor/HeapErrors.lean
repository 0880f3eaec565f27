import PProfessor.HeapDifference

set_option autoImplicit false

/-!
# The errors of a difference

Over two validated profiles every lookup of `difference` finds its entry, so it
can only run out of `int64` values or of identifiers.
-/
namespace PProfessor.Heap
open CheckedArith Fallible Pprof

theorem throws_require {P : ProfileError → Prop} (p : Prop) [Decidable p] {e : ProfileError}
    (h : P e) : Throws P (require p e) := by
  intro e' he
  unfold require at he
  split_ifs at he
  cases he
  exact h

theorem throws_orError {α : Type} {P : ProfileError → Prop} {e : ProfileError} (h : P e)
    (x : Option α) : Throws P (orError e x) := by
  intro e' he
  cases x with
  | none =>
    cases he
    exact h
  | some a => cases he

theorem throws_lookup {α : Type} {P : ProfileError → Prop} (e : ProfileError) {x : Option α}
    {a : α} (h : x = some a) : Throws P (orError e x) :=
  Throws.of_eq_ok ((orError_eq_ok_iff e x a).mpr h)

def NoPanic (e : ProfileError) : Prop := e ≠ .panic

theorem validString_throws (profile : PprofProfile) (id : UInt64) :
    Throws NoPanic (validString profile id) := throws_require _ (by simp [NoPanic])

theorem uniqueIds_throws (ids : List UInt64) : Throws NoPanic (uniqueIds ids) :=
  (throws_require _ (by simp [NoPanic])).bind fun _ _ => .of_ok _

theorem checkMetrics_throws (profile : PprofProfile) (types : List ValueType)
    (seen : Finset String) : Throws NoPanic (checkMetrics profile types seen) := by
  induction types generalizing seen with
  | nil => exact .of_ok ()
  | cons metric rest ih =>
    unfold checkMetrics
    refine (validString_throws profile _).bind fun _ _ => ?_
    refine (validString_throws profile _).bind fun _ _ => ?_
    refine (throws_require _ (by simp [NoPanic])).bind fun _ _ => ?_
    exact (throws_require _ (by simp [NoPanic])).bind fun _ _ => ih _

theorem validateProfile_throws (profile : PprofProfile) :
    Throws NoPanic (validateProfile profile) := by
  have hs := validString_throws profile
  unfold validateProfile
  refine (throws_require _ (by simp [NoPanic])).bind fun _ _ => ?_
  refine (uniqueIds_throws _).bind fun mappings _ => ?_
  refine (uniqueIds_throws _).bind fun functions _ => ?_
  refine (uniqueIds_throws _).bind fun locations _ => ?_
  refine (Throws.forM fun m _ => (hs _).bind fun _ _ => hs _).bind fun _ _ => ?_
  refine (Throws.forM fun f _ => (hs _).bind fun _ _ => (hs _).bind fun _ _ => hs _).bind
    fun _ _ => ?_
  refine (Throws.forM fun l _ => (throws_require _ (by simp [NoPanic])).bind fun _ _ =>
    .forM fun _ _ => throws_require _ (by simp [NoPanic])).bind fun _ _ => ?_
  refine (Throws.forM fun s _ => Throws.bind (.forM fun _ _ => throws_require _
    (by simp [NoPanic])) fun _ _ => .forM fun _ _ => (hs _).bind fun _ _ =>
      (hs _).bind fun _ _ => hs _).bind fun _ _ => ?_
  refine (Throws.forM fun id _ => hs id).bind fun _ _ => ?_
  refine (throws_require _ (by simp [NoPanic])).bind fun _ _ => ?_
  refine (checkMetrics_throws profile _ _).bind fun _ _ => ?_
  exact .forM fun _ _ => throws_require _ (by simp [NoPanic])

theorem relocate_throws {α : Type} {id : α → UInt64} {copy : α → UInt64 → Except ProfileError α}
    {P : ProfileError → Prop} (hP : P .identifierOverflow) {xs : List α}
    (h : ∀ x ∈ xs, ∀ n, Throws P (copy x n)) (next : UInt64)
    (ids : Std.ExtHashMap UInt64 UInt64) (out : List α) :
    Throws P (relocate id copy xs next ids out) := by
  induction xs generalizing next ids out with
  | nil => exact .of_ok _
  | cons x xs ih =>
    rw [List.forall_mem_cons] at h
    unfold relocate
    refine (throws_orError hP _).bind fun n _ => ?_
    exact (h.1 n).bind fun y _ => ih h.2 n _ _

theorem relocate_lt {α : Type} {id : α → UInt64} {copy : α → UInt64 → Except ProfileError α}
    {xs : List α} {next : UInt64} {ids : Std.ExtHashMap UInt64 UInt64} {out : List α}
    {r : Std.ExtHashMap UInt64 UInt64 × List α} (h : relocate id copy xs next ids out = .ok r) :
    next.toNat + xs.length < 2 ^ 64 := by
  induction xs generalizing next ids out with
  | nil => exact next.toNat_lt
  | cons x xs ih =>
    simp only [relocate, bind_eq_ok, orError_eq_ok_iff, addU64_eq_some_iff] at h
    obtain ⟨n, hn, _, -, hrest⟩ := h
    have hlt := ih hrest
    rw [hn] at hlt
    change next.toNat + 1 + xs.length < 2 ^ 64 at hlt
    rw [List.length_cons]
    omega

/-- What a difference of two compatible profiles can fail with. -/
def Overflows (e : ProfileError) : Prop := e = .differenceOverflow ∨ e = .identifierOverflow

theorem add_throws (target source : List Int64) (sign : Int64) :
    Throws Overflows (add target source sign) := by
  induction target generalizing source with
  | nil => exact .of_eq_ok (by cases source <;> rfl)
  | cons a target ih =>
    cases source with
    | nil => exact .of_eq_ok rfl
    | cons b source =>
      unfold add
      refine (throws_orError (.inl rfl) _).bind fun sum _ => ?_
      exact (ih source).bind fun rest _ => .of_ok _

variable {toJson : List FrameKey × List LabelKey → String}

theorem addCurrent_throws {current : PprofProfile} (h : Valid current) {s : Sample}
    (hs : s ∈ current.samples) (samples : SampleMap) :
    Throws Overflows (addCurrent toJson (.new current) samples s) := by
  obtain ⟨key, hkey⟩ := h.sampleKey_ok toJson hs
  unfold addCurrent
  refine (Throws.of_eq_ok hkey).bind fun key _ => ?_
  cases samples[key]? with
  | none => exact .of_ok _
  | some existing => exact (add_throws _ _ _).bind fun values _ => .of_ok _

theorem copySample_throws {base : PprofProfile} (h : Valid base) {strings : List UInt64}
    (hlen : base.strings.strings.length ≤ strings.length)
    {locationIds : Std.ExtHashMap UInt64 UInt64}
    (hids : ∀ id ∈ base.locations.map Location.id, ∃ id', locationIds[id]? = some id')
    {s : Sample} (hs : s ∈ base.samples) (values : List Int64) :
    Throws Overflows (copySample strings locationIds values s) := by
  unfold copySample
  refine (Throws.mapM fun v _ => throws_orError (.inl rfl) _).bind fun values _ => ?_
  refine (Throws.mapM fun id hid => ?_).bind fun ids _ => ?_
  · obtain ⟨id', hid'⟩ := hids id ((h.sample s hs).1 id hid)
    exact throws_lookup _ hid'
  · refine (Throws.mapM fun label hl => ?_).bind fun labels _ => .of_ok _
    obtain ⟨label', hlabel⟩ := copyLabel_ok hlen h hs hl
    exact .of_eq_ok hlabel

theorem subtractBase_throws {base : PprofProfile} (h : Valid base) {order : List ℕ}
    (horder : ∀ i ∈ order, i < base.valueTypes.length)
    {copy : List Int64 → Sample → Except ProfileError Sample} {s : Sample}
    (hs : s ∈ base.samples) (hcopy : ∀ values, Throws Overflows (copy values s))
    (samples : SampleMap) :
    Throws Overflows (subtractBase toJson (.new base) order copy samples s) := by
  obtain ⟨key, hkey⟩ := h.sampleKey_ok toJson hs
  unfold subtractBase
  refine (Throws.of_eq_ok hkey).bind fun key _ => ?_
  refine (Throws.mapM fun i hi => ?_).bind fun values _ => ?_
  · exact throws_lookup _ (List.getElem?_eq_getElem (by rw [h.values s hs]; exact horder i hi))
  · cases samples[key]? with
    | none => exact (hcopy values).bind fun moved _ => .of_ok _
    | some existing => exact (add_throws _ _ _).bind fun values _ => .of_ok _

/-- `a.iter().position(|m| m == metric).unwrap()` finds every metric. -/
theorem order_throws {P : ProfileError → Prop} {base current : PprofProfile}
    (h : (types base).toFinset = (types current).toFinset) :
    Throws P ((types current).mapM fun metric =>
      orError .panic ((types base).idxOf? metric)) := by
  refine Throws.mapM fun metric hm => ?_
  rw [← List.mem_toFinset, ← h, List.mem_toFinset, ← List.isSome_idxOf?] at hm
  obtain ⟨i, hi⟩ := Option.isSome_iff_exists.mp hm
  exact throws_lookup _ hi

theorem order_lt {base current : PprofProfile} {order : List ℕ}
    (h : (types current).mapM (fun metric => orError .panic ((types base).idxOf? metric)) =
      .ok order) : ∀ i ∈ order, i < base.valueTypes.length := by
  intro i hi
  obtain ⟨j, hj, rfl⟩ := List.mem_iff_getElem.mp hi
  rw [mapM_length h] at hj
  obtain ⟨i, hi, hfound⟩ := mapM_getElem? h (List.getElem?_eq_getElem hj)
  rw [orError_eq_ok_iff, List.idxOf?_eq_some_iff] at hfound
  obtain ⟨hlt, -⟩ := hfound
  rw [List.getElem?_eq_getElem (by rw [mapM_length h]; exact hj), Option.some.injEq] at hi
  rw [hi]
  rwa [types, List.length_map] at hlt

/-- Whatever fails before the tables are merged, the rest can only overflow. -/
theorem difference_throws {P : ProfileError → Prop} (hP : ∀ e, Overflows e → P e)
    {base current : PprofProfile} (hbase : Throws P (validateProfile base))
    (hcurrent : Throws P (validateProfile current))
    (htypes : Throws P (require ((types base).length = (types current).length ∧
      (types base).toFinset = (types current).toFinset) .incompatibleTypes))
    (hdomains : Throws P (require (domains base = domains current) .differentDomains)) :
    Throws P (difference toJson base current) := by
  unfold difference
  refine hbase.bind fun _ hb => hcurrent.bind fun _ hc => ?_
  refine htypes.bind fun _ ht => hdomains.bind fun _ _ => ?_
  rw [validateProfile_eq_ok_iff] at hb hc
  rw [require_eq_ok_iff] at ht
  refine (order_throws ht.2).bind fun order horder => ?_
  refine Throws.mono ?_ hP
  refine (Throws.foldlM (fun samples s hs => addCurrent_throws hc hs samples) _).bind
    fun samples _ => ?_
  have hlen := (internAll_ids_length base.strings.strings current.strings).ge
  set strings := (internAll base.strings.strings current.strings).1
  change Throws Overflows (relocate Mapping.id (copyMapping strings) _ _ _ _ >>= _)
  refine (relocate_throws (.inr rfl) (fun m hm n =>
    Throws.of_eq_ok (copyMapping_ok hlen hb hm n).choose_spec) _ _ _).bind ?_
  rintro ⟨mappingIds, mappings⟩ hmappings
  refine (relocate_throws (.inr rfl) (fun f hf n =>
    Throws.of_eq_ok (copyFunction_ok hlen hb hf n).choose_spec) _ _ _).bind ?_
  rintro ⟨functionIds, functions⟩ hfunctions
  obtain ⟨_, -, hmr, -⟩ := relocate_spec (fun _ _ _ hy => (copyMapping_same hy).1)
    hb.mappingIds.1 hmappings
  obtain ⟨_, -, hfr, -⟩ := relocate_spec (fun _ _ _ hy => (copyFunction_same hy).1)
    hb.functionIds.1 hfunctions
  refine (relocate_throws (.inr rfl) (fun l hl n =>
    Throws.of_eq_ok (copyLocation_ok hb hmr hfr hl n).choose_spec) _ _ _).bind ?_
  rintro ⟨locationIds, locations⟩ hlocations
  obtain ⟨_, -, hlr, -⟩ := relocate_spec (fun _ _ _ hy => (copyLocation_same hy).1)
    hb.locationIds.1 hlocations
  refine (Throws.foldlM (fun samples s hs => ?_) _).bind fun samples _ => .of_ok _
  exact subtractBase_throws hb (order_lt horder) hs
    (copySample_throws hb hlen (fun id hid => hlr.found hid) hs) samples

theorem supportedMetric_unit {name unit unit' : String} (h : supportedMetric name unit)
    (h' : supportedMetric name unit') : unit = unit' := by
  simp only [supportedMetric, decide_eq_true_eq] at h h'
  rcases h with ⟨hn, rfl⟩ | ⟨hn, rfl⟩ <;> rcases h' with ⟨hn', rfl⟩ | ⟨hn', rfl⟩
  · rfl
  · rcases hn with rfl | rfl <;> simp at hn'
  · rcases hn with rfl | rfl <;> simp at hn'
  · rfl

theorem types_subset_of_names {p q : PprofProfile} (hp : Valid p) (hq : Valid q)
    (h : ((types p).map Prod.fst).toFinset ⊆ ((types q).map Prod.fst).toFinset) :
    (types p).toFinset ⊆ (types q).toFinset := by
  intro metric hm
  rw [List.mem_toFinset] at hm ⊢
  have hname := h (List.mem_toFinset.mpr (List.mem_map_of_mem hm))
  obtain ⟨metric', hm', hname'⟩ := List.mem_map.mp (List.mem_toFinset.mp hname)
  have hs := hp.supported metric hm
  rw [← hname'] at hs
  rwa [← Prod.ext hname' (supportedMetric_unit (hq.supported metric' hm') hs)]

/-- No input makes the comparison panic, and two validated profiles with the
same metrics and heap domains can only overflow. -/
theorem difference_total (toJson : List FrameKey × List LabelKey → String)
    (base current : PprofProfile) :
    difference toJson base current ≠ .error .panic ∧
    (validateProfile base = .ok () → validateProfile current = .ok () →
      ((types base).map Prod.fst).toFinset = ((types current).map Prod.fst).toFinset →
      domains base = domains current →
      ∀ e, difference toJson base current = .error e →
        e = .differenceOverflow ∨ e = .identifierOverflow) := by
  constructor
  · intro he
    have hthrows : Throws NoPanic (difference toJson base current) := by
      apply difference_throws _ (validateProfile_throws base) (validateProfile_throws current)
      · exact throws_require _ (by simp [NoPanic])
      · exact throws_require _ (by simp [NoPanic])
      · rintro e (rfl | rfl) <;> simp [NoPanic]
    exact hthrows _ he rfl
  · intro hbase hcurrent hnames hdomains
    have hb := (validateProfile_eq_ok_iff base ()).mp hbase
    have hc := (validateProfile_eq_ok_iff current ()).mp hcurrent
    have htypes : (types base).toFinset = (types current).toFinset :=
      (types_subset_of_names hb hc hnames.subset).antisymm
        (types_subset_of_names hc hb hnames.superset)
    have hcount : (types base).length = (types current).length :=
      (List.perm_of_nodup_nodup_toFinset_eq hb.types_nodup hc.types_nodup htypes).length_eq
    apply difference_throws (fun e he => he) (.of_eq_ok hbase) (.of_eq_ok hcurrent)
    · exact .of_eq_ok ((require_eq_ok_iff _ _ ()).mpr ⟨hcount, htypes⟩)
    · exact .of_eq_ok ((require_eq_ok_iff _ _ ()).mpr hdomains)

def noStackKey : List FrameKey × List LabelKey → String := fun _ => "[[],[]]"

def oneSampleProfile (types : List ValueType) (values : List Int64) : PprofProfile :=
  { PprofProfile.withStrings
      (.ofStrings ["", "inuse_space", "bytes", "inuse_objects", "count"]) with
    valueTypes := types
    samples := [⟨[], values, []⟩] }

theorem noStack_sampleKey (index : ProfileIndex) (values : List Int64) :
    index.sampleKey noStackKey ⟨[], values, []⟩ = .ok "[[],[]]" := by
  simp [ProfileIndex.sampleKey, bind, Except.bind, pure, Except.pure, noStackKey]

def lowest : PprofProfile := oneSampleProfile [⟨1, 2⟩] [-0x8000000000000000]

def noSamples : PprofProfile := { lowest with samples := [] }

theorem difference_lowest :
    difference noStackKey lowest noSamples = .error .differenceOverflow := by
  have hsub : ∀ copy, copy [-0x8000000000000000] ⟨[], [-0x8000000000000000], []⟩ =
      .error .differenceOverflow → lowest.samples.foldlM
      (subtractBase noStackKey (.new lowest) [0] copy) ∅ = .error .differenceOverflow := by
    intro copy hcopy
    change subtractBase noStackKey (.new lowest) [0] copy ∅ _ >>= _ = _
    rw [subtractBase, noStack_sampleKey]
    simp only [bind, Except.bind, pure, Except.pure, orError, List.mapM_cons, List.mapM_nil,
      List.getElem?_cons_zero, Std.ExtTreeMap.not_mem_empty, not_false_eq_true,
      Std.ExtTreeMap.getElem?_eq_none, hcopy]
  have hbase : validateProfile lowest = .ok () := by decide
  have hcurrent : validateProfile noSamples = .ok () := by decide
  have htypes : require ((types lowest).length = (types noSamples).length ∧
      (types lowest).toFinset = (types noSamples).toFinset) .incompatibleTypes = .ok () := by
    decide
  have hdomains : require (domains lowest = domains noSamples) .differentDomains = .ok () := by
    decide
  have horder : (types noSamples).mapM (fun metric =>
      orError .panic ((types lowest).idxOf? metric)) = .ok [0] := rfl
  have hnone : noSamples.samples.foldlM (addCurrent noStackKey (.new noSamples)) ∅ = .ok ∅ := rfl
  have htables : lowest.mappings = [] ∧ lowest.functions = [] ∧ lowest.locations = [] :=
    ⟨rfl, rfl, rfl⟩
  simp only [difference, hbase, hcurrent, htypes, hdomains, horder, hnone, htables, relocate,
    ok_bind]
  exact bind_error _ (hsub _ rfl)

theorem difference_total_lowest : ∃ e, difference noStackKey lowest noSamples = .error e ∧
    (e = .differenceOverflow ∨ e = .identifierOverflow) :=
  ⟨_, difference_lowest, (difference_total noStackKey lowest noSamples).2 (by decide) (by decide)
    (by decide) (by decide) _ difference_lowest⟩

end PProfessor.Heap
