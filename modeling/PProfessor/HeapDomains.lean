import PProfessor.HeapOutput

set_option autoImplicit false

/-!
# Heap domains of a difference

`select_domain` of `src/heap/mod.rs`, and which domains of two snapshots their
difference still names: those with a stack that does not cancel out.
-/
namespace PProfessor.Heap
open CheckedArith Columns Fallible Pprof

inductive DomainError where
  | notHeap
  | overlapping (domains : List String)
  | unknown (requested : String)
  deriving DecidableEq, Repr

def DomainError.message : DomainError → String
  | .notHeap => "heap domain selection requires a heap profile"
  | .overlapping domains =>
    "profile contains overlapping heap domains; select one with --heap: " ++
      ", ".intercalate domains
  | .unknown requested => "unknown heap domain " ++ requested

def isHeapMetric (name : String) : Bool :=
  name = "alloc_space" ∨ name = "inuse_space" ∨ name = "alloc_objects" ∨ name = "inuse_objects"

def isHeap (profile : PprofProfile) : Bool :=
  profile.valueTypes.any fun v => profile.strings.strings[v.type.toNat]?.any isHeapMetric

/-- The closure `domain`: the text of the first `heap` label. -/
def domain (profile : PprofProfile) (sample : Sample) : String :=
  ((sample.labels.find? fun l => profile.strings.strings[l.key.toNat]? = some "heap").bind
    fun l => profile.strings.strings[l.strIndex.toNat]?).getD "[unspecified heap]"

def selectDomain (profile : PprofProfile) (requested : Option String) :
    Except DomainError PprofProfile :=
  if isHeap profile then
    let domains := (profile.samples.map (domain profile)).toFinset
    match requested with
    | none =>
      if domains.card ≤ 1 then .ok profile else .error (.overlapping (domains.sort (· ≤ ·)))
    | some requested =>
      if requested ∈ domains then
        .ok { profile with samples := profile.samples.filter fun s => domain profile s = requested }
      else .error (.unknown requested)
  else if requested = none then .ok profile else .error .notHeap

/-- `select_domain(profile, Some(d))` succeeds. -/
def Selects (profile : PprofProfile) (d : String) : Prop :=
  ∃ selected, selectDomain profile (some d) = .ok selected

theorem Valid.isHeap {p : PprofProfile} (h : Valid p) : isHeap p = true := by
  obtain ⟨v, rest, hv⟩ := List.exists_cons_of_ne_nil h.hasMetrics
  have hmem : v ∈ p.valueTypes := by simp [hv]
  have hs := List.getElem?_eq_getElem (l := p.strings.strings) (h.valueType v hmem).1
  have hm := h.supported _ (List.mem_map_of_mem hmem)
  rw [Heap.isHeap, List.any_eq_true]
  refine ⟨v, hmem, ?_⟩
  rw [hs, Option.any_some]
  rw [stringAt_eq hs] at hm
  simp only [supportedMetric, decide_eq_true_eq] at hm
  simp only [isHeapMetric, decide_eq_true_eq]
  tauto

theorem selects_iff {p : PprofProfile} (h : Valid p) (d : String) :
    Selects p d ↔ ∃ s ∈ p.samples, domain p s = d := by
  unfold Selects selectDomain
  rw [if_pos h.isHeap]
  by_cases hd : d ∈ (p.samples.map (domain p)).toFinset
  · simp only [hd, if_true, Except.ok.injEq, exists_eq', true_iff]
    simpa using hd
  · simp only [hd, if_false, reduceCtorEq, exists_false, false_iff]
    simpa using hd

/-- The texts of the `heap` labels. -/
def heapValues (p : PprofProfile) (labels : List Label) : List String :=
  (labels.filter fun l => stringAt p l.key = "heap").map fun l => stringAt p l.strIndex

theorem mem_domains_iff (p : PprofProfile) (d : String) :
    d ∈ domains p ↔ ∃ s ∈ p.samples, d ∈ heapValues p s.labels := by
  simp only [domains, heapValues, List.mem_toFinset, List.mem_flatMap]

theorem heapLabel_iff {p : PprofProfile} {id : UInt64} (h : InStrings p id) :
    p.strings.strings[id.toNat]? = some "heap" ↔ stringAt p id = "heap" := by
  have hs := List.getElem?_eq_getElem (l := p.strings.strings) h
  rw [stringAt, hs, Option.some.injEq, Option.getD_some]

theorem domain_eq {p : PprofProfile} {s : Sample}
    (h : ∀ label ∈ s.labels, InStrings p label.key ∧ InStrings p label.strIndex) :
    domain p s = (heapValues p s.labels).head?.getD "[unspecified heap]" := by
  unfold domain heapValues
  rw [List.head?_map]
  have hfind : (s.labels.find? fun l => p.strings.strings[l.key.toNat]? = some "heap") =
      (s.labels.filter fun l => stringAt p l.key = "heap").head? := by
    rw [List.head?_filter]
    apply List.find?_congr
    intro l hl
    rw [decide_eq_decide]
    exact heapLabel_iff (h l hl).1
  rw [hfind]
  cases hl : (s.labels.filter fun l => stringAt p l.key = "heap").head? with
  | none => rfl
  | some l =>
    have hmem : l ∈ s.labels := (List.mem_filter.mp (List.mem_of_head? hl)).1
    have hs := List.getElem?_eq_getElem (l := p.strings.strings) (h l hmem).2
    rw [Option.bind_some, hs, Option.map_some, stringAt_eq hs]

theorem heapValues_kept {base current out : PprofProfile} {strings : List UInt64}
    {functionIds locationIds : Std.ExtHashMap UInt64 UInt64}
    (h : Merged base current out strings functionIds locationIds) {s : Sample}
    (hs : s ∈ current.samples) : heapValues out s.labels = heapValues current s.labels := by
  have hlabels := (h.currentValid.sample s hs).2
  have hat : ∀ l ∈ s.labels, stringAt out l.key = stringAt current l.key ∧
      stringAt out l.strIndex = stringAt current l.strIndex := by
    intro l hl
    obtain ⟨hk, ht, -⟩ := hlabels l hl
    exact ⟨(h.string_kept hk).2, (h.string_kept ht).2⟩
  unfold heapValues
  rw [List.filter_congr fun l hl => by rw [(hat l hl).1]]
  apply List.map_congr_left
  intro l hl
  exact (hat l (List.mem_filter.mp hl).1).2

theorem heapValues_moved {base current out : PprofProfile} {strings : List UInt64}
    {functionIds locationIds : Std.ExtHashMap UInt64 UInt64}
    (h : Merged base current out strings functionIds locationIds) {s : Sample}
    (hs : s ∈ base.samples) :
    heapValues out (s.labels.map (renameLabel (moveString strings))) =
      heapValues base s.labels := by
  have hlabels := (h.baseValid.sample s hs).2
  have hat : ∀ id, InStrings base id → stringAt out (moveString strings id) = stringAt base id := by
    intro id hid
    have hs := List.getElem?_eq_getElem (l := base.strings.strings) hid
    obtain ⟨id', hid', hs'⟩ := h.stringsMoved _ _ hs
    rw [moveString, hid', Option.getD_some, stringAt_eq hs', stringAt_eq hs]
  unfold heapValues
  rw [List.filter_map, List.map_map]
  have hfilter : (s.labels.filter
      ((fun l => decide (stringAt out l.key = "heap")) ∘ renameLabel (moveString strings))) =
      s.labels.filter fun l => stringAt base l.key = "heap" := by
    apply List.filter_congr
    intro l hl
    change decide (stringAt out (moveString strings l.key) = "heap") = _
    rw [hat _ (hlabels l hl).1]
  rw [hfilter]
  apply List.map_congr_left
  intro l hl
  exact hat _ (hlabels l (List.mem_filter.mp hl).1).2.1

variable (toJson : List FrameKey × List LabelKey → String)

/-- The first of some samples of `p` with the key `k`. -/
def firstWith (p : PprofProfile) (samples : List Sample) (k : String) : Option Sample :=
  samples.find? fun s => keyOf toJson p s = some k

/-- The labels that the output shows for `k`, as texts: those of the first
sample of `current` with that key, or of `base` where `current` has none. -/
def standIn (base current : PprofProfile) (k : String) : Option (List String) :=
  ((firstWith toJson current current.samples k).map fun s => heapValues current s.labels).or
    ((firstWith toJson base base.samples k).map fun s => heapValues base s.labels)

variable {toJson}

theorem firstWith_concat {p : PprofProfile} {done : List Sample} {s : Sample} {key : String}
    (hkey : keyOf toJson p s = some key) (k : String) :
    firstWith toJson p (done ++ [s]) k =
      (firstWith toJson p done k).or (if key = k then some s else none) := by
  unfold firstWith
  rw [List.find?_append, List.find?_singleton, hkey]
  simp only [Option.some.injEq, decide_eq_true_eq]

theorem addCurrent_labels {current : PprofProfile} {samples : SampleMap}
    (h : current.samples.foldlM (addCurrent toJson (.new current)) ∅ = .ok samples) (k : String) :
    samples[k]?.map Sample.labels =
      (firstWith toJson current current.samples k).map Sample.labels := by
  refine foldlM_invariant (fun done (samples : SampleMap) => ∀ k : String,
    samples[k]?.map Sample.labels = (firstWith toJson current done k).map Sample.labels)
    current.samples ?_ ?_ h k
  · intro k
    simp [firstWith]
  · intro done s samples samples' hinv _ hstep k
    simp only [addCurrent, bind_eq_ok] at hstep
    obtain ⟨key, hkey, hstep⟩ := hstep
    rw [firstWith_concat ((keyOf_eq_some_iff toJson current s key).mpr hkey), Option.map_or,
      ← hinv k]
    cases hsam : samples[key]? with
    | none =>
      rw [hsam, Except.ok.injEq] at hstep
      rw [← hstep, Std.ExtTreeMap.getElem?_insert]
      by_cases hk : key = k
      · subst hk
        simp [hsam]
      · simp [hk]
    | some existing =>
      simp only [hsam, bind_eq_ok, Except.ok.injEq] at hstep
      obtain ⟨values, -, rfl⟩ := hstep
      rw [Std.ExtTreeMap.getElem?_insert]
      by_cases hk : key = k
      · subst hk
        simp [hsam]
      · simp [hk]

theorem subtractBase_labels {base : PprofProfile} {order : List ℕ} {strings : List UInt64}
    {locationIds : Std.ExtHashMap UInt64 UInt64} {samples samples' : SampleMap}
    (h : base.samples.foldlM (subtractBase toJson (.new base) order
      (copySample strings locationIds)) samples = .ok samples') (k : String) :
    samples'[k]?.map Sample.labels = (samples[k]?.map Sample.labels).or
      ((firstWith toJson base base.samples k).map fun s =>
        s.labels.map (renameLabel (moveString strings))) := by
  refine foldlM_invariant (fun done (samples' : SampleMap) => ∀ k : String,
    samples'[k]?.map Sample.labels = (samples[k]?.map Sample.labels).or
      ((firstWith toJson base done k).map fun s =>
        s.labels.map (renameLabel (moveString strings)))) base.samples ?_ ?_ h k
  · intro k
    simp [firstWith]
  · intro done s now next hinv _ hstep k
    simp only [subtractBase, bind_eq_ok] at hstep
    obtain ⟨key, hkey, values, -, hstep⟩ := hstep
    rw [firstWith_concat ((keyOf_eq_some_iff toJson base s key).mpr hkey), Option.map_or,
      ← Option.or_assoc, ← hinv k]
    cases hsam : now[key]? with
    | none =>
      simp only [hsam, bind_eq_ok, Except.ok.injEq] at hstep
      obtain ⟨moved, hcopy, rfl⟩ := hstep
      rw [Std.ExtTreeMap.getElem?_insert]
      by_cases hk : key = k
      · subst hk
        simp [hsam, (copySample_spec hcopy).2.1]
      · simp [hk]
    | some existing =>
      simp only [hsam, bind_eq_ok, Except.ok.injEq] at hstep
      obtain ⟨values, -, rfl⟩ := hstep
      rw [Std.ExtTreeMap.getElem?_insert]
      by_cases hk : key = k
      · subst hk
        simp [hsam]
      · simp [hk]

variable (toJson)

/-- Under `k` the two profiles differ in some metric. -/
def Survives (base current : PprofProfile) (k : String) : Prop :=
  ∃ metric ∈ types current, cost toJson current metric k ≠ cost toJson base metric k

variable {toJson}

theorem exists_nonzero_iff (values : List Int64) :
    (∃ v ∈ values, v ≠ 0) ↔ ∃ j < values.length, cell values j ≠ 0 := by
  constructor
  · rintro ⟨v, hv, hne⟩
    obtain ⟨j, hj, rfl⟩ := List.mem_iff_getElem.mp hv
    refine ⟨j, hj, ?_⟩
    rw [cell, List.getElem?_eq_getElem hj]
    exact fun hz => hne (Int64.toInt_inj.mp hz)
  · rintro ⟨j, hj, hne⟩
    rw [cell, List.getElem?_eq_getElem hj] at hne
    refine ⟨values[j], List.getElem_mem hj, fun hz => hne ?_⟩
    rw [hz]
    rfl

namespace Stages

variable {base current out : PprofProfile}
  {strings : List UInt64} {mappingIds functionIds locationIds : Std.ExtHashMap UInt64 UInt64}
  {mappings : List Mapping} {functions : List Function} {locations : List Location}
  {order : List ℕ} {samples samples' : SampleMap}
  (h : Stages toJson base current out strings mappingIds functionIds locationIds mappings
    functions locations order samples samples')
include h

theorem cell_entry {k : String} {e : Sample} (hk : samples'[k]? = some e)
    {metric : String × String} (hm : metric ∈ types current) :
    cell e.values ((types current).idxOf metric) =
      cost toJson current metric k - cost toJson base metric k := by
  have hrow := h.tally.row k ((types current).idxOf metric)
  rw [rows_eq_cost rfl, rows_reordered h.ordered hm] at hrow
  rw [← hrow, rowAt, hk]
  rfl

theorem nonzero_iff {k : String} {e : Sample} (hk : samples'[k]? = some e) :
    (∃ v ∈ e.values, v ≠ 0) ↔ Survives toJson base current k := by
  have hwidth : e.values.length = (types current).length := by
    rw [(h.tally.entry k e hk).2.1, types, List.length_map]
  rw [exists_nonzero_iff, hwidth]
  constructor
  · rintro ⟨j, hj, hne⟩
    have hm := List.getElem_mem hj
    refine ⟨(types current)[j], hm, ?_⟩
    have hc := h.cell_entry hk hm
    rw [h.merged.currentValid.types_nodup.idxOf_getElem j hj] at hc
    omega
  · rintro ⟨metric, hm, hne⟩
    refine ⟨_, List.idxOf_lt_length_of_mem hm, ?_⟩
    rw [h.cell_entry hk hm]
    omega

/-- The texts of an entry's `heap` labels are those of the sample that stands for its key. -/
theorem entry_values (k : String) :
    samples'[k]?.map (fun e => heapValues out e.labels) = standIn toJson base current k := by
  have hlabels := subtractBase_labels h.subtracted k
  rw [addCurrent_labels h.added k] at hlabels
  have hmap : samples'[k]?.map (fun e => heapValues out e.labels) =
      (samples'[k]?.map Sample.labels).map (heapValues out) := by
    rw [Option.map_map]
    rfl
  rw [hmap, hlabels, Option.map_or, Option.map_map, Option.map_map]
  unfold standIn
  congr 1
  · apply Option.map_congr
    intro s hs
    exact heapValues_kept h.merged (List.mem_of_find?_eq_some hs)
  · apply Option.map_congr
    intro s hs
    exact heapValues_moved h.merged (List.mem_of_find?_eq_some hs)

theorem shown_iff (P : List String → Prop) :
    (∃ s ∈ out.samples, P (heapValues out s.labels)) ↔
      ∃ k texts, standIn toJson base current k = some texts ∧ P texts ∧
        Survives toJson base current k := by
  constructor
  · rintro ⟨s, hs, hP⟩
    obtain ⟨k, hk⟩ := h.entry_of_mem hs
    rw [h.shown, List.mem_filter] at hs
    refine ⟨k, _, ?_, hP, (h.nonzero_iff hk).mp (by simpa using hs.2)⟩
    rw [← h.entry_values, hk]
    rfl
  · rintro ⟨k, texts, htexts, hP, hsurvives⟩
    rw [← h.entry_values, Option.map_eq_some_iff] at htexts
    obtain ⟨s, hk, rfl⟩ := htexts
    refine ⟨s, ?_, hP⟩
    have hne := (h.nonzero_iff hk).mpr hsurvives
    rw [h.shown, List.mem_filter]
    exact ⟨List.mem_map_of_mem (Std.ExtTreeMap.mem_toList_iff_getElem?_eq_some.mpr hk),
      by simpa using hne⟩

theorem standIn_subset {k : String} {texts : List String}
    (hk : standIn toJson base current k = some texts) {d : String} (hd : d ∈ texts) :
    d ∈ domains current := by
  rw [standIn, Option.or_eq_some_iff, Option.map_eq_some_iff, Option.map_eq_some_iff] at hk
  rcases hk with ⟨s, hs, rfl⟩ | ⟨-, s, hs, rfl⟩
  · exact (mem_domains_iff current d).mpr ⟨s, List.mem_of_find?_eq_some hs, hd⟩
  · rw [← h.sameDomains]
    exact (mem_domains_iff base d).mpr ⟨s, List.mem_of_find?_eq_some hs, hd⟩

end Stages

/-- A difference names every domain of its inputs, and lets each be selected as
they do, exactly where a stack with that domain does not cancel out. -/
theorem difference_keeps_domains_iff (toJson : List FrameKey × List LabelKey → String)
    (base current out : PprofProfile) (h : difference toJson base current = .ok out)
    (hlen : out.strings.strings.length < 2 ^ 64) :
    (domains out = domains current ∧
      ∀ d ∈ domains current, Selects base d → Selects current d → Selects out d) ↔
    (∀ d ∈ domains current, ∃ k texts, standIn toJson base current k = some texts ∧ d ∈ texts ∧
      Survives toJson base current k) ∧
    ∀ d ∈ domains current, Selects base d → Selects current d →
      ∃ k texts, standIn toJson base current k = some texts ∧
        texts.head?.getD "[unspecified heap]" = d ∧ Survives toJson base current k := by
  obtain ⟨strings, mappingIds, functionIds, locationIds, mappings, functions, locations, order,
    samples, samples', hs⟩ := difference_stages h hlen
  have hvalid := hs.valid_out
  have hmem : ∀ d, d ∈ domains out ↔ ∃ k texts, standIn toJson base current k = some texts ∧
      d ∈ texts ∧ Survives toJson base current k := by
    intro d
    rw [mem_domains_iff, ← hs.shown_iff fun texts => d ∈ texts]
  have hselects : ∀ d, Selects out d ↔ ∃ k texts,
      standIn toJson base current k = some texts ∧
        texts.head?.getD "[unspecified heap]" = d ∧ Survives toJson base current k := by
    intro d
    rw [selects_iff hvalid, ← hs.shown_iff fun texts => texts.head?.getD "[unspecified heap]" = d]
    refine exists_congr fun s => and_congr_right fun hmem => ?_
    rw [domain_eq fun label hl => ?_]
    obtain ⟨hk, ht, -⟩ := (hvalid.sample s hmem).2 label hl
    exact ⟨hk, ht⟩
  have hsubset : domains out ⊆ domains current := by
    intro d hd
    obtain ⟨k, texts, hk, hdt, -⟩ := (hmem d).mp hd
    exact hs.standIn_subset hk hdt
  refine and_congr ?_ ?_
  · rw [Finset.Subset.antisymm_iff, and_iff_right hsubset]
    exact forall_congr' fun d => imp_congr_right fun _ => hmem d
  · exact forall_congr' fun d => imp_congr_right fun _ => imp_congr_right fun _ =>
      imp_congr_right fun _ => hselects d

theorem difference_self_samples {toJson : List FrameKey × List LabelKey → String}
    {p out : PprofProfile} (h : difference toJson p p = .ok out)
    (hlen : out.strings.strings.length < 2 ^ 64) : out.samples = [] := by
  obtain ⟨strings, mappingIds, functionIds, locationIds, mappings, functions, locations, order,
    samples, samples', hs⟩ := difference_stages h hlen
  rw [List.eq_nil_iff_forall_not_mem]
  intro s hmem
  obtain ⟨_, _, _, -, metric, -, hne⟩ := (hs.shown_iff fun _ => True).mp ⟨s, hmem, trivial⟩
  exact hne rfl

def nativeKey : List FrameKey × List LabelKey → String :=
  fun _ => "[[],[[\"heap\",\"native\",0,\"\"]]]"

/-- A native heap with one sample without a stack. The empty heap has `value` 0. -/
def nativeHeap (value : Int64) : PprofProfile :=
  { PprofProfile.withStrings (.ofStrings ["", "inuse_space", "bytes", "heap", "native"]) with
    valueTypes := [⟨1, 2⟩]
    samples := [⟨[], [value], [⟨3, 4, 0, 0⟩]⟩] }

theorem native_sampleKey (value value' : Int64) :
    (ProfileIndex.new (nativeHeap value)).sampleKey nativeKey ⟨[], [value'], [⟨3, 4, 0, 0⟩]⟩ =
      .ok "[[],[[\"heap\",\"native\",0,\"\"]]]" := by
  have hlabel : (ProfileIndex.new (nativeHeap value)).labelKey ⟨3, 4, 0, 0⟩ =
      .ok ("heap", "native", 0, "") := rfl
  simp only [ProfileIndex.sampleKey, List.mapM_nil, List.mapM_cons, hlabel, pure, Except.pure,
    ok_bind, nativeKey]

/-- The map of the native heap's one sample. -/
def nativeSamples (value : Int64) : SampleMap :=
  (∅ : SampleMap).insert "[[],[[\"heap\",\"native\",0,\"\"]]]" ⟨[], [value], [⟨3, 4, 0, 0⟩]⟩

theorem native_difference {value : Int64} (hsub : subI64 value 0 = some value) :
    ∃ out, difference nativeKey (nativeHeap 0) (nativeHeap value) = .ok out := by
  have hadd : (nativeHeap value).samples.foldlM (addCurrent nativeKey (.new (nativeHeap value))) ∅ =
      .ok (nativeSamples value) := by
    change addCurrent nativeKey (.new (nativeHeap value)) ∅ _ >>= _ = _
    rw [addCurrent, native_sampleKey]
    simp [bind, Except.bind, pure, Except.pure, nativeSamples]
  have hsubtract : ∀ copy, (nativeHeap 0).samples.foldlM
      (subtractBase nativeKey (.new (nativeHeap 0)) [0] copy) (nativeSamples value) =
      .ok ((nativeSamples value).insert "[[],[[\"heap\",\"native\",0,\"\"]]]"
        ⟨[], [value], [⟨3, 4, 0, 0⟩]⟩) := by
    intro copy
    change subtractBase nativeKey (.new (nativeHeap 0)) [0] copy _ _ >>= _ = _
    rw [subtractBase, native_sampleKey]
    have hv : add [value] [0] (-1) = .ok [value] := by
      rw [add, if_neg (by decide), hsub]
      rfl
    simp [bind, Except.bind, pure, Except.pure, hv, orError, nativeSamples]
  have hvalid : ∀ value, validateProfile (nativeHeap value) = .ok () := fun _ => rfl
  simp only [difference, bind_eq_ok, require_eq_ok_iff, exists_const, Except.ok.injEq]
  exact ⟨_, (), hvalid 0, (), hvalid value, ⟨rfl, rfl⟩, rfl, [0], rfl, _, hadd, (_, []), rfl,
    (_, []), rfl, (_, []), rfl, _, hsubtract _, rfl⟩

theorem native_strings_lt {base current out : PprofProfile}
    (h : difference nativeKey base current = .ok out)
    (hb : base.strings.strings.length = 5) (hc : current.strings.strings.length = 5) :
    out.strings.strings.length < 2 ^ 64 := by
  have hle := difference_strings_length_le h
  omega

/-- The difference of two empty heaps names no domain, though each of them does. -/
theorem emptyHeaps_lose_domain : ∃ out,
    difference nativeKey (nativeHeap 0) (nativeHeap 0) = .ok out ∧
    domains (nativeHeap 0) = {"native"} ∧ Selects (nativeHeap 0) "native" ∧
    domains out = ∅ ∧ ¬ Selects out "native" := by
  obtain ⟨out, h⟩ := native_difference (show subI64 0 0 = some 0 from rfl)
  have hlen := native_strings_lt h rfl rfl
  have hvalid : Valid (nativeHeap 0) := (validateProfile_eq_ok_iff _ ()).mp rfl
  have hsamples := difference_self_samples h hlen
  refine ⟨out, h, rfl, (selects_iff hvalid _).mpr ⟨_, List.mem_singleton_self _, rfl⟩, ?_, ?_⟩
  · rw [domains, hsamples]
    rfl
  · rintro ⟨selected, hselected⟩
    simp only [selectDomain, hsamples, List.map_nil, List.toFinset_nil, Finset.notMem_empty,
      if_false, reduceCtorEq] at hselected
    split_ifs at hselected

theorem difference_keeps_domains_iff_used : ∃ out,
    difference nativeKey (nativeHeap 0) (nativeHeap 64) = .ok out ∧ domains out = {"native"} := by
  obtain ⟨out, h⟩ := native_difference (show subI64 64 0 = some 64 from rfl)
  have hlen := native_strings_lt h rfl rfl
  have hkey : ∀ value value', keyOf nativeKey (nativeHeap value) ⟨[], [value'], [⟨3, 4, 0, 0⟩]⟩ =
      some "[[],[[\"heap\",\"native\",0,\"\"]]]" := by
    intro value value'
    rw [keyOf_eq_some_iff]
    exact native_sampleKey value value'
  have hfirst : firstWith nativeKey (nativeHeap 64) (nativeHeap 64).samples
      "[[],[[\"heap\",\"native\",0,\"\"]]]" = some ⟨[], [64], [⟨3, 4, 0, 0⟩]⟩ := by
    change List.find? _ [_] = _
    simp [hkey]
  have hcost : ∀ value, cost nativeKey (nativeHeap value) ("inuse_space", "bytes")
      "[[],[[\"heap\",\"native\",0,\"\"]]]" = value.toInt := by
    intro value
    unfold cost
    rw [show (nativeHeap value).samples = [⟨[], [value], [⟨3, 4, 0, 0⟩]⟩] from rfl,
      KeyedSum.total_cons, hkey, if_pos rfl, KeyedSum.total_nil, add_zero]
    rfl
  have hstands : ∀ d ∈ domains (nativeHeap 64), ∃ k texts,
      standIn nativeKey (nativeHeap 0) (nativeHeap 64) k = some texts ∧
        (texts = [d]) ∧ Survives nativeKey (nativeHeap 0) (nativeHeap 64) k := by
    intro d hd
    have hd' : d = "native" := by simpa using (show d ∈ ({"native"} : Finset String) from hd)
    refine ⟨"[[],[[\"heap\",\"native\",0,\"\"]]]", ["native"], ?_, by rw [hd'],
      ("inuse_space", "bytes"), List.mem_singleton_self _, ?_⟩
    · rw [standIn, hfirst]
      rfl
    · rw [hcost, hcost]
      decide
  refine ⟨out, h, ((difference_keeps_domains_iff nativeKey _ _ out h hlen).mpr ⟨?_, ?_⟩).1⟩
  · intro d hd
    obtain ⟨k, texts, hk, rfl, hs⟩ := hstands d hd
    exact ⟨k, _, hk, List.mem_singleton_self d, hs⟩
  · intro d hd _ _
    obtain ⟨k, texts, hk, rfl, hs⟩ := hstands d hd
    exact ⟨k, _, hk, rfl, hs⟩

end PProfessor.Heap
