import PProfessor.FlamegraphCosts
import PProfessor.ReportCosts
import PProfessor.ReportTreeCosts
import PProfessor.StackAgreement

set_option autoImplicit false

/-!
# The call tree of the report and the flame graph of the app

The report adds signed values, the app shows what grew and what shrank on its own. Along
every path of function names the report's nodes have the difference of the two graphs.
-/
namespace PProfessor.GraphAgreement
open CheckedArith CostTree Fallible Kit KeyedSum NumberedTable Pprof Report StackAgreement
open StackCosts (whole whole_resolved)

def namedValues (p : PprofProfile) (samples : List Sample) (sampleIndex : ℕ) :
    List (List String × ℤ) :=
  samples.filterMap fun s => s.values[sampleIndex]?.map fun v => (reportNames p s, v.toInt)

def signed (sign : ProfileValueSign) (value : ℤ) : ℤ :=
  match sign with
  | .positive => max value 0
  | .negative => max (-value) 0

/-- A column without filters. -/
def shownColumn (sampleIndex : ℕ) (sign : ProfileValueSign) : ConversionOptions where
  valueTypeIndex := sampleIndex
  threadFilter := none
  timeRangeNanos := none
  valueSign := sign
  heapDomain := none

section App

variable {canon : String → String} {p : PprofProfile} {d : DecodedProfile} {sampleIndex : ℕ}
  {sign : ProfileValueSign}

theorem passes_shownColumn (s : Sample) :
    passes canon d (shownColumn sampleIndex sign) none s = .ok true := rfl

theorem rawValue_shownColumn (s : Sample) :
    rawValue (shownColumn sampleIndex sign) s = s.values[sampleIndex]? := by
  have hnonneg : ¬(sampleIndex : ℤ) < 0 := by omega
  simp [rawValue, shownColumn, hnonneg]

theorem signed_of_magnitude (sampleIndex : ℕ) (sign : ProfileValueSign) {v : Int64}
    (hmin : v.toInt ≠ -2 ^ 63) :
    (magnitude (shownColumn sampleIndex sign) v = none ∧ signed sign v.toInt = 0) ∨
      (magnitude (shownColumn sampleIndex sign) v ≠ none ∧
        (counted v).toInt = signed sign v.toInt) := by
  have hne : v ≠ -0x8000000000000000 := by
    rintro rfl
    exact hmin rfl
  have hcounted := counted_toInt v
  rw [if_neg hne, sub_zero] at hcounted
  cases sign with
  | positive =>
    by_cases hpos : 0 < v
    · have hlt : 0 < v.toInt := Int64.lt_iff_toInt_lt.mp hpos
      refine Or.inr ⟨by simp [magnitude, shownColumn, hpos], ?_⟩
      rw [hcounted, abs_of_pos hlt, signed, max_eq_left hlt.le]
    · have hle : v.toInt ≤ 0 := by
        by_contra hlt
        exact hpos (Int64.lt_iff_toInt_lt.mpr (not_le.mp hlt))
      exact Or.inl ⟨by simp [magnitude, shownColumn, hpos], max_eq_right hle⟩
  | negative =>
    by_cases hneg : v < 0
    · have hlt : v.toInt < 0 := Int64.lt_iff_toInt_lt.mp hneg
      refine Or.inr ⟨by simp [magnitude, shownColumn, hneg], ?_⟩
      rw [hcounted, abs_of_neg hlt, signed, max_eq_left (by omega)]
    · have hle : 0 ≤ v.toInt := by
        by_contra hlt
        exact hneg (Int64.lt_iff_toInt_lt.mpr (not_le.mp hlt))
      exact Or.inl ⟨by simp [magnitude, shownColumn, hneg], max_eq_right (by omega)⟩

/-- What the app adds up under a key of the names. -/
theorem total_passing {κ : Type} [DecidableEq κ] (key : List String → κ) (k : κ)
    {samples : List Sample} {passing : List (Int64 × List WalkedFrame)}
    (hnames : ∀ s ∈ samples, ∃ frames, walkStack d s = .ok frames ∧
      frames.map WalkedFrame.name = reportNames p s)
    (hmin : ∀ y ∈ namedValues p samples sampleIndex, y.2 ≠ -2 ^ 63)
    (hpassing : passingFrom canon d (shownColumn sampleIndex sign) none samples = .ok passing) :
    total (fun x => key (x.2.map WalkedFrame.name)) countedValue passing k =
      total (fun y => key y.1) (fun y => signed sign y.2) (namedValues p samples sampleIndex)
        k := by
  induction samples generalizing passing with
  | nil =>
    cases hpassing
    rfl
  | cons s rest ih =>
    obtain ⟨⟨frames, hwalk, hframes⟩, hrest⟩ := List.forall_mem_cons.mp hnames
    rw [passingFrom, rawValue_shownColumn] at hpassing
    cases hvalue : s.values[sampleIndex]? with
    | none =>
      have hcons : namedValues p (s :: rest) sampleIndex = namedValues p rest sampleIndex := by
        simp [namedValues, hvalue]
      rw [hcons] at hmin ⊢
      rw [hvalue] at hpassing
      exact ih hrest hmin hpassing
    | some v =>
      have hcons : namedValues p (s :: rest) sampleIndex =
          (reportNames p s, v.toInt) :: namedValues p rest sampleIndex := by
        simp [namedValues, hvalue]
      rw [hcons, List.forall_mem_cons] at hmin
      rw [hvalue] at hpassing
      rw [hcons, total_cons]
      rcases signed_of_magnitude sampleIndex sign hmin.1 with
        ⟨hnone, hzero⟩ | ⟨hsome, hcounted⟩
      · simp only [hnone, if_true] at hpassing
        rw [hzero, ite_self, zero_add]
        exact ih hrest hmin.2 hpassing
      · simp only [if_neg hsome, passes_shownColumn, ok_bind, if_true, hwalk, bind_eq_ok, pure,
          Except.pure, Except.ok.injEq] at hpassing
        obtain ⟨later, hlater, rfl⟩ := hpassing
        rw [total_cons, ih hrest hmin.2 hlater, hframes]
        simp only [countedValue, hcounted]

theorem total_unit {α : Type} (weight : α → ℤ) (xs : List α) :
    total (fun _ => ()) weight xs () = (xs.map weight).sum := by
  simp [total]

variable {result : ProfileConversionResult}

theorem graph_costs (hheap : selectedHeapOf canon d (shownColumn sampleIndex sign) = .ok none)
    (hnames : ∀ s ∈ d.samples, ∃ frames, walkStack d s = .ok frames ∧
      frames.map WalkedFrame.name = reportNames p s)
    (hmin : ∀ y ∈ namedValues p d.samples sampleIndex, y.2 ≠ -2 ^ 63)
    (hdistinct : ∀ passing, passingSamples canon d (shownColumn sampleIndex sign) = .ok passing →
      DistinctPaths canon passing)
    (h : convertProfile canon d (shownColumn sampleIndex sign) = .ok result) :
    result.totalValue.toInt =
        ((namedValues p d.samples sampleIndex).map fun y => signed sign y.2).sum ∧
      ∀ names,
        result.sumAt canon (fun node => node.totalValue.toInt) names =
          total (fun y => decide (keysFrom canon "root" names <+: keysFrom canon "root" y.1))
            (fun y => signed sign y.2) (namedValues p d.samples sampleIndex) true ∧
        result.sumAt canon (fun node => node.selfValue.toInt) names =
          total (fun y => keysFrom canon "root" y.1) (fun y => signed sign y.2)
            (namedValues p d.samples sampleIndex) (keysFrom canon "root" names) := by
  obtain ⟨passing, hpassing, htotal, hshows, -⟩ := convertProfile_showsCosts h
  have hcosts := hshows (hdistinct passing hpassing)
  simp only [passingSamples, hheap, ok_bind] at hpassing
  refine ⟨?_, fun names => ⟨?_, ?_⟩⟩
  · rw [htotal, ← total_unit, ← total_passing (fun _ => ()) () hnames hmin hpassing, total_unit]
    rfl
  · rw [hcosts.total]
    exact total_passing (fun y => decide (keysFrom canon "root" names <+: keysFrom canon "root" y))
      true hnames hmin hpassing
  · rw [hcosts.own]
    exact total_passing (keysFrom canon "root") _ hnames hmin hpassing

end App

section Ranked

variable {p : PprofProfile} {sampleIndex : ℕ}

theorem WellLinked.uniqueIds (h : WellLinked p) : UniqueIds p := ⟨h.locationIds, h.functionIds⟩

def namesOf (p : PprofProfile) (key : List FrameIdentity) : List String :=
  key.map fun id => (identityNames p id).1

theorem reportNames_identities (h : UniqueIds p) (s : Sample) :
    reportNames p s = namesOf p (frameIdentities p s) := by
  rw [reportNames, namesOf, ← resolveStack_identities h, List.map_map]
  apply List.map_congr_left
  intro frame hframe
  exact congrArg Prod.fst (resolveStack_named h s frame hframe)

theorem namedValues_eq (h : UniqueIds p) (sampleIndex : ℕ) :
    namedValues p p.samples sampleIndex =
      (weighted p sampleIndex).map fun s => (namesOf p s.1, s.2) := by
  simp [namedValues, weighted, List.map_filterMap, Option.map_map, Function.comp_def,
    reportNames_identities h]

theorem grouped_stacks {samples : List (List FrameIdentity × ℤ)} {keys : List (List FrameIdentity)}
    (hnodup : keys.Nodup) (hkeys : ∀ key, key ∈ keys ↔ key ≠ [] ∧ ∃ s ∈ samples, s.1 = key) :
    Grouped (keys.map fun key => (key, whole samples key))
      (samples.filter fun s => s.1 ≠ []) := by
  have hmem : ∀ key, key ∈ keys ↔ key ∈ (samples.filter fun s => s.1 ≠ []).map Prod.fst := by
    intro key
    rw [hkeys, List.mem_map]
    simp only [List.mem_filter, decide_eq_true_eq]
    constructor
    · rintro ⟨hne, s, hs, rfl⟩
      exact ⟨s, ⟨hs, hne⟩, rfl⟩
    · rintro ⟨s, ⟨hs, hne⟩, rfl⟩
      exact ⟨hne, s, hs, rfl⟩
  refine ⟨by simpa [Function.comp_def] using hnodup, fun key value => ?_⟩
  rw [← hmem]
  have hwhole : key ∈ keys →
      whole samples key = total Prod.fst Prod.snd (samples.filter fun s => s.1 ≠ []) key :=
    fun hkey => (whole_resolved ((hkeys key).mp hkey).1).symm
  simp only [List.mem_map, Prod.mk.injEq]
  constructor
  · rintro ⟨key, hkey, rfl, rfl⟩
    exact ⟨hkey, hwhole hkey⟩
  · rintro ⟨hkey, rfl⟩
    exact ⟨key, hkey, rfl, hwhole hkey⟩

variable {report : ProfileReport}

theorem topStacks_eq (h : Attributed p sampleIndex report) : ∃ keys : List (List FrameIdentity),
    Grouped (keys.map fun key => (key, whole (weighted p sampleIndex) key))
      ((weighted p sampleIndex).filter fun s => s.1 ≠ []) ∧
    report.topStacks.map (fun stack => (stack.frames.map ReportFrame.function,
        CallTree.stackValue stack)) =
      keys.map fun key => (namesOf p key, whole (weighted p sampleIndex) key) := by
  obtain ⟨keys, hnodup, hkeys, hrows⟩ := h.topStacks
  refine ⟨keys, grouped_stacks hnodup hkeys, ?_⟩
  symm
  apply map_eq_of_forall₂
  refine hrows.imp fun key stack hrow => ?_
  have hnames := congrArg (List.map Prod.fst) hrow.names
  simp only [List.map_map, Function.comp_def] at hnames
  simp only [namesOf, CallTree.stackValue, hrow.value, hnames]

theorem total_topStacks {κ : Type} [DecidableEq κ] (h : Attributed p sampleIndex report)
    (hunique : UniqueIds p) (key : List String → κ) {k : κ} (hk : key [] ≠ k) :
    total (fun stack : StackStat => key (stack.frames.map ReportFrame.function))
        CallTree.stackValue report.topStacks k =
      total (fun y => key y.1) Prod.snd (namedValues p p.samples sampleIndex) k := by
  obtain ⟨keys, hgrouped, hstacks⟩ := topStacks_eq h
  have hstored := total_map (fun y : List String × ℤ => key y.1) Prod.snd
    (fun stack : StackStat => (stack.frames.map ReportFrame.function, CallTree.stackValue stack))
    report.topStacks k
  rw [← hstored, hstacks, total_map]
  have hcomp := hgrouped.total_comp (fun key' => key (namesOf p key')) k
  rw [total_map] at hcomp
  rw [hcomp, namedValues_eq hunique, total_map]
  apply total_filter_key
  intro s _ hs
  rw [decide_eq_true_eq]
  intro hempty
  rw [hempty] at hs
  exact hk hs

theorem sum_abs_topStacks (h : Attributed p sampleIndex report) :
    (report.topStacks.map fun stack => |stack.value.toInt|).sum ≤
      StackCosts.magnitude (weighted p sampleIndex) := by
  obtain ⟨keys, hgrouped, hstacks⟩ := topStacks_eq h
  have habs := congrArg (List.map fun y : List String × ℤ => |y.2|) hstacks
  simp only [List.map_map, Function.comp_def, CallTree.stackValue] at habs
  rw [habs]
  have hkeys : ∀ s ∈ (weighted p sampleIndex).filter fun s => s.1 ≠ [], s.1 ∈ keys := by
    intro s hs
    have hmem := (hgrouped.keys_iff s.1).mpr (List.mem_map_of_mem hs)
    simpa [Function.comp_def] using hmem
  have hnodup : keys.Nodup := by simpa [Function.comp_def] using hgrouped.nodup
  have hsum := sum_total Prod.fst (fun s : List FrameIdentity × ℤ => |s.2|) hnodup hkeys
  calc (keys.map fun key => |whole (weighted p sampleIndex) key|).sum
      ≤ (keys.map (total Prod.fst (fun s : List FrameIdentity × ℤ => |s.2|)
          ((weighted p sampleIndex).filter fun s => s.1 ≠ []))).sum := by
        apply List.sum_le_sum
        intro key hkey
        have hwhole := ((hgrouped.mem_iff key _).mp
          (List.mem_map_of_mem (f := fun key => (key, whole (weighted p sampleIndex) key)) hkey)).2
        rw [hwhole]
        exact abs_total_le _ _ _
    _ = (((weighted p sampleIndex).filter fun s => s.1 ≠ []).map fun s => |s.2|).sum := hsum
    _ ≤ StackCosts.magnitude (weighted p sampleIndex) := by
        refine (List.filter_sublist.map _).sum_le_sum ?_
        simp only [List.mem_map]
        rintro _ ⟨s, -, rfl⟩
        exact abs_nonneg s.2

/-- The sum of `f` over the nodes of the call tree whose names spell the path of the names. -/
def treeSum (canon : String → String) (f : CallTree → ℤ) (tree : CallTree) (names : List String) :
    ℤ :=
  (CallTree.spelledView canon).sumAt (fun node => f node.2) (keysFrom canon "root" names)
    ("root", tree)

theorem tree_costs (canon : String → String) (h : Attributed p sampleIndex report)
    (hunique : UniqueIds p) (hfit : StackCosts.magnitude (weighted p sampleIndex) < 2 ^ 63)
    {tree : CallTree} (htree : CallTree.Reordered (CallTree.fromStacks report.topStacks) tree)
    {names : List String} (hnames : names ≠ []) :
    treeSum canon (fun node => node.value.toInt) tree names =
        total (fun y => decide (keysFrom canon "root" names <+: keysFrom canon "root" y.1)) Prod.snd
          (namedValues p p.samples sampleIndex) true ∧
      treeSum canon (fun node => node.selfValue.toInt) tree names =
        total (fun y => keysFrom canon "root" y.1) Prod.snd (namedValues p p.samples sampleIndex)
          (keysFrom canon "root" names) := by
  have hshows := CallTree.fromStacks_shows canon
    (lt_of_le_of_lt (sum_abs_topStacks h) hfit)
  have hkeys : keysFrom canon "root" names ≠ [] := by
    cases names with
    | nil => exact absurd rfl hnames
    | cons name rest => exact List.cons_ne_nil _ _
  constructor
  · refine (CallTree.Reordered.sumAt_eq (fun _ _ _ hab => ?_) _ _ htree).symm.trans
      ((hshows.cost _).trans ?_)
    · exact congrArg Int64.toInt hab.value
    · refine total_topStacks h hunique
        (fun y => decide (keysFrom canon "root" names <+: keysFrom canon "root" y)) ?_
      simpa [keysFrom] using hkeys
  · refine (CallTree.Reordered.sumAt_eq (fun _ _ _ hab => ?_) _ _ htree).symm.trans
      ((hshows.own _).trans ?_)
    · exact congrArg Int64.toInt hab.selfValue
    · exact total_topStacks h hunique (keysFrom canon "root") hkeys.symm

end Ranked

theorem signed_sub (value : ℤ) : signed .positive value - signed .negative value = value := by
  simp only [signed]
  omega

theorem signed_add (value : ℤ) : signed .positive value + signed .negative value = |value| := by
  simp only [signed, abs_eq_max_neg]
  omega

theorem walkStack_names {p : PprofProfile} {d : DecodedProfile} (hagrees : d.Agrees p)
    (hp : WellLinked p) {s : Sample} (h : ∀ id ∈ s.locationIds, ∀ l,
      lookup Location.id p.locations id = some l → Unaffected p l) :
    ∃ frames, walkStack d s = .ok frames ∧ frames.map WalkedFrame.name = reportNames p s := by
  obtain ⟨periodType, -, rfl⟩ := hagrees
  have hfit : LocationsFit p s.locationIds.reverse :=
    fun id hid l hl => (h id (List.mem_reverse.mp hid) l hl).fits
  obtain ⟨frames, hwalk⟩ := walkLocations_of_fit periodType hfit
  refine ⟨frames, hwalk, ?_⟩
  rw [(walkLocations_ok hp hwalk).2, reportNames_eq hp]
  apply List.flatMap_congr
  intro id hid
  unfold locationNames
  cases hl : lookup Location.id p.locations id with
  | none => rfl
  | some l => exact (h id (List.mem_reverse.mp hid) l hl).palindrome.symm

theorem value_fits {p : PprofProfile} (hunique : UniqueIds p) {sampleIndex : ℕ}
    (hfit : StackCosts.magnitude (weighted p sampleIndex) < 2 ^ 63) :
    ∀ y ∈ namedValues p p.samples sampleIndex, y.2 ≠ -2 ^ 63 := by
  intro y hy hmin
  rw [namedValues_eq hunique] at hy
  obtain ⟨s, hs, rfl⟩ := List.mem_map.mp hy
  have hle : |s.2| ≤ StackCosts.magnitude (weighted p sampleIndex) := by
    refine List.single_le_sum ?_ _ (List.mem_map_of_mem hs)
    simp only [List.mem_map]
    rintro _ ⟨s, -, rfl⟩
    exact abs_nonneg s.2
  simp only at hmin
  rw [hmin] at hle
  norm_num at hle
  omega

/-- For a profile whose stacks both read alike, the report's total is what grew and what shrank in
the app together, and along every path of names the nodes of the report's call tree, however its
maps are traversed, have what the app shows as grown less what it shows as shrunk. -/
theorem graphs_agree {p : PprofProfile} {d : DecodedProfile} (hagrees : d.Agrees p)
    (hp : WellLinked p) (halike : ∀ s ∈ p.samples, ∀ id ∈ s.locationIds, ∀ l,
      lookup Location.id p.locations id = some l → Unaffected p l)
    {requested : Option String} {sampleIndex : ℕ}
    (hindex : sampleIndexOf p requested = .ok sampleIndex)
    (hfit : StackCosts.magnitude (weighted p sampleIndex) < 2 ^ 63)
    {frameOrder : List (FrameIdentity × FrameStat)}
    (hframes : Enumerates frameOrder (aggregate p sampleIndex).stats)
    {stackOrder : List (List FrameIdentity × StackStat)}
    (hstacks : Enumerates stackOrder (aggregate p sampleIndex).stackStats)
    {canon : String → String} (hheap : selectedHeapOf canon d (shownColumn sampleIndex .positive) =
      .ok none)
    (hdistinct : ∀ sign passing, passingSamples canon d (shownColumn sampleIndex sign) =
      .ok passing → DistinctPaths canon passing)
    {grown shrunk : ProfileConversionResult}
    (hgrown : convertProfile canon d (shownColumn sampleIndex .positive) = .ok grown)
    (hshrunk : convertProfile canon d (shownColumn sampleIndex .negative) = .ok shrunk) :
    ∃ report, fromProfile p requested frameOrder stackOrder = .ok report ∧
      report.totalValue.toInt = grown.totalValue.toInt + shrunk.totalValue.toInt ∧
      ∀ tree, CallTree.Reordered (CallTree.fromStacks report.topStacks) tree →
        ∀ names, names ≠ [] →
          treeSum canon (fun node => node.value.toInt) tree names =
            grown.sumAt canon (fun node => node.totalValue.toInt) names -
              shrunk.sumAt canon (fun node => node.totalValue.toInt) names ∧
          treeSum canon (fun node => node.selfValue.toInt) tree names =
            grown.sumAt canon (fun node => node.selfValue.toInt) names -
              shrunk.sumAt canon (fun node => node.selfValue.toInt) names := by
  have hunique := WellLinked.uniqueIds hp
  obtain ⟨report, hreport, hattributed⟩ := exists_attributed hunique hindex hfit hframes hstacks
  have hsamples : d.samples = p.samples := by
    obtain ⟨periodType, -, rfl⟩ := hagrees
    rfl
  have hnames : ∀ s ∈ d.samples, ∃ frames, walkStack d s = .ok frames ∧
      frames.map WalkedFrame.name = reportNames p s := by
    intro s hs
    exact walkStack_names hagrees hp (halike s (hsamples ▸ hs))
  have hmin := value_fits hunique hfit
  rw [← hsamples] at hmin
  obtain ⟨hgrownTotal, hgrownCosts⟩ := graph_costs hheap hnames hmin (hdistinct .positive) hgrown
  have hheap' : selectedHeapOf canon d (shownColumn sampleIndex .negative) = .ok none := hheap
  obtain ⟨hshrunkTotal, hshrunkCosts⟩ := graph_costs hheap' hnames hmin (hdistinct .negative)
    hshrunk
  refine ⟨report, hreport, ?_, fun tree htree names hne => ?_⟩
  · rw [hattributed.totalValue, hgrownTotal, hshrunkTotal, hsamples, namedValues_eq hunique,
      ← List.sum_map_add, List.map_map, StackCosts.magnitude]
    simp only [Function.comp_def, signed_add]
  · obtain ⟨hcost, hown⟩ := tree_costs canon hattributed hunique hfit htree hne
    obtain ⟨hgrownCost, hgrownOwn⟩ := hgrownCosts names
    obtain ⟨hshrunkCost, hshrunkOwn⟩ := hshrunkCosts names
    have hsub {κ : Type} [DecidableEq κ] (key : List String × ℤ → κ) (k : κ) :
        total key Prod.snd (namedValues p p.samples sampleIndex) k =
          total key (fun y => signed .positive y.2) (namedValues p d.samples sampleIndex) k -
            total key (fun y => signed .negative y.2) (namedValues p d.samples sampleIndex) k := by
      rw [hsamples, total_sub]
      exact total_congr _ _ (fun _ _ => Iff.rfl) fun y _ => (signed_sub y.2).symm
    exact ⟨by rw [hcost, hsub, hgrownCost, hshrunkCost], by rw [hown, hsub, hgrownOwn, hshrunkOwn]⟩

def changed : PprofProfile :=
  { PprofProfile.withStrings (.ofStrings ["", "space", "bytes", "main", "work"]) with
    valueTypes := [⟨1, 2⟩]
    functions := [⟨1, 3, 3, 0, 0⟩, ⟨2, 4, 4, 0, 0⟩]
    locations := [⟨1, 0, 0x1000, [⟨1, 10, 0⟩], false⟩, ⟨2, 0, 0x2000, [⟨2, 20, 0⟩], false⟩]
    samples := [⟨[2, 1], [5], []⟩, ⟨[1], [-3], []⟩] }

theorem changed_wellLinked : WellLinked changed where
  locationIds := by decide
  functionIds := by decide
  lines := by
    change ∀ l ∈ ([⟨1, 0, 0x1000, [⟨1, 10, 0⟩], false⟩,
      ⟨2, 0, 0x2000, [⟨2, 20, 0⟩], false⟩] : List Location), l.lines ≠ [] ∧
        ∀ line ∈ l.lines, line.functionId ∈ ([1, 2] : List UInt64)
    decide

theorem changed_alike : ∀ l ∈ changed.locations, Unaffected changed l := by
  have hfunctions : ∀ f ∈ changed.functions, IndexesFit f := by
    change ∀ f ∈ ([⟨1, 3, 3, 0, 0⟩, ⟨2, 4, 4, 0, 0⟩] : List Pprof.Function),
      f.name.toNat < 2 ^ 63 ∧ f.systemName.toNat < 2 ^ 63 ∧ f.filename.toNat < 2 ^ 63
    decide
  have hlines : ∀ l ∈ changed.locations, l.lines.length = 1 := by
    change ∀ l ∈ ([⟨1, 0, 0x1000, [⟨1, 10, 0⟩], false⟩,
      ⟨2, 0, 0x2000, [⟨2, 20, 0⟩], false⟩] : List Location), l.lines.length = 1
    decide
  intro l hl
  obtain ⟨line, hline⟩ := List.length_eq_one_iff.mp (hlines l hl)
  refine ⟨by simp [hline], fun line _ f hf => hfunctions f (lookup_eq_some _ hf).1⟩

theorem graphs_agree_changed : ∃ frameOrder stackOrder report grown shrunk,
    fromProfile changed none frameOrder stackOrder = .ok report ∧
      report.totalValue.toInt = grown.totalValue.toInt + shrunk.totalValue.toInt ∧
      convertProfile id (.ofModel changed none) (shownColumn 0 .positive) = .ok grown ∧
      convertProfile id (.ofModel changed none) (shownColumn 0 .negative) = .ok shrunk ∧
      treeSum id (fun node => node.value.toInt) (CallTree.fromStacks report.topStacks) ["main"] =
        grown.sumAt id (fun node => node.totalValue.toInt) ["main"] -
          shrunk.sumAt id (fun node => node.totalValue.toInt) ["main"] := by
  obtain ⟨frameOrder, hframes⟩ := Enumerates.exists_order (aggregate changed 0).stats
  obtain ⟨stackOrder, hstacks⟩ := Enumerates.exists_order (aggregate changed 0).stackStats
  have hheap : selectedHeapOf id (.ofModel changed none) everything = .ok none :=
    selectedHeapOf_everything rfl
  have hpositive : selectedHeapOf id (.ofModel changed none) (shownColumn 0 .positive) = .ok none :=
    hheap
  have hnegative : selectedHeapOf id (.ofModel changed none) (shownColumn 0 .negative) = .ok none :=
    hheap
  have hgrown : ∃ grown, convertProfile id (.ofModel changed none) (shownColumn 0 .positive) =
      .ok grown := by
    unfold convertProfile
    rw [hpositive]
    exact ⟨_, rfl⟩
  have hshrunk : ∃ shrunk, convertProfile id (.ofModel changed none) (shownColumn 0 .negative) =
      .ok shrunk := by
    unfold convertProfile
    rw [hnegative]
    exact ⟨_, rfl⟩
  obtain ⟨grown, hgrown⟩ := hgrown
  obtain ⟨shrunk, hshrunk⟩ := hshrunk
  have hdistinct : ∀ sign passing, passingSamples id (.ofModel changed none) (shownColumn 0 sign) =
      .ok passing → DistinctPaths id passing := by
    intro sign passing hpassing
    unfold passingSamples at hpassing
    cases sign with
    | positive =>
      rw [hpositive] at hpassing
      have hframes : [((5 : Int64), [(⟨"main", some "main", none, some 10⟩ : WalkedFrame),
          ⟨"work", some "work", none, some 20⟩])] = passing := Except.ok.inj hpassing
      subst hframes
      intro p q hp hq
      rw [callPath_iff_mem] at hp hq
      revert q
      revert p
      decide
    | negative =>
      rw [hnegative] at hpassing
      have hframes : [((-3 : Int64), [(⟨"main", some "main", none, some 10⟩ : WalkedFrame)])] =
          passing := Except.ok.inj hpassing
      subst hframes
      intro p q hp hq
      rw [callPath_iff_mem] at hp hq
      revert q
      revert p
      decide
  have hindex : sampleIndexOf changed none = .ok 0 := rfl
  obtain ⟨report, hreport, htotal, hcosts⟩ := graphs_agree ⟨none, rfl, rfl⟩
    changed_wellLinked (fun _ _ _ _ l hl => changed_alike l (lookup_eq_some _ hl).1)
    hindex (by decide) hframes hstacks hpositive hdistinct hgrown hshrunk
  exact ⟨frameOrder, stackOrder, report, grown, shrunk, hreport, htotal, hgrown, hshrunk,
    (hcosts _ (CallTree.Matches.refl (fun _ => rfl) _) ["main"] (List.cons_ne_nil _ _)).1⟩

end PProfessor.GraphAgreement
