import PProfessor.ReportTallies

set_option autoImplicit false

/-!
# Which samples the costs of a report are sums over

The additions saturate. Whatever the profile, each cost of a report is the saturated sum of the
values of the samples that show its frame or stack.
-/
namespace PProfessor.Report
open KeyedSum Pprof
open Heap (indexBy)

/-- `saturating_add` of one value after the other. -/
def saturatedSum (values : List Int64) : Int64 := values.foldl saturatingAddI64 0

theorem saturatedSum_concat (values : List Int64) (value : Int64) :
    saturatedSum (values ++ [value]) = saturatingAddI64 (saturatedSum values) value := by
  rw [saturatedSum, List.foldl_append]
  rfl

/-- The values of the contributions that `keep` keeps. -/
def valuesWhere (keep : Contribution → Bool) (cs : List Contribution) : List Int64 :=
  (cs.filter keep).map Prod.snd

theorem saturatedSum_valuesWhere_concat (keep : Contribution → Bool) (cs : List Contribution)
    (c : Contribution) : saturatedSum (valuesWhere keep (cs ++ [c])) =
      if keep c then saturatingAddI64 (saturatedSum (valuesWhere keep cs)) c.2
      else saturatedSum (valuesWhere keep cs) := by
  unfold valuesWhere
  rw [List.filter_append, List.filter_cons, List.map_append]
  split_ifs
  · rw [List.filter_nil, List.map_cons, List.map_nil, saturatedSum_concat]
  · rw [List.filter_nil, List.map_nil, List.append_nil]

def isLeaf (id : FrameIdentity) (c : Contribution) : Bool := leafIdentity c = some id

def shows (id : FrameIdentity) (c : Contribution) : Bool := id ∈ identities c

def resolvesTo (key : List FrameIdentity) (c : Contribution) : Bool :=
  key ≠ [] ∧ identities c = key

def flatAt (stats : Std.ExtHashMap FrameIdentity FrameStat) (id : FrameIdentity) : Int64 :=
  (stats[id]?.map FrameStat.flat).getD 0

def cumulativeAt (stats : Std.ExtHashMap FrameIdentity FrameStat) (id : FrameIdentity) : Int64 :=
  (stats[id]?.map FrameStat.cumulative).getD 0

def valueAt (stackStats : Std.ExtHashMap (List FrameIdentity) StackStat)
    (key : List FrameIdentity) : Int64 :=
  (stackStats[key]?.map StackStat.value).getD 0

variable (stats : Std.ExtHashMap FrameIdentity FrameStat) (c : Contribution) (id : FrameIdentity)

theorem flatAt_eq (frame : ResolvedFrame) :
    flatAt stats id = (stats[id]?.getD frame.stat).flat := by
  unfold flatAt
  cases stats[id]? <;> rfl

theorem cumulativeAt_eq (frame : ResolvedFrame) :
    cumulativeAt stats id = (stats[id]?.getD frame.stat).cumulative := by
  unfold cumulativeAt
  cases stats[id]? <;> rfl

theorem flatAt_addFlat : flatAt (addFlat c.1 c.2 stats) id =
    if isLeaf id c then saturatingAddI64 (flatAt stats id) c.2 else flatAt stats id := by
  unfold isLeaf
  by_cases hleaf : leafIdentity c = some id
  · obtain ⟨leaf, hlast, rfl⟩ := Option.map_eq_some_iff.mp hleaf
    rw [if_pos (decide_eq_true hleaf), flatAt, addFlat_of_leaf hlast, flatAt_eq stats _ leaf]
    rfl
  · rw [if_neg (by simpa using hleaf), flatAt, addFlat_of_leaf_ne hleaf]
    rfl

theorem cumulativeAt_addFlat : cumulativeAt (addFlat c.1 c.2 stats) id = cumulativeAt stats id := by
  by_cases hleaf : leafIdentity c = some id
  · obtain ⟨leaf, hlast, rfl⟩ := Option.map_eq_some_iff.mp hleaf
    rw [cumulativeAt, addFlat_of_leaf hlast, cumulativeAt_eq stats _ leaf]
    rfl
  · rw [cumulativeAt, addFlat_of_leaf_ne hleaf]
    rfl

theorem flatAt_addCumulative : flatAt (addCumulative c.2 c.1 ∅ stats) id = flatAt stats id := by
  rw [flatAt, addCumulative_getElem?, if_neg (Finset.notMem_empty id)]
  cases c.1.find? fun frame => frame.identity = id with
  | none => rfl
  | some frame =>
    rw [flatAt_eq stats id frame]
    rfl

theorem cumulativeAt_addCumulative : cumulativeAt (addCumulative c.2 c.1 ∅ stats) id =
    if shows id c then saturatingAddI64 (cumulativeAt stats id) c.2
    else cumulativeAt stats id := by
  have hshows := find?_identity_isSome c.1 id
  rw [cumulativeAt, addCumulative_getElem?, if_neg (Finset.notMem_empty id)]
  unfold shows identities
  cases hfind : c.1.find? fun frame => frame.identity = id with
  | none =>
    rw [hfind] at hshows
    rw [if_neg (by simpa using hshows)]
    rfl
  | some frame =>
    rw [hfind] at hshows
    rw [if_pos (by simpa using hshows), cumulativeAt_eq stats id frame]
    rfl

theorem valueAt_addStack (stackStats : Std.ExtHashMap (List FrameIdentity) StackStat)
    (key : List FrameIdentity) : valueAt (addStack c.1 c.2 stackStats) key =
      if resolvesTo key c then saturatingAddI64 (valueAt stackStats key) c.2
      else valueAt stackStats key := by
  rw [valueAt, addStack_getElem?]
  unfold resolvesTo
  by_cases hc : key ≠ [] ∧ identities c = key
  · rw [if_pos hc, if_pos (decide_eq_true hc), valueAt]
    cases stackStats[key]? <;> rfl
  · rw [if_neg hc, if_neg (by simpa using hc)]
    rfl

structure Summed (cs : List Contribution) (a : Aggregates) : Prop where
  totalValue : a.totalValue = saturatedSum (cs.map fun c => saturatingAbsI64 c.2)
  flat : ∀ id, flatAt a.stats id = saturatedSum (valuesWhere (isLeaf id) cs)
  cumulative : ∀ id, cumulativeAt a.stats id = saturatedSum (valuesWhere (shows id) cs)
  stack : ∀ key, valueAt a.stackStats key = saturatedSum (valuesWhere (resolvesTo key) cs)

theorem summed_nil : Summed [] ⟨∅, ∅, 0⟩ := by
  refine ⟨rfl, fun id => ?_, fun id => ?_, fun key => ?_⟩
  · rw [flatAt, Std.ExtHashMap.getElem?_empty]
    rfl
  · rw [cumulativeAt, Std.ExtHashMap.getElem?_empty]
    rfl
  · rw [valueAt, Std.ExtHashMap.getElem?_empty]
    rfl

variable {c} in
theorem Summed.contribute {cs : List Contribution} {a : Aggregates} (h : Summed cs a) :
    Summed (cs ++ [c]) (contribute a c) := by
  refine ⟨?_, fun id => ?_, fun id => ?_, fun key => ?_⟩
  · rw [List.map_append, List.map_singleton, saturatedSum_concat, ← h.totalValue]
    rfl
  · rw [saturatedSum_valuesWhere_concat, ← h.flat id, ← flatAt_addFlat]
    exact flatAt_addCumulative _ c id
  · rw [saturatedSum_valuesWhere_concat, ← h.cumulative id, ← cumulativeAt_addFlat a.stats c id]
    exact cumulativeAt_addCumulative _ c id
  · rw [saturatedSum_valuesWhere_concat, ← h.stack key]
    exact valueAt_addStack c a.stackStats key

theorem aggregate_summed (p : PprofProfile) (sampleIndex : ℕ) :
    Summed (contributions p sampleIndex) (aggregate p sampleIndex) := by
  rw [aggregate_eq]
  suffices hgen : ∀ (rest done : List Contribution) (a : Aggregates), Summed done a →
      Summed (done ++ rest) (rest.foldl contribute a) from hgen _ [] _ summed_nil
  intro rest
  induction rest with
  | nil =>
    intro done a h
    rw [List.append_nil]
    exact h
  | cons c rest ih =>
    intro done a h
    have hrest := ih _ _ (h.contribute (c := c))
    rwa [List.append_assoc, List.singleton_append] at hrest

/-- The costs of the report are sums over the contributions. -/
structure SumsOver (cs : List Contribution) (report : ProfileReport) : Prop where
  totalValue : report.totalValue = saturatedSum (cs.map fun c => saturatingAbsI64 c.2)
  frames : ∀ stat ∈ report.topFrames, ∃ id,
    stat.flat = saturatedSum (valuesWhere (isLeaf id) cs) ∧
      stat.cumulative = saturatedSum (valuesWhere (shows id) cs)
  ranked : ∀ stack ∈ report.topStacks, ∃ key,
    stack.value = saturatedSum (valuesWhere (resolvesTo key) cs)

theorem fromProfile_sums {p : PprofProfile} {requested : Option String} {sampleIndex : ℕ}
    (hindex : sampleIndexOf p requested = .ok sampleIndex)
    {frameOrder : List (FrameIdentity × FrameStat)}
    (hframes : Enumerates frameOrder (aggregate p sampleIndex).stats)
    {stackOrder : List (List FrameIdentity × StackStat)}
    (hranked : Enumerates stackOrder (aggregate p sampleIndex).stackStats)
    {report : ProfileReport} (h : fromProfile p requested frameOrder stackOrder = .ok report) :
    SumsOver (contributions p sampleIndex) report := by
  have hsummed := aggregate_summed p sampleIndex
  unfold fromProfile at h
  simp only [hindex, bind, Except.bind] at h
  cases hselected : p.valueTypes[sampleIndex]? with
  | none =>
    rw [hselected] at h
    cases h
  | some selected =>
    rw [hselected] at h
    cases h
    refine ⟨hsummed.totalValue, fun stat hstat => ?_, fun stack hstack => ?_⟩
    · obtain ⟨⟨id, _⟩, hentry, rfl⟩ := List.mem_map.mp (List.mem_mergeSort.mp hstat)
      have hget := (hframes.mem_iff id _).mp hentry
      refine ⟨id, ?_, ?_⟩
      · rw [← hsummed.flat id, flatAt, hget]
        rfl
      · rw [← hsummed.cumulative id, cumulativeAt, hget]
        rfl
    · obtain ⟨⟨key, _⟩, hentry, rfl⟩ := List.mem_map.mp (List.mem_mergeSort.mp hstack)
      refine ⟨key, ?_⟩
      rw [← hsummed.stack key, valueAt, (hranked.mem_iff key _).mp hentry]
      rfl

end PProfessor.Report
