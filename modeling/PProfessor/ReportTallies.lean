import PProfessor.Report

set_option autoImplicit false

/-!
# What the report's aggregation adds up

As long as the absolute values fit in an `i64` nothing saturates: after any
samples the maps hold the flat, cumulative and stack sums, each entry with the
frames of the first sample that showed it.
-/
namespace PProfessor.Report
open CheckedArith KeyedSum Pprof
open Heap (indexBy)

theorem saturatingAddI64_toInt {a b : Int64} (h : InI64 (a.toInt + b.toInt)) :
    (saturatingAddI64 a b).toInt = a.toInt + b.toInt := by
  rw [saturatingAddI64, addI64, if_pos h, Option.getD_some, Int64.toInt_add, bmod_eq_self h]

theorem saturatingAbsI64_toInt {a : Int64} (h : |a.toInt| < 2 ^ 63) :
    (saturatingAbsI64 a).toInt = |a.toInt| := by
  unfold saturatingAbsI64
  split_ifs with hpos
  · rw [abs_of_nonneg hpos]
  · have habs : |a.toInt| = -a.toInt := abs_of_neg (by omega)
    have hfit : InI64 (-a.toInt) := ⟨by omega, by omega⟩
    rw [negI64, if_pos hfit, Option.getD_some, Int64.toInt_neg, bmod_eq_self hfit, habs]

theorem forall_mem_resolveStack {P : ResolvedFrame → Prop} {p : PprofProfile}
    {locations : Std.ExtHashMap UInt64 Location} {functions : Std.ExtHashMap UInt64 Function}
    (haddress : ∀ address, P ⟨.address address, hexAddress address, "", 0⟩)
    (hline : ∀ line frame, resolveLine p functions line = some frame → P frame) (s : Sample) :
    ∀ frame ∈ resolveStack p locations functions s, P frame := by
  intro frame hframe
  obtain ⟨id, -, hid⟩ := List.mem_flatMap.mp hframe
  unfold resolveLocation at hid
  cases hl : locations[id]? with
  | none => simp [hl] at hid
  | some l =>
    simp only [hl] at hid
    split_ifs at hid
    · rw [List.mem_singleton.mp hid]
      exact haddress l.address
    · obtain ⟨line, -, hresolved⟩ := List.mem_filterMap.mp hid
      exact hline line frame hresolved

abbrev Contribution := List ResolvedFrame × Int64

def identities (c : Contribution) : List FrameIdentity := c.1.map ResolvedFrame.identity

def leafIdentity (c : Contribution) : Option FrameIdentity :=
  c.1.getLast?.map ResolvedFrame.identity

def weight (c : Contribution) : ℤ := c.2.toInt

/-- The samples that have the column. -/
def contributions (p : PprofProfile) (sampleIndex : ℕ) : List Contribution :=
  p.samples.filterMap fun s => s.values[sampleIndex]?.map fun v =>
    (resolveStack p (indexBy Location.id p.locations) (indexBy Function.id p.functions) s, v)

def contribute (a : Aggregates) (c : Contribution) : Aggregates where
  totalValue := saturatingAddI64 a.totalValue (saturatingAbsI64 c.2)
  stackStats := addStack c.1 c.2 a.stackStats
  stats := addCumulative c.2 c.1 ∅ (addFlat c.1 c.2 a.stats)

theorem aggregate_eq (p : PprofProfile) (sampleIndex : ℕ) :
    aggregate p sampleIndex = (contributions p sampleIndex).foldl contribute ⟨∅, ∅, 0⟩ := by
  have hrun (samples : List Sample) (a : Aggregates) :
      samples.foldl (addSample p sampleIndex (indexBy Location.id p.locations)
        (indexBy Function.id p.functions)) a =
      (samples.filterMap fun s => s.values[sampleIndex]?.map fun v =>
        (resolveStack p (indexBy Location.id p.locations) (indexBy Function.id p.functions) s,
          v)).foldl contribute a := by
    induction samples generalizing a with
    | nil => rfl
    | cons s rest ih =>
      rw [List.foldl_cons, ih, addSample, List.filterMap_cons]
      cases s.values[sampleIndex]? <;> rfl
  exact hrun p.samples _

/-- The sum of the absolute values. -/
def magnitudeSum (cs : List Contribution) : ℤ := (cs.map fun c => |weight c|).sum

def flatOf (cs : List Contribution) (id : FrameIdentity) : ℤ :=
  total leafIdentity weight cs (some id)

/-- Each sample counts once, however often the frame recurs. -/
def cumulativeOf (cs : List Contribution) (id : FrameIdentity) : ℤ :=
  total (fun c => decide (id ∈ identities c)) weight cs true

def stackOf (cs : List Contribution) (key : List FrameIdentity) : ℤ :=
  total identities weight cs key

theorem magnitudeSum_nonneg (cs : List Contribution) : 0 ≤ magnitudeSum cs := by
  apply List.sum_nonneg
  simp only [List.mem_map]
  rintro _ ⟨c, -, rfl⟩
  exact abs_nonneg _

theorem magnitudeSum_append (xs ys : List Contribution) :
    magnitudeSum (xs ++ ys) = magnitudeSum xs + magnitudeSum ys := by
  simp [magnitudeSum]

theorem abs_total_le {κ : Type} [DecidableEq κ] (key : Contribution → κ) (cs : List Contribution)
    (k : κ) : |total key weight cs k| ≤ magnitudeSum cs := by
  induction cs with
  | nil => simp [magnitudeSum]
  | cons c cs ih =>
    have hsum : magnitudeSum (c :: cs) = |weight c| + magnitudeSum cs := by simp [magnitudeSum]
    rw [total_cons, hsum]
    split_ifs
    · exact (abs_add_le _ _).trans (by omega)
    · rw [zero_add]
      have := abs_nonneg (weight c)
      omega

theorem total_inI64 {κ : Type} [DecidableEq κ] (key : Contribution → κ) {cs : List Contribution}
    (h : magnitudeSum cs < 2 ^ 63) (k : κ) : InI64 (total key weight cs k) := by
  have hle := abs_le.mp (abs_total_le key cs k)
  constructor
  · omega
  · omega

theorem total_concat {κ : Type} [DecidableEq κ] (key : Contribution → κ) (cs : List Contribution)
    (c : Contribution) (k : κ) : total key weight (cs ++ [c]) k =
      total key weight cs k + if key c = k then weight c else 0 := by
  rw [total_append, total_cons, total_nil, add_zero]

theorem saturatingAdd_total {κ : Type} [DecidableEq κ] {key : Contribution → κ}
    {cs : List Contribution} {c : Contribution} {k : κ} (hk : key c = k)
    (hfit : magnitudeSum (cs ++ [c]) < 2 ^ 63) {a : Int64} (ha : a.toInt = total key weight cs k) :
    (saturatingAddI64 a c.2).toInt = total key weight (cs ++ [c]) k := by
  have hsum := total_concat key cs c k
  rw [if_pos hk] at hsum
  have hin := total_inI64 key hfit k
  rw [hsum] at hin
  rw [hsum, ← ha, saturatingAddI64_toInt]
  · rfl
  · rw [ha]
    exact hin

/-- The frame that a sample enters for an identity: its leaf, or the first. -/
def shownFrame (id : FrameIdentity) (c : Contribution) : Option ResolvedFrame :=
  if leafIdentity c = some id then c.1.getLast?
  else c.1.find? fun frame => frame.identity = id

def firstFrame (cs : List Contribution) (id : FrameIdentity) : Option ResolvedFrame :=
  cs.findSome? (shownFrame id)

def shownStack (key : List FrameIdentity) (c : Contribution) : Option (List ReportFrame) :=
  if key ≠ [] ∧ identities c = key then some (c.1.map ResolvedFrame.reportFrame) else none

def firstStack (cs : List Contribution) (key : List FrameIdentity) : Option (List ReportFrame) :=
  cs.findSome? (shownStack key)

theorem find?_identity_isSome (frames : List ResolvedFrame) (id : FrameIdentity) :
    (frames.find? fun frame => frame.identity = id).isSome ↔
      id ∈ frames.map ResolvedFrame.identity := by
  rw [List.find?_isSome, List.mem_map]
  simp

theorem leafIdentity_mem {c : Contribution} {id : FrameIdentity} (h : leafIdentity c = some id) :
    id ∈ identities c := by
  obtain ⟨frame, hframe, rfl⟩ := Option.map_eq_some_iff.mp h
  exact List.mem_map_of_mem (List.mem_of_getLast? hframe)

theorem shownFrame_isSome (id : FrameIdentity) (c : Contribution) :
    (shownFrame id c).isSome ↔ id ∈ identities c := by
  unfold shownFrame
  split_ifs with hleaf
  · obtain ⟨frame, hframe, -⟩ := Option.map_eq_some_iff.mp hleaf
    rw [hframe]
    exact ⟨fun _ => leafIdentity_mem hleaf, fun _ => rfl⟩
  · exact find?_identity_isSome c.1 id

theorem firstFrame_eq_none {cs : List Contribution} {id : FrameIdentity}
    (h : firstFrame cs id = none) : flatOf cs id = 0 ∧ cumulativeOf cs id = 0 := by
  unfold firstFrame at h
  rw [List.findSome?_eq_none_iff] at h
  have hnot : ∀ c ∈ cs, id ∉ identities c := by
    intro c hc hmem
    have hsome := (shownFrame_isSome id c).mpr hmem
    rw [h c hc] at hsome
    cases hsome
  refine ⟨total_eq_zero _ _ ?_, total_eq_zero _ _ ?_⟩
  · exact fun c hc hleaf => hnot c hc (leafIdentity_mem hleaf)
  · intro c hc
    simpa using hnot c hc

theorem firstStack_eq_none {cs : List Contribution} {key : List FrameIdentity} (hkey : key ≠ [])
    (h : firstStack cs key = none) : stackOf cs key = 0 := by
  unfold firstStack at h
  rw [List.findSome?_eq_none_iff] at h
  apply total_eq_zero
  intro c hc he
  have hnone := h c hc
  rw [shownStack, if_pos ⟨hkey, he⟩] at hnone
  cases hnone

theorem firstStack_key_ne_nil {cs : List Contribution} {key : List FrameIdentity}
    {frames : List ReportFrame} (h : firstStack cs key = some frames) : key ≠ [] := by
  obtain ⟨c, -, hc⟩ := List.exists_of_findSome?_eq_some h
  intro hkey
  rw [shownStack, if_neg fun hboth => hboth.1 hkey] at hc
  cases hc

theorem findSome?_concat {α β : Type} (f : α → Option β) (xs : List α) (x : α) :
    (xs ++ [x]).findSome? f = (xs.findSome? f).or (f x) := by
  have hlast : [x].findSome? f = f x := by
    rw [List.findSome?_cons]
    cases f x <;> rfl
  rw [List.findSome?_append, hlast]

theorem addFlat_getElem? (frames : List ResolvedFrame) (value : Int64)
    (stats : Std.ExtHashMap FrameIdentity FrameStat) (id : FrameIdentity) :
    (addFlat frames value stats)[id]? =
      match frames.getLast? with
      | none => stats[id]?
      | some leaf =>
        if leaf.identity = id then
          some { stats[id]?.getD leaf.stat with
            flat := saturatingAddI64 (stats[id]?.getD leaf.stat).flat value }
        else stats[id]? := by
  unfold addFlat
  cases frames.getLast? with
  | none => rfl
  | some leaf =>
    simp only [Std.ExtHashMap.getElem?_insert, beq_iff_eq]
    split_ifs with h
    · rw [h]
    · rfl

theorem addFlat_of_leaf {c : Contribution} {leaf : ResolvedFrame} (h : c.1.getLast? = some leaf)
    (stats : Std.ExtHashMap FrameIdentity FrameStat) :
    (addFlat c.1 c.2 stats)[leaf.identity]? = some { stats[leaf.identity]?.getD leaf.stat with
      flat := saturatingAddI64 (stats[leaf.identity]?.getD leaf.stat).flat c.2 } := by
  rw [addFlat_getElem?, h]
  exact if_pos rfl

theorem addFlat_of_leaf_ne {c : Contribution} {id : FrameIdentity} (h : leafIdentity c ≠ some id)
    (stats : Std.ExtHashMap FrameIdentity FrameStat) :
    (addFlat c.1 c.2 stats)[id]? = stats[id]? := by
  rw [addFlat_getElem?]
  cases hlast : c.1.getLast? with
  | none => rfl
  | some leaf =>
    apply if_neg
    rintro rfl
    exact h (by rw [leafIdentity, hlast, Option.map_some])

theorem addCumulative_getElem? (value : Int64) (frames : List ResolvedFrame)
    (seen : Finset FrameIdentity) (stats : Std.ExtHashMap FrameIdentity FrameStat)
    (id : FrameIdentity) :
    (addCumulative value frames seen stats)[id]? =
      if id ∈ seen then stats[id]?
      else match frames.find? fun frame => frame.identity = id with
        | none => stats[id]?
        | some frame => some { stats[id]?.getD frame.stat with
            cumulative := saturatingAddI64 (stats[id]?.getD frame.stat).cumulative value } := by
  induction frames generalizing seen stats with
  | nil => simp [addCumulative]
  | cons frame rest ih =>
    rw [addCumulative, List.find?_cons]
    by_cases hframe : frame.identity = id
    · subst hframe
      by_cases hseen : frame.identity ∈ seen
      · rw [if_pos hseen, ih, if_pos hseen, if_pos hseen]
      · rw [if_neg hseen, ih, if_pos (Finset.mem_insert_self _ _), if_neg hseen]
        simp
    · have hother : decide (frame.identity = id) = false := by simp [hframe]
      simp only [hother]
      by_cases hseen : frame.identity ∈ seen
      · rw [if_pos hseen, ih]
      · rw [if_neg hseen, ih]
        simp [Finset.mem_insert, Std.ExtHashMap.getElem?_insert, hframe, Ne.symm hframe]

theorem addStack_getElem? (c : Contribution)
    (stackStats : Std.ExtHashMap (List FrameIdentity) StackStat) (key : List FrameIdentity) :
    (addStack c.1 c.2 stackStats)[key]? =
      if key ≠ [] ∧ identities c = key then
        some { stackStats[key]?.getD ⟨c.1.map ResolvedFrame.reportFrame, 0⟩ with
          value := saturatingAddI64
            (stackStats[key]?.getD ⟨c.1.map ResolvedFrame.reportFrame, 0⟩).value c.2 }
      else stackStats[key]? := by
  unfold addStack identities
  by_cases hempty : c.1.map ResolvedFrame.identity = []
  · rw [if_pos hempty, if_neg]
    rintro ⟨hne, he⟩
    exact hne (he.symm.trans hempty)
  · rw [if_neg hempty]
    simp only [Std.ExtHashMap.getElem?_insert, beq_iff_eq]
    by_cases he : c.1.map ResolvedFrame.identity = key
    · subst he
      rw [if_pos rfl, if_pos ⟨hempty, rfl⟩]
    · rw [if_neg he, if_neg fun h => he h.2]

structure StatOf (cs : List Contribution) (id : FrameIdentity) (frame : ResolvedFrame)
    (stat : FrameStat) : Prop where
  function : stat.function = frame.function
  file : stat.file = frame.file
  line : stat.line = frame.line
  flat : stat.flat.toInt = flatOf cs id
  cumulative : stat.cumulative.toInt = cumulativeOf cs id

structure StackStatOf (cs : List Contribution) (key : List FrameIdentity)
    (frames : List ReportFrame) (stat : StackStat) : Prop where
  frames : stat.frames = frames
  value : stat.value.toInt = stackOf cs key

structure Tallied (cs : List Contribution) (a : Aggregates) : Prop where
  totalValue : a.totalValue.toInt = magnitudeSum cs
  stats : ∀ id, Option.Rel (StatOf cs id) (firstFrame cs id) a.stats[id]?
  stackStats : ∀ key, Option.Rel (StackStatOf cs key) (firstStack cs key) a.stackStats[key]?

theorem tallied_nil : Tallied [] ⟨∅, ∅, 0⟩ := by
  refine ⟨rfl, ?_, ?_⟩
  · intro id
    rw [Std.ExtHashMap.getElem?_empty]
    exact .none
  · intro key
    rw [Std.ExtHashMap.getElem?_empty]
    exact .none

section Rel
variable {α β : Type} {R S : α → β → Prop} {a : Option α} {b : Option β}

theorem rel_mono (h : Option.Rel R a b) (hRS : ∀ x y, a = some x → R x y → S x y) :
    Option.Rel S a b := by
  cases h with
  | some hxy => exact .some (hRS _ _ rfl hxy)
  | none => exact .none

theorem rel_getD (h : Option.Rel R a b) {x : α} {y : β} (hxy : a = none → R x y) :
    R (a.getD x) (b.getD y) := by
  cases h with
  | some h => exact h
  | none => exact hxy rfl

end Rel

theorem Tallied.stat_getD {cs : List Contribution} {a : Aggregates} (h : Tallied cs a)
    (id : FrameIdentity) (frame : ResolvedFrame) :
    StatOf cs id ((firstFrame cs id).getD frame) (a.stats[id]?.getD frame.stat) := by
  refine rel_getD (h.stats id) fun hfirst => ?_
  obtain ⟨hflat, hcumulative⟩ := firstFrame_eq_none hfirst
  exact ⟨rfl, rfl, rfl, hflat.symm, hcumulative.symm⟩

theorem Tallied.stack_getD {cs : List Contribution} {a : Aggregates} (h : Tallied cs a)
    {key : List FrameIdentity} (hkey : key ≠ []) (frames : List ReportFrame) :
    StackStatOf cs key ((firstStack cs key).getD frames)
      (a.stackStats[key]?.getD ⟨frames, 0⟩) :=
  rel_getD (h.stackStats key) fun hfirst => ⟨rfl, (firstStack_eq_none hkey hfirst).symm⟩

theorem Tallied.stack_unchanged {cs : List Contribution} {a : Aggregates} (h : Tallied cs a)
    {c : Contribution} {key : List FrameIdentity} (hc : ¬(key ≠ [] ∧ identities c = key)) :
    Option.Rel (StackStatOf (cs ++ [c]) key) (firstStack cs key) a.stackStats[key]? := by
  refine rel_mono (h.stackStats key) fun frames stat hfirst hrel => ?_
  have hkey : key ≠ [] := firstStack_key_ne_nil hfirst
  have hsum : stackOf (cs ++ [c]) key = stackOf cs key := by
    have hother := total_concat identities cs c key
    rwa [if_neg fun he => hc ⟨hkey, he⟩, add_zero] at hother
  exact ⟨hrel.frames, hrel.value.trans hsum.symm⟩

theorem contribute_stackStats {cs : List Contribution} {a : Aggregates} (h : Tallied cs a)
    {c : Contribution} (hfit : magnitudeSum (cs ++ [c]) < 2 ^ 63) (key : List FrameIdentity) :
    Option.Rel (StackStatOf (cs ++ [c]) key) (firstStack (cs ++ [c]) key)
      (contribute a c).stackStats[key]? := by
  have hmap : (contribute a c).stackStats[key]? = (addStack c.1 c.2 a.stackStats)[key]? := rfl
  rw [hmap, addStack_getElem?, firstStack, findSome?_concat]
  change Option.Rel _ ((firstStack cs key).or _) _
  by_cases hc : key ≠ [] ∧ identities c = key
  · have hold := h.stack_getD hc.1 (c.1.map ResolvedFrame.reportFrame)
    have hshown : (firstStack cs key).or (shownStack key c) =
        some ((firstStack cs key).getD (c.1.map ResolvedFrame.reportFrame)) := by
      rw [shownStack, if_pos hc]
      cases firstStack cs key <;> rfl
    rw [hshown, if_pos hc]
    exact .some ⟨hold.frames, saturatingAdd_total hc.2 hfit hold.value⟩
  · have hshown : shownStack key c = none := by rw [shownStack, if_neg hc]
    rw [hshown, Option.or_none, if_neg hc]
    exact h.stack_unchanged hc

theorem Tallied.stat_unchanged {cs : List Contribution} {a : Aggregates} (h : Tallied cs a)
    {c : Contribution} {id : FrameIdentity} (hc : id ∉ identities c) :
    Option.Rel (StatOf (cs ++ [c]) id) (firstFrame cs id) a.stats[id]? := by
  have hflat : flatOf (cs ++ [c]) id = flatOf cs id := by
    have hother := total_concat leafIdentity cs c (some id)
    rwa [if_neg fun he => hc (leafIdentity_mem he), add_zero] at hother
  have hcumulative : cumulativeOf (cs ++ [c]) id = cumulativeOf cs id := by
    have hother := total_concat (fun c => decide (id ∈ identities c)) cs c true
    rwa [if_neg (by simpa using hc), add_zero] at hother
  refine rel_mono (h.stats id) fun frame stat _ hrel => ?_
  exact ⟨hrel.function, hrel.file, hrel.line, hrel.flat.trans hflat.symm,
    hrel.cumulative.trans hcumulative.symm⟩

theorem contribute_stats {cs : List Contribution} {a : Aggregates} (h : Tallied cs a)
    {c : Contribution} (hfit : magnitudeSum (cs ++ [c]) < 2 ^ 63) (id : FrameIdentity) :
    Option.Rel (StatOf (cs ++ [c]) id) (firstFrame (cs ++ [c]) id)
      (contribute a c).stats[id]? := by
  have hmap : (contribute a c).stats[id]? =
      (addCumulative c.2 c.1 ∅ (addFlat c.1 c.2 a.stats))[id]? := rfl
  rw [hmap, addCumulative_getElem?, if_neg (Finset.notMem_empty id), firstFrame, findSome?_concat]
  change Option.Rel _ ((firstFrame cs id).or _) _
  cases hfind : c.1.find? fun frame => frame.identity = id with
  | none =>
    have hnot : id ∉ identities c := by
      intro hmem
      have hsome := (find?_identity_isSome c.1 id).mpr hmem
      rw [hfind] at hsome
      cases hsome
    have hshown : shownFrame id c = none := by
      rw [← Option.not_isSome_iff_eq_none, shownFrame_isSome]
      exact hnot
    rw [hshown, Option.or_none, addFlat_of_leaf_ne fun hleaf => hnot (leafIdentity_mem hleaf)]
    exact h.stat_unchanged hnot
  | some frame =>
    have hmem : id ∈ identities c := by
      rw [identities, ← find?_identity_isSome, hfind]
      rfl
    have hor (shown : ResolvedFrame) :
        (firstFrame cs id).or (some shown) = some ((firstFrame cs id).getD shown) := by
      cases firstFrame cs id <;> rfl
    have hcumulative {n : Int64} (hn : n.toInt = cumulativeOf cs id) :
        (saturatingAddI64 n c.2).toInt = cumulativeOf (cs ++ [c]) id :=
      saturatingAdd_total (decide_eq_true hmem) hfit hn
    by_cases hleaf : leafIdentity c = some id
    · obtain ⟨leaf, hlast, rfl⟩ := Option.map_eq_some_iff.mp hleaf
      have hold := h.stat_getD leaf.identity leaf
      rw [shownFrame, if_pos hleaf, hlast, hor, addFlat_of_leaf hlast]
      exact .some ⟨hold.function, hold.file, hold.line, saturatingAdd_total hleaf hfit hold.flat,
        hcumulative hold.cumulative⟩
    · have hold := h.stat_getD id frame
      have hflat : flatOf (cs ++ [c]) id = flatOf cs id := by
        have hother := total_concat leafIdentity cs c (some id)
        rwa [if_neg hleaf, add_zero] at hother
      rw [shownFrame, if_neg hleaf, hfind, hor, addFlat_of_leaf_ne hleaf]
      exact .some ⟨hold.function, hold.file, hold.line, hold.flat.trans hflat.symm,
        hcumulative hold.cumulative⟩

theorem Tallied.contribute {cs : List Contribution} {a : Aggregates} (h : Tallied cs a)
    {c : Contribution} (hfit : magnitudeSum (cs ++ [c]) < 2 ^ 63) :
    Tallied (cs ++ [c]) (contribute a c) := by
  refine ⟨?_, contribute_stats h hfit, contribute_stackStats h hfit⟩
  have hsum : magnitudeSum (cs ++ [c]) = magnitudeSum cs + |weight c| := by
    simp [magnitudeSum]
  have hnonneg := magnitudeSum_nonneg cs
  have habs : (saturatingAbsI64 c.2).toInt = |weight c| :=
    saturatingAbsI64_toInt (show |weight c| < 2 ^ 63 by omega)
  have hweight := abs_nonneg (weight c)
  change (saturatingAddI64 a.totalValue (saturatingAbsI64 c.2)).toInt = _
  rw [saturatingAddI64_toInt, h.totalValue, habs, hsum]
  rw [h.totalValue, habs]
  constructor
  · omega
  · omega

theorem Tallied.foldl {cs : List Contribution} {a : Aggregates} (h : Tallied cs a)
    (rest : List Contribution) (hfit : magnitudeSum (cs ++ rest) < 2 ^ 63) :
    Tallied (cs ++ rest) (rest.foldl Report.contribute a) := by
  induction rest generalizing cs a with
  | nil =>
    rw [List.append_nil]
    exact h
  | cons c rest ih =>
    have happend : cs ++ c :: rest = (cs ++ [c]) ++ rest := by simp
    rw [happend] at hfit ⊢
    have hrest := magnitudeSum_nonneg rest
    have hfitc : magnitudeSum (cs ++ [c]) < 2 ^ 63 := by
      rw [magnitudeSum_append] at hfit
      omega
    exact ih (h.contribute hfitc) hfit

theorem aggregate_tallied (p : PprofProfile) (sampleIndex : ℕ)
    (hfit : magnitudeSum (contributions p sampleIndex) < 2 ^ 63) :
    Tallied (contributions p sampleIndex) (aggregate p sampleIndex) := by
  rw [aggregate_eq]
  exact tallied_nil.foldl _ hfit

end PProfessor.Report
