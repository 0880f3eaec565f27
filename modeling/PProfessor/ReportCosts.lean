import PProfessor.ReportTallies
import PProfessor.HeapRelocation
import PProfessor.StackCosts

set_option autoImplicit false

/-!
# The costs that a report shows

What each row of a report costs, in terms of the profile alone: the identities of
a sample's frames and the values of the column.
-/
namespace PProfessor.Report
open KeyedSum NumberedTable Pprof StackCosts
open Heap (indexBy indexBy_getElem?)

structure UniqueIds (p : PprofProfile) : Prop where
  locations : (p.locations.map Location.id).Nodup
  functions : (p.functions.map Function.id).Nodup

def locationIdentities (p : PprofProfile) (l : Location) : List FrameIdentity :=
  if l.lines = [] then [.address l.address]
  else l.lines.reverse.filterMap fun line =>
    (lookup Function.id p.functions line.functionId).map fun f => .function f.id

def frameIdentities (p : PprofProfile) (s : Sample) : List FrameIdentity :=
  s.locationIds.reverse.flatMap fun id =>
    ((lookup Location.id p.locations id).map (locationIdentities p)).getD []

/-- The samples that have the column. -/
def weighted (p : PprofProfile) (sampleIndex : ℕ) : List (List FrameIdentity × ℤ) :=
  p.samples.filterMap fun s => s.values[sampleIndex]?.map fun v => (frameIdentities p s, v.toInt)

def identityNames (p : PprofProfile) : FrameIdentity → String × String
  | .function id => ((lookup Function.id p.functions id).map fun f =>
      (profileString p f.name, profileString p f.filename)).getD ("", "")
  | .address address => (hexAddress address, "")

variable {p : PprofProfile}

theorem resolveLine_eq (h : UniqueIds p) (line : Line) :
    resolveLine p (indexBy Function.id p.functions) line =
      (lookup Function.id p.functions line.functionId).map fun f =>
        { identity := .function f.id
          function := profileString p f.name
          file := profileString p f.filename
          line := line.line } := by
  rw [resolveLine, indexBy_getElem? Function.id p.functions h.functions]
  rfl

theorem resolveLocation_identities (h : UniqueIds p) (id : UInt64) :
    (resolveLocation p (indexBy Location.id p.locations) (indexBy Function.id p.functions) id).map
      ResolvedFrame.identity =
        ((lookup Location.id p.locations id).map (locationIdentities p)).getD [] := by
  have hfind : (indexBy Location.id p.locations)[id]? = lookup Location.id p.locations id :=
    indexBy_getElem? Location.id p.locations h.locations id
  unfold resolveLocation
  rw [hfind]
  cases lookup Location.id p.locations id with
  | none => rfl
  | some l =>
    rw [Option.map_some, Option.getD_some, locationIdentities]
    dsimp only
    split_ifs with hl
    · rfl
    · rw [List.map_filterMap]
      apply List.filterMap_congr
      intro line _
      rw [resolveLine_eq h, Option.map_map]
      rfl

theorem resolveStack_identities (h : UniqueIds p) (s : Sample) :
    (resolveStack p (indexBy Location.id p.locations) (indexBy Function.id p.functions) s).map
      ResolvedFrame.identity = frameIdentities p s := by
  unfold resolveStack frameIdentities
  rw [List.map_flatMap]
  apply List.flatMap_congr
  intro id _
  exact resolveLocation_identities h id

def Named (p : PprofProfile) (frame : ResolvedFrame) : Prop :=
  (frame.function, frame.file) = identityNames p frame.identity

theorem resolveStack_named (h : UniqueIds p) (s : Sample) :
    ∀ frame ∈ resolveStack p (indexBy Location.id p.locations) (indexBy Function.id p.functions) s,
      Named p frame := by
  refine forall_mem_resolveStack (fun _ => rfl) (fun line frame hline => ?_) s
  rw [resolveLine_eq h] at hline
  obtain ⟨f, hf, rfl⟩ := Option.map_eq_some_iff.mp hline
  have hid := (lookup_eq_some Function.id hf).2
  unfold Named identityNames
  simp only [hid, hf]
  rfl

def weightedStack (c : Contribution) : List FrameIdentity × ℤ := (identities c, weight c)

theorem weighted_eq (h : UniqueIds p) (sampleIndex : ℕ) :
    weighted p sampleIndex = (contributions p sampleIndex).map weightedStack := by
  unfold weighted contributions
  rw [List.map_filterMap]
  apply List.filterMap_congr
  intro s _
  rw [Option.map_map]
  congr 1
  funext v
  rw [← resolveStack_identities h]
  rfl

theorem exists_weighted (h : UniqueIds p) {sampleIndex : ℕ}
    {P : List FrameIdentity × ℤ → Prop} : (∃ s ∈ weighted p sampleIndex, P s) ↔
      ∃ c ∈ contributions p sampleIndex, P (weightedStack c) := by
  rw [weighted_eq h]
  constructor
  · rintro ⟨s, hs, hP⟩
    obtain ⟨c, hc, rfl⟩ := List.mem_map.mp hs
    exact ⟨c, hc, hP⟩
  · rintro ⟨c, hc, hP⟩
    exact ⟨_, List.mem_map_of_mem hc, hP⟩

theorem flatOf_eq (cs : List Contribution) (id : FrameIdentity) :
    flatOf cs id = flat (cs.map weightedStack) id := by
  unfold flatOf flat
  rw [total_map]
  apply total_congr
  · intro c _
    rw [leafIdentity, weightedStack, identities, List.getLast?_map]
  · exact fun _ _ => rfl

theorem cumulativeOf_eq (cs : List Contribution) (id : FrameIdentity) :
    cumulativeOf cs id = cumulative (cs.map weightedStack) id := by
  unfold cumulativeOf cumulative
  rw [total_map]
  rfl

theorem stackOf_eq (cs : List Contribution) (key : List FrameIdentity) :
    stackOf cs key = whole (cs.map weightedStack) key := by
  unfold stackOf whole
  rw [total_map]
  rfl

theorem magnitudeSum_eq (cs : List Contribution) :
    magnitudeSum cs = magnitude (cs.map weightedStack) := by
  unfold magnitudeSum magnitude
  rw [List.map_map]
  rfl

theorem contributions_named (h : UniqueIds p) {sampleIndex : ℕ} {c : Contribution}
    (hc : c ∈ contributions p sampleIndex) : ∀ frame ∈ c.1, Named p frame := by
  obtain ⟨s, -, hs⟩ := List.mem_filterMap.mp hc
  obtain ⟨v, -, rfl⟩ := Option.map_eq_some_iff.mp hs
  exact resolveStack_named h s

theorem shownFrame_spec {id : FrameIdentity} {c : Contribution} {frame : ResolvedFrame}
    (h : shownFrame id c = some frame) : frame ∈ c.1 ∧ frame.identity = id := by
  unfold shownFrame at h
  split_ifs at h with hleaf
  · rw [leafIdentity, h, Option.map_some, Option.some.injEq] at hleaf
    exact ⟨List.mem_of_getLast? h, hleaf⟩
  · exact ⟨List.mem_of_find?_eq_some h, by simpa using List.find?_some h⟩

theorem firstFrame_isSome (cs : List Contribution) (id : FrameIdentity) :
    (firstFrame cs id).isSome ↔ ∃ c ∈ cs, id ∈ identities c := by
  rw [firstFrame, List.findSome?_isSome_iff]
  simp only [shownFrame_isSome]

theorem firstStack_isSome (cs : List Contribution) (key : List FrameIdentity) :
    (firstStack cs key).isSome ↔ key ≠ [] ∧ ∃ c ∈ cs, identities c = key := by
  rw [firstStack, List.findSome?_isSome_iff]
  constructor
  · rintro ⟨c, hc, hshown⟩
    unfold shownStack at hshown
    split_ifs at hshown with hkey
    · exact ⟨hkey.1, c, hc, hkey.2⟩
    · cases hshown
  · rintro ⟨hkey, c, hc, hids⟩
    refine ⟨c, hc, ?_⟩
    rw [shownStack, if_pos ⟨hkey, hids⟩]
    rfl

structure FrameRow (p : PprofProfile) (samples : List (List FrameIdentity × ℤ))
    (id : FrameIdentity) (stat : FrameStat) : Prop where
  names : (stat.function, stat.file) = identityNames p id
  flat : stat.flat.toInt = flat samples id
  cumulative : stat.cumulative.toInt = cumulative samples id

structure StackRow (p : PprofProfile) (samples : List (List FrameIdentity × ℤ))
    (key : List FrameIdentity) (stat : StackStat) : Prop where
  names : (stat.frames.map fun frame => (frame.function, frame.file)) = key.map (identityNames p)
  value : stat.value.toInt = whole samples key

theorem frameRow_of_stat (h : UniqueIds p) {sampleIndex : ℕ} {id : FrameIdentity}
    {stat : FrameStat}
    (hrel : Option.Rel (StatOf (contributions p sampleIndex) id)
      (firstFrame (contributions p sampleIndex) id) (some stat)) :
    FrameRow p (weighted p sampleIndex) id stat := by
  cases hfirst : firstFrame (contributions p sampleIndex) id with
  | none =>
    rw [hfirst] at hrel
    cases hrel
  | some frame =>
    rw [hfirst] at hrel
    obtain ⟨c, hc, hshown⟩ := List.exists_of_findSome?_eq_some hfirst
    obtain ⟨hframe, rfl⟩ := shownFrame_spec hshown
    have hnamed := contributions_named h hc frame hframe
    cases hrel with
    | some hstat =>
      rw [weighted_eq h]
      refine ⟨?_, hstat.flat.trans (flatOf_eq _ _), hstat.cumulative.trans (cumulativeOf_eq _ _)⟩
      rw [hstat.function, hstat.file]
      exact hnamed

theorem stackRow_of_stat (h : UniqueIds p) {sampleIndex : ℕ} {key : List FrameIdentity}
    {stat : StackStat}
    (hrel : Option.Rel (StackStatOf (contributions p sampleIndex) key)
      (firstStack (contributions p sampleIndex) key) (some stat)) :
    StackRow p (weighted p sampleIndex) key stat := by
  cases hfirst : firstStack (contributions p sampleIndex) key with
  | none =>
    rw [hfirst] at hrel
    cases hrel
  | some frames =>
    rw [hfirst] at hrel
    obtain ⟨c, hc, hshown⟩ := List.exists_of_findSome?_eq_some hfirst
    unfold shownStack at hshown
    split_ifs at hshown with hkey
    obtain ⟨-, rfl⟩ := hkey
    rw [Option.some.injEq] at hshown
    cases hrel with
    | some hstat =>
      rw [weighted_eq h]
      refine ⟨?_, hstat.value.trans (stackOf_eq _ _)⟩
      rw [hstat.frames, ← hshown, identities, List.map_map, List.map_map]
      apply List.map_congr_left
      exact contributions_named h hc

/-- What the report says of the costs of one column. -/
structure Attributed (p : PprofProfile) (sampleIndex : ℕ) (report : ProfileReport) : Prop where
  totalValue : report.totalValue.toInt = magnitude (weighted p sampleIndex)
  topFrames : ∃ ids : List FrameIdentity, ids.Nodup ∧
    (∀ id, id ∈ ids ↔ ∃ s ∈ weighted p sampleIndex, id ∈ s.1) ∧
    List.Forall₂ (FrameRow p (weighted p sampleIndex)) ids report.topFrames
  topStacks : ∃ keys : List (List FrameIdentity), keys.Nodup ∧
    (∀ key, key ∈ keys ↔ key ≠ [] ∧ ∃ s ∈ weighted p sampleIndex, s.1 = key) ∧
    List.Forall₂ (StackRow p (weighted p sampleIndex)) keys report.topStacks

namespace Attributed

variable {sampleIndex : ℕ} {report : ProfileReport} (h : Attributed p sampleIndex report)
include h

theorem sum_flat :
    (report.topFrames.map fun stat => stat.flat.toInt).sum = resolved (weighted p sampleIndex) := by
  obtain ⟨ids, hnodup, hmem, hrows⟩ := h.topFrames
  have hmap : ids.map (flat (weighted p sampleIndex)) =
      report.topFrames.map fun stat => stat.flat.toInt :=
    map_eq_of_forall₂ (hrows.imp fun _ _ hrow => hrow.flat.symm)
  rw [← hmap]
  exact StackCosts.sum_flat hnodup fun s hs id hid => (hmem id).mpr ⟨s, hs, hid⟩

theorem sum_stack :
    (report.topStacks.map fun stat => stat.value.toInt).sum =
      resolved (weighted p sampleIndex) := by
  obtain ⟨keys, hnodup, hmem, hrows⟩ := h.topStacks
  have hmap : keys.map (whole (weighted p sampleIndex)) =
      report.topStacks.map fun stat => stat.value.toInt :=
    map_eq_of_forall₂ (hrows.imp fun _ _ hrow => hrow.value.symm)
  rw [← hmap]
  apply StackCosts.sum_whole hnodup
  · rw [hmem]
    exact fun hnil => hnil.1 rfl
  · exact fun s hs hne => (hmem s.1).mpr ⟨hne, s, hs, rfl⟩

theorem bounds (hnonneg : ∀ s ∈ weighted p sampleIndex, 0 ≤ s.2) :
    ∀ stat ∈ report.topFrames, stat.flat.toInt ≤ stat.cumulative.toInt ∧
      stat.cumulative.toInt ≤ report.totalValue.toInt := by
  obtain ⟨ids, -, -, hrows⟩ := h.topFrames
  intro stat hstat
  obtain ⟨id, -, hrow⟩ := forall₂_exists_left hrows hstat
  rw [hrow.flat, hrow.cumulative, h.totalValue]
  exact ⟨flat_le_cumulative hnonneg id, cumulative_le_magnitude hnonneg id⟩

end Attributed

theorem exists_ranked {κ σ : Type} {R : κ → σ → Prop} {order : List (κ × σ)}
    (h : ∀ entry ∈ order, R entry.1 entry.2) {ranked : List σ}
    (hperm : (order.map Prod.snd).Perm ranked) :
    ∃ keys, (order.map Prod.fst).Perm keys ∧ List.Forall₂ R keys ranked := by
  have hrows : List.Forall₂ R (order.map Prod.fst) (order.map Prod.snd) := by
    rw [List.forall₂_map_left_iff, List.forall₂_map_right_iff, List.forall₂_same]
    exact h
  have hcomp : (Relation.Comp (List.Forall₂ R) List.Perm) (order.map Prod.fst) ranked :=
    ⟨_, hrows, hperm⟩
  rw [List.forall₂_comp_perm_eq_perm_comp_forall₂] at hcomp
  exact hcomp

theorem isSome_iff_of_rel {α β : Type} {R : α → β → Prop} {a : Option α} {b : Option β}
    (h : Option.Rel R a b) : a.isSome ↔ b.isSome := by
  cases h <;> simp

theorem attributed_ranked (hunique : UniqueIds p) {sampleIndex : ℕ}
    (hfit : magnitude (weighted p sampleIndex) < 2 ^ 63)
    {frameOrder : List (FrameIdentity × FrameStat)}
    (hframes : Enumerates frameOrder (aggregate p sampleIndex).stats)
    {stackOrder : List (List FrameIdentity × StackStat)}
    (hstacks : Enumerates stackOrder (aggregate p sampleIndex).stackStats) {report : ProfileReport}
    (htotal : report.totalValue = (aggregate p sampleIndex).totalValue)
    (htopFrames : (frameOrder.map Prod.snd).Perm report.topFrames)
    (htopStacks : (stackOrder.map Prod.snd).Perm report.topStacks) :
    Attributed p sampleIndex report := by
  have htallied : Tallied (contributions p sampleIndex) (aggregate p sampleIndex) := by
    apply aggregate_tallied
    rw [magnitudeSum_eq, ← weighted_eq hunique]
    exact hfit
  refine ⟨?_, ?_, ?_⟩
  · rw [htotal, htallied.totalValue, magnitudeSum_eq, ← weighted_eq hunique]
  · obtain ⟨ids, hperm, hrows⟩ := exists_ranked (R := FrameRow p (weighted p sampleIndex))
      (fun entry hentry => frameRow_of_stat hunique
        ((hframes.mem_iff entry.1 entry.2).mp hentry ▸ htallied.stats entry.1)) htopFrames
    refine ⟨ids, hperm.nodup_iff.mp hframes.keys_nodup, ?_, hrows⟩
    intro id
    rw [← hperm.mem_iff, hframes.mem_keys, ← isSome_iff_of_rel (htallied.stats id),
      firstFrame_isSome, exists_weighted hunique]
    rfl
  · obtain ⟨keys, hperm, hrows⟩ := exists_ranked (R := StackRow p (weighted p sampleIndex))
      (fun entry hentry => stackRow_of_stat hunique
        ((hstacks.mem_iff entry.1 entry.2).mp hentry ▸ htallied.stackStats entry.1)) htopStacks
    refine ⟨keys, hperm.nodup_iff.mp hstacks.keys_nodup, ?_, hrows⟩
    intro key
    rw [← hperm.mem_iff, hstacks.mem_keys, ← isSome_iff_of_rel (htallied.stackStats key),
      firstStack_isSome, exists_weighted hunique]
    rfl

theorem sampleIndexOf_lt {requested : Option String} {sampleIndex : ℕ}
    (h : sampleIndexOf p requested = .ok sampleIndex) : sampleIndex < p.valueTypes.length := by
  have hnames {name : String} {index : ℕ}
      (hidx : (p.valueTypes.map fun sample => profileString p sample.type).idxOf? name =
        some index) : index < p.valueTypes.length := by
    rw [List.idxOf?_eq_some_iff] at hidx
    obtain ⟨hlt, -⟩ := hidx
    rwa [List.length_map] at hlt
  have hlast (hne : p.valueTypes ≠ []) : p.valueTypes.length - 1 < p.valueTypes.length := by
    have hpos := List.length_pos_iff.mpr hne
    omega
  unfold sampleIndexOf at h
  dsimp only at h
  split at h
  · cases h
  · rename_i hne
    split at h
    · split at h
      · split_ifs at h with hlt
        cases h
        exact hlt
      · split at h
        · rename_i hidx
          cases h
          exact hnames hidx
        · cases h
    · split_ifs at h with hdefault
      · split at h
        · rename_i hidx
          cases h
          exact hnames hidx
        · cases h
          exact hlast hne
      · cases h
        exact hlast hne

theorem exists_attributed (hunique : UniqueIds p) {requested : Option String} {sampleIndex : ℕ}
    (hindex : sampleIndexOf p requested = .ok sampleIndex)
    (hfit : magnitude (weighted p sampleIndex) < 2 ^ 63)
    {frameOrder : List (FrameIdentity × FrameStat)}
    (hframes : Enumerates frameOrder (aggregate p sampleIndex).stats)
    {stackOrder : List (List FrameIdentity × StackStat)}
    (hstacks : Enumerates stackOrder (aggregate p sampleIndex).stackStats) :
    ∃ report, fromProfile p requested frameOrder stackOrder = .ok report ∧
      Attributed p sampleIndex report := by
  have hlt := sampleIndexOf_lt hindex
  have hreport : ∃ report, fromProfile p requested frameOrder stackOrder = .ok report ∧
      report.totalValue = (aggregate p sampleIndex).totalValue ∧
      (frameOrder.map Prod.snd).Perm report.topFrames ∧
      (stackOrder.map Prod.snd).Perm report.topStacks := by
    unfold fromProfile
    simp only [hindex, bind, Except.bind, List.getElem?_eq_getElem hlt]
    exact ⟨_, rfl, rfl, (List.mergeSort_perm _ _).symm, (List.mergeSort_perm _ _).symm⟩
  obtain ⟨report, hok, htotal, htopFrames, htopStacks⟩ := hreport
  exact ⟨report, hok, attributed_ranked hunique hfit hframes hstacks htotal htopFrames htopStacks⟩

/-- Every cost in the report is the one the profile's samples have, and the costs
of the rows add up. -/
theorem fromProfile_attributes (hunique : UniqueIds p) {requested : Option String} {sampleIndex : ℕ}
    (hindex : sampleIndexOf p requested = .ok sampleIndex)
    (hfit : magnitude (weighted p sampleIndex) < 2 ^ 63)
    {frameOrder : List (FrameIdentity × FrameStat)}
    (hframes : Enumerates frameOrder (aggregate p sampleIndex).stats)
    {stackOrder : List (List FrameIdentity × StackStat)}
    (hstacks : Enumerates stackOrder (aggregate p sampleIndex).stackStats) :
    ∃ report, fromProfile p requested frameOrder stackOrder = .ok report ∧
      Attributed p sampleIndex report ∧
      (report.topFrames.map fun stat => stat.flat.toInt).sum =
        resolved (weighted p sampleIndex) ∧
      (report.topStacks.map fun stat => stat.value.toInt).sum =
        resolved (weighted p sampleIndex) ∧
      ((∀ s ∈ weighted p sampleIndex, 0 ≤ s.2) → ∀ stat ∈ report.topFrames,
        stat.flat.toInt ≤ stat.cumulative.toInt ∧
          stat.cumulative.toInt ≤ report.totalValue.toInt) := by
  obtain ⟨report, hok, h⟩ := exists_attributed hunique hindex hfit hframes hstacks
  exact ⟨report, hok, h, h.sum_flat, h.sum_stack, h.bounds⟩

def recursive : PprofProfile :=
  { PprofProfile.withStrings
      (.ofStrings ["", "cpu", "nanoseconds", "walk", "visit", "walk.rs"]) with
    valueTypes := [⟨1, 2⟩]
    functions := [⟨1, 3, 3, 5, 0⟩, ⟨2, 4, 4, 5, 0⟩]
    locations := [⟨1, 0, 0x1000, [⟨1, 10, 0⟩], false⟩,
      ⟨2, 0, 0x2000, [⟨2, 30, 0⟩, ⟨1, 20, 0⟩], false⟩, ⟨3, 0, 0x3000, [], false⟩]
    samples := [⟨[2, 1], [7], []⟩, ⟨[3, 9, 1], [5], []⟩, ⟨[1], [], []⟩] }

theorem weighted_recursive : weighted recursive 0 =
    [([.function 1, .function 1, .function 2], 7), ([.function 1, .address 0x3000], 5)] := rfl

theorem fromProfile_attributes_recursive : ∃ frameOrder stackOrder report,
    fromProfile recursive none frameOrder stackOrder = .ok report ∧
      report.totalValue.toInt = 12 ∧
      (report.topFrames.map fun stat => stat.flat.toInt).sum = 12 ∧
      ∀ stat ∈ report.topFrames, stat.flat.toInt ≤ stat.cumulative.toInt := by
  obtain ⟨frameOrder, hframes⟩ := Enumerates.exists_order (aggregate recursive 0).stats
  obtain ⟨stackOrder, hstacks⟩ := Enumerates.exists_order (aggregate recursive 0).stackStats
  have hunique : UniqueIds recursive := ⟨by decide, by decide⟩
  obtain ⟨report, hok, h, hsum, -, hbounds⟩ := fromProfile_attributes hunique
    (show sampleIndexOf recursive none = .ok 0 from rfl)
    (by rw [weighted_recursive]; decide) hframes hstacks
  have htotal := h.totalValue
  rw [weighted_recursive] at hsum htotal hbounds
  refine ⟨frameOrder, stackOrder, report, hok, htotal, hsum, ?_⟩
  intro stat hstat
  exact (hbounds (by decide) stat hstat).1

end PProfessor.Report
