import PProfessor.ReportCosts
import PProfessor.ReportTreeOrder

set_option autoImplicit false

/-!
# What a report owes to the order of the samples

A row shows the line of the first sample that entered it, and rows that tie keep
the order of a hash map. The report is the same for every order exactly where rows
that tie show the same.
-/
namespace PProfessor.Report
open CheckedArith KeyedSum Pprof Ranking CallTree
open Heap (indexBy)

variable {p : PprofProfile} {sampleIndex : ℕ}

theorem contributions_perm {samples : List Sample} (h : samples.Perm p.samples) :
    (contributions { p with samples := samples } sampleIndex).Perm (contributions p sampleIndex) :=
  h.filterMap _

theorem contributions_first {c : Contribution} (hc : c ∈ contributions p sampleIndex) :
    ∃ samples rest, samples.Perm p.samples ∧
      contributions { p with samples := samples } sampleIndex = c :: rest := by
  obtain ⟨s, hs, hsc⟩ := List.mem_filterMap.mp hc
  obtain ⟨before, after, hsplit⟩ := List.append_of_mem hs
  refine ⟨s :: (before ++ after), _, ?_, List.filterMap_cons_some hsc⟩
  rw [hsplit]
  exact List.perm_middle.symm

theorem magnitudeSum_perm {cs cs' : List Contribution} (h : cs.Perm cs') :
    magnitudeSum cs = magnitudeSum cs' :=
  (h.map _).sum_eq

theorem firstFrame_mem {cs : List Contribution} {id : FrameIdentity} {frame : ResolvedFrame}
    (h : firstFrame cs id = some frame) : ∃ c ∈ cs, shownFrame id c = some frame :=
  List.exists_of_findSome?_eq_some h

theorem indexBy_id {α : Type} (id : α → UInt64) (xs : List α) {k : UInt64} {x : α}
    (h : (indexBy id xs)[k]? = some x) : id x = k := by
  suffices hgen : ∀ map : Std.ExtHashMap UInt64 α, (∀ k x, map[k]? = some x → id x = k) →
      ∀ k x, (xs.foldl (fun map x => map.insert (id x) x) map)[k]? = some x → id x = k by
    exact hgen ∅ (by simp) k x h
  clear h
  induction xs with
  | nil => exact fun _ hmap => hmap
  | cons y ys ih =>
    intro map hmap
    apply ih
    intro k x hx
    rw [Std.ExtHashMap.getElem?_insert] at hx
    split_ifs at hx with hk
    · cases hx
      simpa using hk
    · exact hmap k x hx

def namesIn (p : PprofProfile) : FrameIdentity → String × String
  | .function id => (((indexBy Function.id p.functions)[id]?).map fun f =>
      (profileString p f.name, profileString p f.filename)).getD ("", "")
  | .address address => (hexAddress address, "")

theorem contributions_namesIn {c : Contribution} (hc : c ∈ contributions p sampleIndex) :
    ∀ frame ∈ c.1, (frame.function, frame.file) = namesIn p frame.identity := by
  obtain ⟨s, -, hs⟩ := List.mem_filterMap.mp hc
  obtain ⟨v, -, rfl⟩ := Option.map_eq_some_iff.mp hs
  refine forall_mem_resolveStack (fun _ => rfl) (fun line frame hline => ?_) s
  obtain ⟨f, hf, rfl⟩ := Option.map_eq_some_iff.mp hline
  simp only [namesIn, indexBy_id Function.id p.functions hf, hf]
  rfl

theorem function_of_identity {c c' : Contribution} (hc : c ∈ contributions p sampleIndex)
    (hc' : c' ∈ contributions p sampleIndex) {frame frame' : ResolvedFrame} (hframe : frame ∈ c.1)
    (hframe' : frame' ∈ c'.1) (h : frame.identity = frame'.identity) :
    frame.function = frame'.function := by
  have hnames := contributions_namesIn hc frame hframe
  have hnames' := contributions_namesIn hc' frame' hframe'
  rw [h, ← hnames'] at hnames
  exact (Prod.mk.inj hnames).1

theorem functions_of_identities {c c' : Contribution} (hc : c ∈ contributions p sampleIndex)
    (hc' : c' ∈ contributions p sampleIndex) (h : identities c = identities c') :
    c.1.map ResolvedFrame.function = c'.1.map ResolvedFrame.function := by
  rw [← List.forall₂_eq_eq_eq, List.forall₂_map_left_iff, List.forall₂_map_right_iff]
  unfold identities at h
  rw [← List.forall₂_eq_eq_eq, List.forall₂_map_left_iff, List.forall₂_map_right_iff] at h
  refine (forall₂_mem h).imp ?_
  rintro frame frame' ⟨hframe, hframe', hid⟩
  exact function_of_identity hc hc' hframe hframe' hid

/-- Frames whose rows tie show the same file, line and costs. -/
def FramesSettled (cs : List Contribution) : Prop :=
  ∀ id id' : FrameIdentity, ∀ c ∈ cs, ∀ c' ∈ cs, ∀ frame frame' : ResolvedFrame,
    shownFrame id c = some frame → shownFrame id' c' = some frame' →
    |flatOf cs id| = |flatOf cs id'| → |cumulativeOf cs id| = |cumulativeOf cs id'| →
    frame.function = frame'.function →
      frame.file = frame'.file ∧ frame.line = frame'.line ∧ flatOf cs id = flatOf cs id' ∧
        cumulativeOf cs id = cumulativeOf cs id'

/-- Stacks whose rows tie show the same files, lines and value. -/
def StacksSettled (cs : List Contribution) : Prop :=
  ∀ c ∈ cs, ∀ c' ∈ cs, c.1 ≠ [] → c'.1 ≠ [] →
    |stackOf cs (identities c)| = |stackOf cs (identities c')| →
    c.1.map ResolvedFrame.function = c'.1.map ResolvedFrame.function →
      c.1.map ResolvedFrame.reportFrame = c'.1.map ResolvedFrame.reportFrame ∧
        stackOf cs (identities c) = stackOf cs (identities c')

instance : Std.TransCmp compareFrames := by
  have h : Std.TransCmp (compareLex
      (fun a b : FrameStat => compareOn (fun s => saturatingAbsI64 s.flat) b a)
      (compareLex (fun a b : FrameStat => compareOn (fun s => saturatingAbsI64 s.cumulative) b a)
        (compareOn FrameStat.function))) := inferInstance
  exact h

instance : Std.TransCmp compareStacks := by
  have h : Std.TransCmp (compareLex
      (fun a b : StackStat => compareOn (fun s => saturatingAbsI64 s.value) b a)
      (compareOn fun s : StackStat => s.frames.map ReportFrame.function)) := inferInstance
  exact h

theorem compareFrames_eq_iff (s s' : FrameStat) : compareFrames s s' = .eq ↔
    saturatingAbsI64 s.flat = saturatingAbsI64 s'.flat ∧
      saturatingAbsI64 s.cumulative = saturatingAbsI64 s'.cumulative ∧
      s.function = s'.function := by
  rw [compareFrames, Ordering.then_eq_eq, Ordering.then_eq_eq, Std.LawfulEqOrd.compare_eq_iff_eq,
    Std.LawfulEqOrd.compare_eq_iff_eq, Std.LawfulEqOrd.compare_eq_iff_eq,
    eq_comm (a := saturatingAbsI64 s'.flat), eq_comm (a := saturatingAbsI64 s'.cumulative)]

theorem compareStacks_eq_iff (s s' : StackStat) : compareStacks s s' = .eq ↔
    saturatingAbsI64 s.value = saturatingAbsI64 s'.value ∧
      s.frames.map ReportFrame.function = s'.frames.map ReportFrame.function := by
  rw [compareStacks, Ordering.then_eq_eq, Std.LawfulEqOrd.compare_eq_iff_eq,
    Std.LawfulEqOrd.compare_eq_iff_eq, eq_comm (a := saturatingAbsI64 s'.value)]

theorem saturatingAbsI64_eq_iff {a b : Int64} (ha : |a.toInt| < 2 ^ 63) (hb : |b.toInt| < 2 ^ 63) :
    saturatingAbsI64 a = saturatingAbsI64 b ↔ |a.toInt| = |b.toInt| := by
  rw [← Int64.toInt_inj, saturatingAbsI64_toInt ha, saturatingAbsI64_toInt hb]

section Rows

variable {cs cs' : List Contribution} {a : Aggregates}

theorem StatOf.of_perm (h : cs'.Perm cs) {id : FrameIdentity} {frame : ResolvedFrame}
    {stat : FrameStat} (hstat : StatOf cs' id frame stat) : StatOf cs id frame stat :=
  ⟨hstat.function, hstat.file, hstat.line, hstat.flat.trans (total_perm _ _ h _),
    hstat.cumulative.trans (total_perm _ _ h _)⟩

theorem StackStatOf.of_perm (h : cs'.Perm cs) {key : List FrameIdentity}
    {frames : List ReportFrame} {stat : StackStat} (hstat : StackStatOf cs' key frames stat) :
    StackStatOf cs key frames stat :=
  ⟨hstat.frames, hstat.value.trans (total_perm _ _ h _)⟩

theorem Tallied.stat_shown (h : Tallied cs' a) (hp : cs'.Perm cs) {id : FrameIdentity}
    {stat : FrameStat} (hstat : a.stats[id]? = some stat) :
    ∃ c ∈ cs, ∃ frame, shownFrame id c = some frame ∧ StatOf cs id frame stat := by
  have hrel := h.stats id
  rw [hstat] at hrel
  cases hfirst : firstFrame cs' id with
  | none =>
    rw [hfirst] at hrel
    cases hrel
  | some frame =>
    rw [hfirst] at hrel
    obtain ⟨c, hc, hshown⟩ := firstFrame_mem hfirst
    cases hrel with
    | some hrel => exact ⟨c, hp.mem_iff.mp hc, frame, hshown, hrel.of_perm hp⟩

theorem Tallied.stat_first {c : Contribution} {rest : List Contribution}
    (h : Tallied (c :: rest) a) (hp : (c :: rest).Perm cs) {id : FrameIdentity}
    {frame : ResolvedFrame} (hshown : shownFrame id c = some frame) :
    ∃ stat, a.stats[id]? = some stat ∧ StatOf cs id frame stat := by
  have hrel := h.stats id
  have hfirst : firstFrame (c :: rest) id = some frame := by
    rw [firstFrame, List.findSome?_cons, hshown]
  rw [hfirst] at hrel
  cases hstat : a.stats[id]? with
  | none =>
    rw [hstat] at hrel
    cases hrel
  | some stat =>
    rw [hstat] at hrel
    cases hrel with
    | some hrel => exact ⟨stat, rfl, hrel.of_perm hp⟩

theorem shownStack_spec {key : List FrameIdentity} {c : Contribution} {frames : List ReportFrame}
    (h : shownStack key c = some frames) :
    c.1 ≠ [] ∧ identities c = key ∧ frames = c.1.map ResolvedFrame.reportFrame := by
  unfold shownStack at h
  split_ifs at h with hkey
  obtain ⟨hne, rfl⟩ := hkey
  refine ⟨?_, rfl, (Option.some.inj h).symm⟩
  rintro hnil
  exact hne (by rw [identities, hnil]; rfl)

theorem Tallied.stack_shown (h : Tallied cs' a) (hp : cs'.Perm cs) {key : List FrameIdentity}
    {stat : StackStat} (hstat : a.stackStats[key]? = some stat) :
    ∃ c ∈ cs, c.1 ≠ [] ∧ identities c = key ∧
      StackStatOf cs key (c.1.map ResolvedFrame.reportFrame) stat := by
  have hrel := h.stackStats key
  rw [hstat] at hrel
  cases hfirst : firstStack cs' key with
  | none =>
    rw [hfirst] at hrel
    cases hrel
  | some frames =>
    rw [hfirst] at hrel
    obtain ⟨c, hc, hshown⟩ := List.exists_of_findSome?_eq_some hfirst
    obtain ⟨hne, hkey, rfl⟩ := shownStack_spec hshown
    cases hrel with
    | some hrel => exact ⟨c, hp.mem_iff.mp hc, hne, hkey, hrel.of_perm hp⟩

theorem Tallied.stack_first {c : Contribution} {rest : List Contribution}
    (h : Tallied (c :: rest) a) (hp : (c :: rest).Perm cs) (hne : c.1 ≠ []) :
    ∃ stat, a.stackStats[identities c]? = some stat ∧
      StackStatOf cs (identities c) (c.1.map ResolvedFrame.reportFrame) stat := by
  have hkey : identities c ≠ [] := by
    rw [identities, ne_eq, List.map_eq_nil_iff]
    exact hne
  have hrel := h.stackStats (identities c)
  have hfirst : firstStack (c :: rest) (identities c) =
      some (c.1.map ResolvedFrame.reportFrame) := by
    rw [firstStack, List.findSome?_cons, shownStack, if_pos ⟨hkey, rfl⟩]
  rw [hfirst] at hrel
  cases hstat : a.stackStats[identities c]? with
  | none =>
    rw [hstat] at hrel
    cases hrel
  | some stat =>
    rw [hstat] at hrel
    cases hrel with
    | some hrel => exact ⟨stat, rfl, hrel.of_perm hp⟩

variable (hfit : magnitudeSum cs < 2 ^ 63)
include hfit

theorem compareFrames_of_stats {id id' : FrameIdentity} {frame frame' : ResolvedFrame}
    {stat stat' : FrameStat} (h : StatOf cs id frame stat) (h' : StatOf cs id' frame' stat') :
    compareFrames stat stat' = .eq ↔ |flatOf cs id| = |flatOf cs id'| ∧
      |cumulativeOf cs id| = |cumulativeOf cs id'| ∧ frame.function = frame'.function := by
  have hflat (id : FrameIdentity) : |flatOf cs id| < 2 ^ 63 := (abs_total_le _ _ _).trans_lt hfit
  have hcumulative (id : FrameIdentity) : |cumulativeOf cs id| < 2 ^ 63 :=
    (abs_total_le _ _ _).trans_lt hfit
  rw [compareFrames_eq_iff, saturatingAbsI64_eq_iff, saturatingAbsI64_eq_iff, h.flat, h'.flat,
    h.cumulative, h'.cumulative, h.function, h'.function]
  · rw [h.cumulative]
    exact hcumulative id
  · rw [h'.cumulative]
    exact hcumulative id'
  · rw [h.flat]
    exact hflat id
  · rw [h'.flat]
    exact hflat id'

theorem compareStacks_of_stats {c c' : Contribution} {stat stat' : StackStat}
    (h : StackStatOf cs (identities c) (c.1.map ResolvedFrame.reportFrame) stat)
    (h' : StackStatOf cs (identities c') (c'.1.map ResolvedFrame.reportFrame) stat') :
    compareStacks stat stat' = .eq ↔ |stackOf cs (identities c)| = |stackOf cs (identities c')| ∧
      c.1.map ResolvedFrame.function = c'.1.map ResolvedFrame.function := by
  have hvalue (key : List FrameIdentity) : |stackOf cs key| < 2 ^ 63 :=
    (abs_total_le _ _ _).trans_lt hfit
  have hnames (c : Contribution) :
      (c.1.map ResolvedFrame.reportFrame).map ReportFrame.function =
        c.1.map ResolvedFrame.function := by
    rw [List.map_map]
    rfl
  rw [compareStacks_eq_iff, saturatingAbsI64_eq_iff, h.value, h'.value, h.frames, h'.frames,
    hnames, hnames]
  · rw [h.value]
    exact hvalue _
  · rw [h'.value]
    exact hvalue _

end Rows

theorem StatOf.eq_iff {cs : List Contribution} {id id' : FrameIdentity}
    {frame frame' : ResolvedFrame} {stat stat' : FrameStat} (h : StatOf cs id frame stat)
    (h' : StatOf cs id' frame' stat') (hfunction : frame.function = frame'.function) :
    stat = stat' ↔ frame.file = frame'.file ∧ frame.line = frame'.line ∧
      flatOf cs id = flatOf cs id' ∧ cumulativeOf cs id = cumulativeOf cs id' := by
  rw [← h.flat, ← h'.flat, ← h.cumulative, ← h'.cumulative, ← h.file, ← h'.file, ← h.line,
    ← h'.line, Int64.toInt_inj, Int64.toInt_inj]
  have hsame : stat.function = stat'.function := by rw [h.function, h'.function, hfunction]
  cases stat
  cases stat'
  simp_all

theorem StackStatOf.eq_iff {cs : List Contribution} {key key' : List FrameIdentity}
    {frames frames' : List ReportFrame} {stat stat' : StackStat}
    (h : StackStatOf cs key frames stat) (h' : StackStatOf cs key' frames' stat') :
    stat = stat' ↔ frames = frames' ∧ stackOf cs key = stackOf cs key' := by
  rw [← h.value, ← h'.value, ← h.frames, ← h'.frames, Int64.toInt_inj]
  cases stat
  cases stat'
  simp

abbrev Arrangement (p : PprofProfile) : Type := { samples : List Sample // samples.Perm p.samples }

def Arrangement.aggregates (r : Arrangement p) (sampleIndex : ℕ) : Aggregates :=
  aggregate { p with samples := r.1 } sampleIndex

section Runs

variable (hfit : magnitudeSum (contributions p sampleIndex) < 2 ^ 63)
include hfit

theorem Arrangement.tallied (r : Arrangement p) :
    Tallied (contributions { p with samples := r.1 } sampleIndex) (r.aggregates sampleIndex) := by
  apply aggregate_tallied
  rwa [magnitudeSum_perm (contributions_perm r.2)]

theorem Arrangement.stat_isSome (r : Arrangement p) (id : FrameIdentity) :
    (((r.aggregates sampleIndex).stats)[id]?).isSome ↔
      ∃ c ∈ contributions p sampleIndex, id ∈ identities c := by
  rw [← isSome_iff_of_rel ((r.tallied hfit).stats id), firstFrame_isSome]
  simp only [(contributions_perm r.2).mem_iff]

theorem Arrangement.stack_isSome (r : Arrangement p) (key : List FrameIdentity) :
    (((r.aggregates sampleIndex).stackStats)[key]?).isSome ↔
      key ≠ [] ∧ ∃ c ∈ contributions p sampleIndex, identities c = key := by
  rw [← isSome_iff_of_rel ((r.tallied hfit).stackStats key), firstStack_isSome]
  simp only [(contributions_perm r.2).mem_iff]

/-- The frames are ranked the same in every order exactly where ties are settled. -/
theorem frames_rank_eq_iff :
    (∀ (r r' : Arrangement p) (order order' : List (FrameIdentity × FrameStat)),
      Enumerates order (r.aggregates sampleIndex).stats →
      Enumerates order' (r'.aggregates sampleIndex).stats →
      rank compareFrames (order.map Prod.snd) = rank compareFrames (order'.map Prod.snd)) ↔
    FramesSettled (contributions p sampleIndex) := by
  rw [rank_maps_eq_iff compareFrames fun r : Arrangement p => (r.aggregates sampleIndex).stats]
  · constructor
    · intro h id id' c hc c' hc' frame frame' hshown hshown' hflat hcumulative hfunction
      obtain ⟨samples, rest, hp, hfirst⟩ := contributions_first hc
      obtain ⟨samples', rest', hp', hfirst'⟩ := contributions_first hc'
      have htallied := Arrangement.tallied hfit ⟨samples, hp⟩
      have htallied' := Arrangement.tallied hfit ⟨samples', hp'⟩
      rw [hfirst] at htallied
      rw [hfirst'] at htallied'
      obtain ⟨stat, hstat, hof⟩ := htallied.stat_first (hfirst ▸ contributions_perm hp) hshown
      obtain ⟨stat', hstat', hof'⟩ :=
        htallied'.stat_first (hfirst' ▸ contributions_perm hp') hshown'
      have htied := (compareFrames_of_stats hfit hof hof').mpr ⟨hflat, hcumulative, hfunction⟩
      exact (hof.eq_iff hof' hfunction).mp
        (h ⟨samples, hp⟩ ⟨samples', hp'⟩ id id' stat stat' hstat hstat' htied)
    · intro h r r' id id' stat stat' hstat hstat' htied
      obtain ⟨c, hc, frame, hshown, hof⟩ :=
        (r.tallied hfit).stat_shown (contributions_perm r.2) hstat
      obtain ⟨c', hc', frame', hshown', hof'⟩ :=
        (r'.tallied hfit).stat_shown (contributions_perm r'.2) hstat'
      obtain ⟨hflat, hcumulative, hfunction⟩ := (compareFrames_of_stats hfit hof hof').mp htied
      rw [hof.eq_iff hof' hfunction]
      exact h id id' c hc c' hc' frame frame' hshown hshown' hflat hcumulative hfunction
  · intro r r' id hsome
    rwa [r'.stat_isSome hfit, ← r.stat_isSome hfit]
  · intro r r' id stat stat' hstat hstat'
    obtain ⟨c, hc, frame, hshown, hof⟩ :=
      (r.tallied hfit).stat_shown (contributions_perm r.2) hstat
    obtain ⟨c', hc', frame', hshown', hof'⟩ :=
      (r'.tallied hfit).stat_shown (contributions_perm r'.2) hstat'
    obtain ⟨hframe, hid⟩ := shownFrame_spec hshown
    obtain ⟨hframe', hid'⟩ := shownFrame_spec hshown'
    rw [compareFrames_of_stats hfit hof hof']
    exact ⟨rfl, rfl, function_of_identity hc hc' hframe hframe' (hid.trans hid'.symm)⟩

theorem stacks_rank_eq_iff :
    (∀ (r r' : Arrangement p) (order order' : List (List FrameIdentity × StackStat)),
      Enumerates order (r.aggregates sampleIndex).stackStats →
      Enumerates order' (r'.aggregates sampleIndex).stackStats →
      rank compareStacks (order.map Prod.snd) = rank compareStacks (order'.map Prod.snd)) ↔
    StacksSettled (contributions p sampleIndex) := by
  rw [rank_maps_eq_iff compareStacks fun r : Arrangement p =>
    (r.aggregates sampleIndex).stackStats]
  · constructor
    · intro h c hc c' hc' hne hne' hvalue hfunctions
      obtain ⟨samples, rest, hp, hfirst⟩ := contributions_first hc
      obtain ⟨samples', rest', hp', hfirst'⟩ := contributions_first hc'
      have htallied := Arrangement.tallied hfit ⟨samples, hp⟩
      have htallied' := Arrangement.tallied hfit ⟨samples', hp'⟩
      rw [hfirst] at htallied
      rw [hfirst'] at htallied'
      obtain ⟨stat, hstat, hof⟩ := htallied.stack_first (hfirst ▸ contributions_perm hp) hne
      obtain ⟨stat', hstat', hof'⟩ :=
        htallied'.stack_first (hfirst' ▸ contributions_perm hp') hne'
      have htied := (compareStacks_of_stats hfit hof hof').mpr ⟨hvalue, hfunctions⟩
      exact (hof.eq_iff hof').mp
        (h ⟨samples, hp⟩ ⟨samples', hp'⟩ _ _ stat stat' hstat hstat' htied)
    · intro h r r' key key' stat stat' hstat hstat' htied
      obtain ⟨c, hc, hne, rfl, hof⟩ :=
        (r.tallied hfit).stack_shown (contributions_perm r.2) hstat
      obtain ⟨c', hc', hne', rfl, hof'⟩ :=
        (r'.tallied hfit).stack_shown (contributions_perm r'.2) hstat'
      obtain ⟨hvalue, hfunctions⟩ := (compareStacks_of_stats hfit hof hof').mp htied
      rw [hof.eq_iff hof']
      exact h c hc c' hc' hne hne' hvalue hfunctions
  · intro r r' key hsome
    rwa [r'.stack_isSome hfit, ← r.stack_isSome hfit]
  · intro r r' key stat stat' hstat hstat'
    obtain ⟨c, hc, hne, rfl, hof⟩ :=
      (r.tallied hfit).stack_shown (contributions_perm r.2) hstat
    obtain ⟨c', hc', hne', hkey, hof'⟩ :=
      (r'.tallied hfit).stack_shown (contributions_perm r'.2) hstat'
    rw [← hkey] at hof'
    rw [compareStacks_of_stats hfit hof hof', hkey]
    refine ⟨rfl, functions_of_identities hc hc' hkey.symm⟩

end Runs

def stackRows (cs : List Contribution) : List StackStat :=
  ((cs.map identities).dedup).filterMap fun key =>
    (firstStack cs key).map fun frames => ⟨frames, Int64.ofInt (stackOf cs key)⟩

/-- Siblings of the call tree of these stacks that tie are alike. -/
def TreeSettled (cs : List Contribution) : Prop :=
  TiesAlike (fromStacks (rank compareStacks (stackRows cs)))

/-- The rows are those of the samples in their own order. -/
theorem stackRows_enumerated (hfit : magnitudeSum (contributions p sampleIndex) < 2 ^ 63) :
    ∃ order, Enumerates order (Arrangement.aggregates (p := p) ⟨p.samples, .refl _⟩
      sampleIndex).stackStats ∧
      order.map Prod.snd = stackRows (contributions p sampleIndex) := by
  have htallied := Arrangement.tallied hfit ⟨p.samples, .refl _⟩
  generalize Arrangement.aggregates ⟨p.samples, .refl _⟩ sampleIndex = a at htallied ⊢
  change Tallied (contributions p sampleIndex) a at htallied
  generalize contributions p sampleIndex = cs at *
  refine ⟨((cs.map identities).dedup).filterMap fun key =>
    (firstStack cs key).map fun frames => (key, ⟨frames, Int64.ofInt (stackOf cs key)⟩), ?_, ?_⟩
  · constructor
    · apply (List.nodup_dedup _).filterMap
      intro key key' entry hkey hkey'
      obtain ⟨frames, -, rfl⟩ := Option.map_eq_some_iff.mp hkey
      obtain ⟨frames', -, hentry⟩ := Option.map_eq_some_iff.mp hkey'
      exact (Prod.mk.inj hentry).1.symm
    · intro key stat
      rw [List.mem_filterMap]
      have hrel := htallied.stackStats key
      have hvalue : (Int64.ofInt (stackOf cs key)).toInt = stackOf cs key := by
        rw [Int64.toInt_ofInt]
        exact bmod_eq_self (total_inI64 _ hfit _)
      have hrow (frames : List ReportFrame) :
          StackStatOf cs key frames ⟨frames, Int64.ofInt (stackOf cs key)⟩ := ⟨rfl, hvalue⟩
      constructor
      · rintro ⟨key', -, hkey'⟩
        obtain ⟨frames, hfirst, hentry⟩ := Option.map_eq_some_iff.mp hkey'
        obtain ⟨rfl, rfl⟩ := Prod.mk.inj hentry
        rw [hfirst] at hrel
        cases hstat : a.stackStats[key']? with
        | none =>
          rw [hstat] at hrel
          cases hrel
        | some stat =>
          rw [hstat] at hrel
          cases hrel with
          | some hof =>
            rw [Option.some.injEq, hof.eq_iff (hrow frames)]
            exact ⟨rfl, rfl⟩
      · intro hstat
        rw [hstat] at hrel
        cases hfirst : firstStack cs key with
        | none =>
          rw [hfirst] at hrel
          cases hrel
        | some frames =>
          rw [hfirst] at hrel
          obtain ⟨c, hc, hshown⟩ := List.exists_of_findSome?_eq_some hfirst
          obtain ⟨-, rfl, -⟩ := shownStack_spec hshown
          refine ⟨identities c, List.mem_dedup.mpr (List.mem_map_of_mem hc), ?_⟩
          rw [hfirst, Option.map_some, Option.some.injEq, Prod.mk.injEq]
          refine ⟨rfl, ?_⟩
          cases hrel with
          | some hof =>
            symm
            rw [hof.eq_iff (hrow frames)]
            exact ⟨rfl, rfl⟩
  · rw [List.map_filterMap, stackRows]
    simp only [Option.map_map]
    rfl

/-- A report on the samples in some order, with the orders that its hash maps take,
and its call tree with the maps in the order in which they are traversed. -/
def Outcome (p : PprofProfile) (requested : Option String) (report : ProfileReport)
    (tree : CallTree) : Prop :=
  ∃ (r : Arrangement p) (sampleIndex : ℕ) (frameOrder : List (FrameIdentity × FrameStat))
    (stackOrder : List (List FrameIdentity × StackStat)),
    sampleIndexOf p requested = .ok sampleIndex ∧
    Enumerates frameOrder (r.aggregates sampleIndex).stats ∧
    Enumerates stackOrder (r.aggregates sampleIndex).stackStats ∧
    fromProfile { p with samples := r.1 } requested frameOrder stackOrder = .ok report ∧
    Reordered (fromStacks report.topStacks) tree

/-- All reports rank the same frames and the same stacks and render the same call tree. -/
def SameReport {F : Type} (floats : Floats F) (p : PprofProfile) (requested : Option String) :
    Prop :=
  ∀ report tree report' tree', Outcome p requested report tree →
    Outcome p requested report' tree' →
      report.topFrames = report'.topFrames ∧ report.topStacks = report'.topStacks ∧
        ∀ options, renderTree floats report options tree = renderTree floats report' options tree'

theorem fromProfile_ok {p : PprofProfile} {requested : Option String} {sampleIndex : ℕ}
    (hindex : sampleIndexOf p requested = .ok sampleIndex) (r : Arrangement p)
    (frameOrder : List (FrameIdentity × FrameStat))
    (stackOrder : List (List FrameIdentity × StackStat)) :
    ∃ selected, p.valueTypes[sampleIndex]? = some selected ∧
      fromProfile { p with samples := r.1 } requested frameOrder stackOrder = .ok {
        sampleType := profileString p selected.type
        sampleUnit := profileString p selected.unit
        availableSampleTypes := p.valueTypes.map fun sample => profileString p sample.type
        durationNanos := p.durationNanos
        sampleRecords := r.1.length
        totalValue := (r.aggregates sampleIndex).totalValue
        topFrames := rank compareFrames (frameOrder.map Prod.snd)
        topStacks := rank compareStacks (stackOrder.map Prod.snd) } := by
  have hlt := sampleIndexOf_lt hindex
  have hindex' : sampleIndexOf { p with samples := r.1 } requested = .ok sampleIndex := hindex
  refine ⟨p.valueTypes[sampleIndex], List.getElem?_eq_getElem hlt, ?_⟩
  unfold fromProfile
  simp only [hindex', bind, Except.bind, List.getElem?_eq_getElem hlt]
  rfl

section Same

variable {F : Type} {floats : Floats F} {requested : Option String}
  (hindex : sampleIndexOf p requested = .ok sampleIndex)
include hindex

theorem exists_outcome (r : Arrangement p) {frameOrder : List (FrameIdentity × FrameStat)}
    (hframes : Enumerates frameOrder (r.aggregates sampleIndex).stats)
    {stackOrder : List (List FrameIdentity × StackStat)}
    (hstacks : Enumerates stackOrder (r.aggregates sampleIndex).stackStats) :
    ∃ report tree, Outcome p requested report tree ∧
      report.topFrames = rank compareFrames (frameOrder.map Prod.snd) ∧
      report.topStacks = rank compareStacks (stackOrder.map Prod.snd) := by
  obtain ⟨selected, -, hok⟩ := fromProfile_ok hindex r frameOrder stackOrder
  exact ⟨_, _, ⟨r, sampleIndex, frameOrder, stackOrder, hindex, hframes, hstacks, hok,
    Matches.refl (fun _ => rfl) _⟩, rfl, rfl⟩

variable (hfit : magnitudeSum (contributions p sampleIndex) < 2 ^ 63)
include hfit

theorem framesSettled_of_same (h : ∀ report tree report' tree', Outcome p requested report tree →
    Outcome p requested report' tree' → report.topFrames = report'.topFrames) :
    FramesSettled (contributions p sampleIndex) := by
  rw [← frames_rank_eq_iff hfit]
  intro r r' order order' horder horder'
  obtain ⟨stackOrder, hstacks⟩ := Enumerates.exists_order (r.aggregates sampleIndex).stackStats
  obtain ⟨stackOrder', hstacks'⟩ := Enumerates.exists_order (r'.aggregates sampleIndex).stackStats
  obtain ⟨report, tree, hout, htop, -⟩ := exists_outcome hindex r horder hstacks
  obtain ⟨report', tree', hout', htop', -⟩ := exists_outcome hindex r' horder' hstacks'
  rw [← htop, ← htop']
  exact h report tree report' tree' hout hout'

theorem stacksSettled_of_same (h : ∀ report tree report' tree', Outcome p requested report tree →
    Outcome p requested report' tree' → report.topStacks = report'.topStacks) :
    StacksSettled (contributions p sampleIndex) := by
  rw [← stacks_rank_eq_iff hfit]
  intro r r' order order' horder horder'
  obtain ⟨frameOrder, hframes⟩ := Enumerates.exists_order (r.aggregates sampleIndex).stats
  obtain ⟨frameOrder', hframes'⟩ := Enumerates.exists_order (r'.aggregates sampleIndex).stats
  obtain ⟨report, tree, hout, -, htop⟩ := exists_outcome hindex r hframes horder
  obtain ⟨report', tree', hout', -, htop'⟩ := exists_outcome hindex r' hframes' horder'
  rw [← htop, ← htop']
  exact h report tree report' tree' hout hout'

theorem report_eq_of_settled (hframes : FramesSettled (contributions p sampleIndex))
    (hstacks : StacksSettled (contributions p sampleIndex)) {report report' : ProfileReport}
    {tree tree' : CallTree} (h : Outcome p requested report tree)
    (h' : Outcome p requested report' tree') : report = report' ∧
      report.topStacks = rank compareStacks (stackRows (contributions p sampleIndex)) := by
  obtain ⟨r, index, frameOrder, stackOrder, hi, hf, hs, hok, -⟩ := h
  obtain ⟨r', index', frameOrder', stackOrder', hi', hf', hs', hok', -⟩ := h'
  obtain rfl : index = sampleIndex := Except.ok.inj (hi.symm.trans hindex)
  obtain rfl : index' = index := Except.ok.inj (hi'.symm.trans hindex)
  obtain ⟨selected, hselected, hreport⟩ := fromProfile_ok hindex r frameOrder stackOrder
  obtain ⟨selected', hselected', hreport'⟩ := fromProfile_ok hindex r' frameOrder' stackOrder'
  obtain rfl : selected = selected' := Option.some.inj (hselected.symm.trans hselected')
  obtain ⟨rowOrder, hrows, hrowsEq⟩ := stackRows_enumerated hfit
  have htotal : (r.aggregates index').totalValue = (r'.aggregates index').totalValue := by
    rw [← Int64.toInt_inj, (r.tallied hfit).totalValue, (r'.tallied hfit).totalValue,
      magnitudeSum_perm (contributions_perm r.2), magnitudeSum_perm (contributions_perm r'.2)]
  have hlength : r.1.length = r'.1.length := r.2.length_eq.trans r'.2.length_eq.symm
  have htopFrames := (frames_rank_eq_iff hfit).mpr hframes r r' _ _ hf hf'
  have htopStacks := (stacks_rank_eq_iff hfit).mpr hstacks r r' _ _ hs hs'
  have hlisted := (stacks_rank_eq_iff hfit).mpr hstacks r _ _ _ hs hrows
  rw [hrowsEq] at hlisted
  rw [hok, Except.ok.injEq] at hreport
  rw [hok', Except.ok.injEq] at hreport'
  rw [hreport, hreport', htotal, hlength, htopFrames, htopStacks]
  exact ⟨rfl, htopStacks.symm.trans hlisted⟩

/-- Where rows and siblings that tie show the same, so do the reports on the
samples in every order; and rows show the same in every order only there. -/
theorem sameReport_of_settled :
    (FramesSettled (contributions p sampleIndex) ∧ StacksSettled (contributions p sampleIndex) ∧
        TreeSettled (contributions p sampleIndex) → SameReport floats p requested) ∧
      (SameReport floats p requested →
        FramesSettled (contributions p sampleIndex) ∧
          StacksSettled (contributions p sampleIndex)) := by
  constructor
  · rintro ⟨hframes, hstacks, htree⟩ report tree report' tree' hout hout'
    obtain ⟨rfl, hrows⟩ := report_eq_of_settled hindex hfit hframes hstacks hout hout'
    refine ⟨rfl, rfl, ?_⟩
    intro options
    obtain ⟨-, -, -, -, -, -, -, -, hreordered⟩ := hout
    obtain ⟨-, -, -, -, -, -, -, -, hreordered'⟩ := hout'
    rw [hrows] at hreordered hreordered'
    rw [← renderTree_of_reordered floats report options htree hreordered,
      ← renderTree_of_reordered floats report options htree hreordered']
  · intro h
    constructor
    · apply framesSettled_of_same hindex hfit
      exact fun report tree report' tree' hout hout' => (h _ _ _ _ hout hout').1
    · apply stacksSettled_of_same hindex hfit
      exact fun report tree report' tree' hout hout' => (h _ _ _ _ hout hout').2.1

end Same

theorem resolveStack_lookup (h : UniqueIds p) (s : Sample) :
    resolveStack p (indexBy Location.id p.locations) (indexBy Function.id p.functions) s =
      s.locationIds.reverse.flatMap fun id =>
        match NumberedTable.lookup Location.id p.locations id with
        | none => []
        | some l =>
          if l.lines = [] then [⟨.address l.address, hexAddress l.address, "", 0⟩]
          else l.lines.reverse.filterMap fun line =>
            (NumberedTable.lookup Function.id p.functions line.functionId).map fun f =>
              ⟨.function f.id, profileString p f.name, profileString p f.filename, line.line⟩ := by
  unfold resolveStack
  apply List.flatMap_congr
  intro id _
  have hfind : (indexBy Location.id p.locations)[id]? =
      NumberedTable.lookup Location.id p.locations id :=
    Heap.indexBy_getElem? Location.id p.locations h.locations id
  unfold resolveLocation
  rw [hfind]
  cases NumberedTable.lookup Location.id p.locations id with
  | none => rfl
  | some l =>
    dsimp only
    split_ifs
    · rfl
    · apply List.filterMap_congr
      intro line _
      exact resolveLine_eq h line

def sameName : PprofProfile :=
  { PprofProfile.withStrings (.ofStrings ["", "cpu", "count", "run", "a.rs", "b.rs", "main"]) with
    valueTypes := [⟨1, 2⟩]
    functions := [⟨1, 3, 3, 4, 0⟩, ⟨2, 3, 3, 5, 0⟩, ⟨3, 6, 6, 4, 0⟩]
    locations := [⟨1, 0, 0, [⟨1, 10, 0⟩], false⟩, ⟨2, 0, 0, [⟨2, 20, 0⟩], false⟩,
      ⟨3, 0, 0, [⟨3, 30, 0⟩], false⟩]
    samples := [⟨[1], [1], []⟩, ⟨[2], [1], []⟩] }

def nested : PprofProfile :=
  { sameName with samples := [⟨[1, 3], [5], []⟩, ⟨[3], [3], []⟩] }

theorem contributions_sameName : contributions sameName 0 =
    [([⟨.function 1, "run", "a.rs", 10⟩], 1), ([⟨.function 2, "run", "b.rs", 20⟩], 1)] := by
  unfold contributions
  simp only [resolveStack_lookup (p := sameName) ⟨by decide, by decide⟩]
  rfl

theorem contributions_nested : contributions nested 0 =
    [([⟨.function 3, "main", "a.rs", 30⟩, ⟨.function 1, "run", "a.rs", 10⟩], 5),
      ([⟨.function 3, "main", "a.rs", 30⟩], 3)] := by
  unfold contributions
  simp only [resolveStack_lookup (p := nested) ⟨by decide, by decide⟩]
  rfl

/-- Frames of two functions that tie are listed in the order of a hash map. -/
theorem sameName_frames_swapped : ∃ report tree report' tree',
    Outcome sameName none report tree ∧ Outcome sameName none report' tree' ∧
      magnitudeSum (contributions sameName 0) < 2 ^ 63 ∧ report.topFrames ≠ report'.topFrames := by
  have hindex : sampleIndexOf sameName none = .ok 0 := rfl
  have hfit : magnitudeSum (contributions sameName 0) < 2 ^ 63 := by
    rw [contributions_sameName]
    decide
  by_contra hnone
  have hsettled : FramesSettled (contributions sameName 0) := by
    apply framesSettled_of_same hindex hfit
    intro report tree report' tree' hout hout'
    by_contra hne
    exact hnone ⟨report, tree, report', tree', hout, hout', hfit, hne⟩
  rw [contributions_sameName] at hsettled
  have hfile := (hsettled (.function 1) (.function 2) _ List.mem_cons_self _
    (List.mem_cons_of_mem _ List.mem_cons_self) ⟨.function 1, "run", "a.rs", 10⟩
    ⟨.function 2, "run", "b.rs", 20⟩ rfl rfl rfl rfl rfl).1
  revert hfile
  decide

def hundredths : Floats ℕ where
  zero := 0
  hundredths a b := (a.toInt * 10000 / b.toInt).toNat
  quotient value divisor := (value.toInt * 100 / divisor).toNat
  le a b := a ≤ b
  lt a b := a < b
  fixed2 n := toString (n / 100) ++ "." ++ toString (n % 100 / 10) ++ toString (n % 10)

theorem nested_framesSettled : FramesSettled (contributions nested 0) := by
  rw [contributions_nested]
  intro id id' c hc c' hc' frame frame' hshown hshown'
  obtain ⟨hframe, rfl⟩ := shownFrame_spec hshown
  obtain ⟨hframe', rfl⟩ := shownFrame_spec hshown'
  clear hshown hshown'
  revert frame'
  revert frame
  revert c'
  revert c
  decide

theorem nested_stacksSettled : StacksSettled (contributions nested 0) := by
  rw [contributions_nested]
  unfold StacksSettled
  decide

theorem nested_treeSettled : TreeSettled (contributions nested 0) := by
  have hrows : stackRows (contributions nested 0) =
      [⟨[⟨"main", "a.rs", 30⟩, ⟨"run", "a.rs", 10⟩], 5⟩, ⟨[⟨"main", "a.rs", 30⟩], 3⟩] := by
    rw [contributions_nested]
    rfl
  unfold TreeSettled
  rw [hrows, rank, List.mergeSort_of_pairwise (by decide)]
  exact .of_child rfl (.of_child rfl (.of_leaf rfl))

theorem sameReport_of_settled_nested : SameReport hundredths nested none :=
  (sameReport_of_settled (show sampleIndexOf nested none = .ok 0 from rfl)
    (by rw [contributions_nested]; decide)).1
    ⟨nested_framesSettled, nested_stacksSettled, nested_treeSettled⟩

end PProfessor.Report
