import PProfessor.ViewModelSelection

set_option autoImplicit false

/-!
# What is displayed at rest

Until the last result is in, the display may lag behind the filters. At rest it matches them, if
the background results that came in last were computed with the parameters in force.
-/
namespace PProfessor.ViewModel
open Fallible Kit Pprof ProfileViewModel

variable {D : Type} {P : Platform D}

def DefaultsMatch (canon : String → String) (profile : DecodedProfile)
    (options : ConversionOptions) : Prop :=
  options.valueSign = .positive ∧ ∀ default chosen,
    selectedHeapOf canon profile { options with heapDomain := none } = .ok default →
    selectedHeapOf canon profile options = .ok chosen → ∀ sample ∈ profile.samples,
      passesHeap canon profile default sample = passesHeap canon profile chosen sample

theorem convertProfile_defaults {canon : String → String} {profile : DecodedProfile}
    {options : ConversionOptions} {result : ProfileConversionResult}
    (hmatch : DefaultsMatch canon profile options)
    (h : convertProfile canon profile
      { options with
        valueSign := .positive
        heapDomain := none } = .ok result) : convertProfile canon profile options = .ok result := by
  obtain ⟨index, thread, range, sign, heap⟩ := options
  obtain ⟨rfl, hheaps⟩ := hmatch
  obtain ⟨default, hdefault, h⟩ := bind_eq_ok.mp h
  obtain ⟨chosen, hchosen⟩ :
      ∃ chosen, selectedHeapOf canon profile ⟨index, thread, range, .positive, heap⟩ =
        .ok chosen := by
    cases heap with
    | none => exact ⟨default, hdefault⟩
    | some heap => exact ⟨some heap, rfl⟩
  have hsame := hheaps default chosen hdefault hchosen
  unfold convertProfile
  rw [hchosen, ok_bind, ← h]
  have hfold : profile.samples.foldlM (addConverted canon profile
        ⟨index, thread, range, .positive, heap⟩ chosen) rootNode =
      profile.samples.foldlM (addConverted canon profile
        ⟨index, thread, range, .positive, none⟩ default) rootNode := by
    refine foldlM_congr (fun sample hsample root => ?_) _
    have hpasses : passes canon profile ⟨index, thread, range, .positive, heap⟩ chosen sample =
        passes canon profile ⟨index, thread, range, .positive, none⟩ default sample := by
      unfold passes
      rw [hsame sample hsample]
      rfl
    unfold addConverted
    rw [hpasses]
    rfl
  rw [hfold]

def Valid (s : ProfileViewModel D) (task : LivePresentation) : Prop :=
  task.isCancelled = false ∧ s.livePresentationGeneration = task.generation

def PresentationDue (s : ProfileViewModel D) : Prop :=
  s.pendingLivePresentation.isSome ∨ ∃ task, s.livePresentationTask = some task ∧ Valid s task

def ConversionDue (s : ProfileViewModel D) : Prop :=
  s.rangeThrottleTask = true ∨
    ∃ task, s.rangeConversionTask = some task ∧ s.recomputeGeneration = task.generation

/-- No conversion or presentation is running or pending. -/
def Idle (s : ProfileViewModel D) : Prop :=
  s.pendingLivePresentation = none ∧ s.livePresentationTask = none ∧
    s.rangeThrottleTask = false ∧ s.rangeConversionTask = none

/-- A result that is applied when no other is due was computed with what is in force: a range
conversion with the loaded profile, the value type, the thread and the range, and either kind of
result with defaults that match the sign and the heap. -/
def AppliesMatching (P : Platform D) (s : ProfileViewModel D) : Event → Prop
  | .presented => ∀ task profile, s.livePresentationTask = some task →
      s.shouldApply task = true → s.decodedProfile = some profile → ¬ ConversionDue s →
      DefaultsMatch P.canon profile s.options
  | .rangeConverted => ∀ task profile, s.rangeConversionTask = some task →
      s.recomputeGeneration = task.generation → s.decodedProfile = some profile →
      s.rangeThrottleTask = false → ¬ PresentationDue s →
      task.profile = profile ∧ task.valueTypeIndex = s.selectedValueTypeIndex ∧
        task.threadFilter = s.selectedThread ∧ task.timeRange = s.options.timeRangeNanos ∧
        DefaultsMatch P.canon profile s.options
  | _ => True

theorem shouldApply_iff {s : ProfileViewModel D} {task : LivePresentation} :
    s.shouldApply task = true ↔ Valid s task ∧ s.pendingLivePresentation = none := by
  unfold shouldApply Valid
  rw [Bool.and_eq_true, Bool.and_eq_true, Bool.not_eq_true', decide_eq_true_iff,
    Option.isNone_iff_eq_none]

/-- What holds of the tasks whatever is displayed. -/
structure Tasks (s : ProfileViewModel D) : Prop where
  presentation : ∀ task, s.livePresentationTask = some task →
    task.generation ≤ s.livePresentationGeneration
  conversion : ∀ task, s.rangeConversionTask = some task →
    task.generation ≤ s.recomputeGeneration ∧
      (task.generation ≠ s.recomputeGeneration → s.rangeThrottleTask = true)

/-- Between two events: the presentation is of what is loaded and selected, and the display
matches the filters or a result is due. -/
structure Inv (P : Platform D) (s : ProfileViewModel D) : Prop extends Tasks s where
  pending : ∀ request, s.pendingLivePresentation = some request →
    s.decodedProfile = some request.profile
  current : ∀ task, s.livePresentationTask = some task → Valid s task →
    s.decodedProfile = some task.request.profile ∧
      task.valueTypeIndex = s.selectedValueTypeIndex ∧ task.threadFilter = s.selectedThread
  display : ∀ profile, s.decodedProfile = some profile →
    PresentationDue s ∨ ConversionDue s ∨ s.Displays P profile

namespace Tasks

variable {s t : ProfileViewModel D} {profile : DecodedProfile}

theorem refreshed (h : Tasks s) (hs : Refreshed P profile s t) : Tasks t := by
  refine ⟨fun task htask => ?_, fun task htask => ?_⟩
  · have hgeneration := hs.task
    rw [htask] at hgeneration
    obtain ⟨before, hbefore, heq⟩ := Option.map_eq_some_iff.mp hgeneration.symm
    rw [← heq]
    exact Nat.le_trans (h.presentation before hbefore) hs.generation
  · rw [hs.conversion] at htask
    rw [hs.recompute, hs.throttle]
    exact h.conversion task htask

theorem not_valid (h : Tasks s) (hs : Refreshed P profile s t)
    (hnewer : s.livePresentationGeneration < t.livePresentationGeneration) {task : LivePresentation}
    (htask : t.livePresentationTask = some task) : ¬ Valid t task := by
  rintro ⟨-, hvalid⟩
  have hgeneration := hs.task
  rw [htask] at hgeneration
  obtain ⟨before, hbefore, heq⟩ := Option.map_eq_some_iff.mp hgeneration.symm
  have hle := h.presentation before hbefore
  omega

end Tasks

namespace Inv

variable {s t u : ProfileViewModel D} {profile : DecodedProfile}

theorem initial : Inv P (ProfileViewModel.initial : ProfileViewModel D) := by
  refine ⟨⟨fun _ h => ?_, fun _ h => ?_⟩, fun _ h => ?_, fun _ h => ?_, fun _ h => ?_⟩
  all_goals cases h

theorem of_displays (htasks : Tasks t) (hpending : t.pendingLivePresentation = none)
    (hvalid : ∀ task, t.livePresentationTask = some task → ¬ Valid t task)
    (hprofile : t.decodedProfile = some profile) (hdisplays : t.Displays P profile) : Inv P t := by
  refine ⟨htasks, ?_, fun task htask h => absurd h (hvalid task htask), ?_⟩
  · rw [hpending]
    exact nofun
  · intro profile' h
    cases hprofile.symm.trans h
    exact .inr (.inr hdisplays)

theorem observed (h : Tasks s) (hprofile : s.decodedProfile = some profile)
    (hs : Observed P profile s t) : Inv P t :=
  of_displays (h.refreshed hs.toRefreshed) hs.pending
    (fun _ htask => h.not_valid hs.toRefreshed hs.newer htask)
    (hs.decodedProfile.trans hprofile) hs.displays

theorem startNext (htasks : Tasks s) (hpending : ∀ request,
      s.pendingLivePresentation = some request → s.decodedProfile = some request.profile)
    (hvalid : ∀ task, s.livePresentationTask = some task → ¬ Valid s task)
    (hdisplay : s.pendingLivePresentation = none → ∀ profile,
      s.decodedProfile = some profile → ConversionDue s ∨ s.Displays P profile) :
    Inv P s.startNextLivePresentationIfNeeded := by
  unfold startNextLivePresentationIfNeeded
  cases htask : s.livePresentationTask with
  | some task =>
    refine ⟨htasks, hpending, fun task htask h => absurd h (hvalid task htask), ?_⟩
    intro profile hprofile
    cases hrequest : s.pendingLivePresentation with
    | some request => exact .inl (.inl (by rw [hrequest]; rfl))
    | none => exact .inr (hdisplay hrequest profile hprofile)
  | none =>
    cases hrequest : s.pendingLivePresentation with
    | none =>
      refine ⟨htasks, hpending, fun task htask h => absurd h (hvalid task htask), ?_⟩
      exact fun profile hprofile => .inr (hdisplay hrequest profile hprofile)
    | some request =>
      refine ⟨⟨fun task h => ?_, htasks.conversion⟩, nofun, fun task h _ => ?_, fun _ _ => ?_⟩
      · cases h
        exact Nat.le_refl _
      · cases h
        exact ⟨hpending request hrequest, rfl, rfl⟩
      · exact .inl (.inr ⟨_, rfl, rfl, rfl⟩)

theorem enqueue (h : Tasks s) (hprofile : s.decodedProfile = some profile)
    (resetSelection : Bool) : Inv P (s.enqueueLivePresentation profile resetSelection) := by
  refine startNext ⟨fun task htask => ?_, h.conversion⟩ ?_ (fun task htask hvalid => ?_) nofun
  · exact Nat.le_succ_of_le (h.presentation task htask)
  · rintro request hrequest
    cases hrequest
    exact hprofile
  · have hle := h.presentation task htask
    have heq : s.livePresentationGeneration + 1 = task.generation := hvalid.2
    omega

theorem loadDecodedProfile {resetTimelineSelection : Bool} (h : Tasks s)
    (ht : s.loadDecodedProfile P profile resetTimelineSelection = .ok t) : Inv P t := by
  have hloading : Tasks (s.loading profile) := ⟨h.presentation, h.conversion⟩
  obtain ⟨u, hu, ⟨-, hheap⟩ | ⟨-, rfl⟩⟩ := loadDecodedProfile_eq_ok ht
  · have hinvalid := hu.trans (invalidate_refreshed profile u)
    have hlater : (s.loading profile).livePresentationGeneration <
        u.invalidateLivePresentation.livePresentationGeneration :=
      Nat.lt_succ_of_le hu.generation
    have hdisplays := recompute_displays hheap
    obtain ⟨result, -, rfl⟩ := recompute_eq_ok hheap
    have htasks := hloading.refreshed hinvalid
    exact of_displays ⟨htasks.presentation, htasks.conversion⟩ rfl
      (fun _ htask => hloading.not_valid hinvalid hlater htask) hu.decodedProfile hdisplays
  · exact enqueue (hloading.refreshed hu) hu.decodedProfile resetTimelineSelection

theorem showFile {url : String} (h : Tasks s) (ht : s.showFile P url profile = .ok t) :
    Inv P t := by
  have hloading : Tasks { s with decodedProfile := some profile } := ⟨h.presentation, h.conversion⟩
  obtain ⟨u, v, w, hu, hv, hrebuilt, hshown⟩ := showFile_eq_ok ht
  have hdisplays := recompute_displays hshown
  obtain ⟨timeline, -, rfl⟩ := rebuildTimeline_eq_ok hrebuilt
  obtain ⟨result, -, rfl⟩ := recompute_eq_ok hshown
  have hbefore := hloading.refreshed hu
  have htasks := hbefore.refreshed hv.toRefreshed
  exact of_displays ⟨htasks.presentation, htasks.conversion⟩ hv.pending
    (fun _ htask => hbefore.not_valid hv.toRefreshed hv.newer htask)
    (hv.decodedProfile.trans hu.decodedProfile) hdisplays

theorem due (h : Inv P s) (hprofile : t.decodedProfile = s.decodedProfile)
    (hlive : t.pendingLivePresentation = s.pendingLivePresentation ∧
      t.livePresentationTask = s.livePresentationTask ∧
      t.livePresentationGeneration = s.livePresentationGeneration)
    (hfilters : t.selectedValueTypeIndex = s.selectedValueTypeIndex ∧
      t.selectedThread = s.selectedThread)
    (hconversion : ∀ task, t.rangeConversionTask = some task →
      task.generation ≤ t.recomputeGeneration ∧
        (task.generation ≠ t.recomputeGeneration → t.rangeThrottleTask = true))
    (hdue : ConversionDue t) : Inv P t := by
  obtain ⟨hpending, htask, hgeneration⟩ := hlive
  refine ⟨⟨?_, hconversion⟩, ?_, ?_, fun _ _ => .inr (.inl hdue)⟩
  · rw [htask, hgeneration]
    exact h.presentation
  · rw [hpending, hprofile]
    exact h.pending
  · unfold Valid
    rw [htask, hgeneration, hprofile, hfilters.1, hfilters.2]
    exact h.current

theorem scheduleRecompute (h : Inv P s) (selection : TimelineSelectionState)
    (profile : DecodedProfile) (delayNanos : ℕ) :
    Inv P (ProfileViewModel.scheduleRecompute { s with timelineSelection := some selection } profile
      delayNanos) := by
  unfold ProfileViewModel.scheduleRecompute
  dsimp only
  split_ifs
  · refine h.due rfl ⟨rfl, rfl, rfl⟩ ⟨rfl, rfl⟩ (fun task htask => ?_) (.inr ⟨_, rfl, rfl⟩)
    cases htask
    exact ⟨Nat.le_refl _, fun hne => absurd rfl hne⟩
  · refine h.due rfl ⟨rfl, rfl, rfl⟩ ⟨rfl, rfl⟩ (fun task htask => ?_) (.inl rfl)
    exact ⟨Nat.le_succ_of_le (h.conversion task htask).1, fun _ => rfl⟩

theorem selectTimeRange {range : ClosedRange} {isDragging : Bool} (h : Inv P s)
    (ht : s.selectTimeRange range isDragging = some t) : Inv P t := by
  unfold ProfileViewModel.selectTimeRange at ht
  split at ht
  · obtain ⟨selection, -, ht⟩ := Option.bind_eq_some_iff.mp ht
    cases ht
    exact h.scheduleRecompute selection _ _
  · cases ht
    exact h

theorem resetTimeRange (h : Inv P s) : Inv P s.resetTimeRange := by
  unfold ProfileViewModel.resetTimeRange
  split
  · exact h.scheduleRecompute _ _ 0
  · exact h

theorem throttleElapsed (h : Inv P s) : Inv P s.throttleElapsed := by
  unfold ProfileViewModel.throttleElapsed
  cases s.pendingRangeProfile with
  | none => exact h
  | some latestProfile =>
    refine h.due rfl ⟨rfl, rfl, rfl⟩ ⟨rfl, rfl⟩ (fun task htask => ?_) (.inr ⟨_, rfl, rfl⟩)
    cases htask
    exact ⟨Nat.le_refl _, fun hne => absurd rfl hne⟩

theorem rangeConverted {task : RangeConversion} {result : ProfileConversionResult} (h : Inv P s)
    (htask : s.rangeConversionTask = some task)
    (hresult : convertProfile P.canon task.profile task.options = .ok result)
    (hmatching : AppliesMatching P s .rangeConverted) : Inv P (s.rangeConverted task result) := by
  unfold ProfileViewModel.rangeConverted
  dsimp only
  split_ifs with hgeneration
  · refine ⟨⟨h.presentation, fun _ h => of_none h⟩, h.pending, h.current,
      fun profile hprofile => ?_⟩
    by_cases hthrottle : s.rangeThrottleTask = true
    · exact .inr (.inl (.inl hthrottle))
    · by_cases hdue : PresentationDue s
      · exact .inl hdue
      · obtain ⟨rfl, hindex, hthread, hrange, hdefaults⟩ := hmatching task profile htask
          hgeneration hprofile (Bool.eq_false_iff.mpr hthrottle) hdue
        have hoptions : task.options = { s.options with
            valueSign := .positive
            heapDomain := none } := by
          unfold RangeConversion.options
          rw [hindex, hthread, hrange]
          rfl
        rw [hoptions] at hresult
        exact .inr (.inr ⟨result, convertProfile_defaults hdefaults hresult, rfl, rfl, rfl, rfl⟩)
  · have hthrottle := (h.conversion task htask).2 fun heq => hgeneration heq.symm
    exact ⟨⟨h.presentation, fun _ h => of_none h⟩, h.pending, h.current,
      fun _ _ => .inr (.inl (.inl hthrottle))⟩

theorem presented {task : LivePresentation} {presentation : ProfilePresentation D} (h : Inv P s)
    (htask : s.livePresentationTask = some task)
    (hpresentation : task.presentation P = .ok presentation)
    (hmatching : AppliesMatching P s .presented) : Inv P (s.presented task presentation) := by
  by_cases happly : s.shouldApply task = true
  · obtain ⟨hvalid, hpending⟩ := shouldApply_iff.mp happly
    rw [presented_of_applies presentation happly]
    refine startNext ⟨fun _ h => of_none h, h.conversion⟩ h.pending (fun _ h => of_none h)
      fun _ profile hprofile => ?_
    by_cases hdue : ConversionDue s
    · exact .inl hdue
    · have hdefaults := hmatching task profile htask happly hprofile hdue
      obtain ⟨hcurrent, hindex, hthread⟩ := h.current task htask hvalid
      cases hcurrent.symm.trans hprofile
      obtain ⟨timeline, -, hpresentation⟩ := bind_eq_ok.mp hpresentation
      obtain ⟨conversion, hconversion, hpresentation⟩ := bind_eq_ok.mp hpresentation
      cases hpresentation
      rw [hindex, hthread] at hconversion
      refine .inr ⟨conversion, convertProfile_defaults ?_ hconversion, rfl, rfl, rfl, rfl⟩
      exact hdefaults
  · rw [presented_of_dropped presentation happly]
    refine startNext ⟨fun _ h => of_none h, h.conversion⟩ h.pending (fun _ h => of_none h)
      fun hpending profile hprofile => ?_
    rcases h.display profile hprofile with hdue | hdisplay
    · rcases hdue with hsome | ⟨task', htask', hvalid⟩
      · rw [hpending] at hsome
        cases hsome
      · cases htask.symm.trans htask'
        exact absurd (shouldApply_iff.mpr ⟨hvalid, hpending⟩) happly
    · exact hdisplay

theorem unloaded (h : Inv P s) (hprofile : s.decodedProfile = none)
    (ht : t.decodedProfile = s.decodedProfile ∧
      t.pendingLivePresentation = s.pendingLivePresentation ∧
      t.livePresentationTask = s.livePresentationTask ∧
      t.livePresentationGeneration = s.livePresentationGeneration ∧
      t.rangeConversionTask = s.rangeConversionTask ∧
      t.recomputeGeneration = s.recomputeGeneration ∧
      t.rangeThrottleTask = s.rangeThrottleTask) : Inv P t := by
  obtain ⟨hdecoded, hpending, htask, hgeneration, hconversion, hrecompute, hthrottle⟩ := ht
  refine ⟨⟨?_, ?_⟩, ?_, ?_, ?_⟩
  · rw [htask, hgeneration]
    exact h.presentation
  · rw [hconversion, hrecompute, hthrottle]
    exact h.conversion
  · rw [hpending, hdecoded]
    exact h.pending
  · intro task hvalid
    unfold Valid
    rw [hgeneration]
    intro hcurrent
    rw [htask] at hvalid
    exact absurd ((h.current task hvalid hcurrent).1.symm.trans hprofile) nofun
  · intro profile hsome
    rw [hdecoded, hprofile] at hsome
    cases hsome

/-- One step. -/
theorem step {e : Event} (h : Inv P s) (hstep : Step P s e t) (hmatching : AppliesMatching P s e) :
    Inv P t := by
  cases hstep with
  | loadDecodedProfile ht => exact loadDecodedProfile h.toTasks ht
  | loadFile url =>
    have hinvalid := invalidate_refreshed (P := P) .new s
    have htasks := h.toTasks.refreshed hinvalid
    exact ⟨⟨htasks.presentation, htasks.conversion⟩, nofun, fun task htask hvalid =>
      absurd hvalid (h.toTasks.not_valid hinvalid (Nat.lt_succ_self _) htask), nofun⟩
  | @fileLoaded url file t hurl ht =>
    cases file with
    | error message =>
      cases ht
      exact ⟨⟨h.presentation, h.conversion⟩, h.pending, h.current, h.display⟩
    | ok profile =>
      obtain ⟨u, hu, ht⟩ := bind_eq_ok.mp ht
      cases ht
      have hshown := showFile (s := { s with fileLoads := s.fileLoads.erase url })
        ⟨h.presentation, h.conversion⟩ hu
      exact ⟨⟨hshown.presentation, hshown.conversion⟩, hshown.pending, hshown.current,
        hshown.display⟩
  | @setSelectedHeap heap t ht =>
    cases hprofile : s.decodedProfile with
    | some profile => exact observed h.toTasks hprofile (setSelectedHeap_observed hprofile ht)
    | none =>
      cases (refilter_unloaded (s := { s with selectedHeap := heap }) hprofile).symm.trans ht
      exact h.unloaded hprofile ⟨rfl, rfl, rfl, rfl, rfl, rfl, rfl⟩
  | @setValueSign sign t ht =>
    cases hprofile : s.decodedProfile with
    | some profile => exact observed h.toTasks hprofile (setValueSign_observed hprofile ht)
    | none =>
      cases (refilter_unloaded (s := { s with valueSign := sign }) hprofile).symm.trans ht
      exact h.unloaded hprofile ⟨rfl, rfl, rfl, rfl, rfl, rfl, rfl⟩
  | @setSelectedValueTypeIndex index t ht =>
    cases hprofile : s.decodedProfile with
    | some profile =>
      exact observed h.toTasks hprofile (setSelectedValueTypeIndex_observed hprofile ht)
    | none =>
      cases (reselect_unloaded (s := { s with selectedValueTypeIndex := index })
        hprofile).symm.trans ht
      exact h.unloaded hprofile ⟨rfl, rfl, rfl, rfl, rfl, rfl, rfl⟩
  | @setSelectedThread thread t ht =>
    cases hprofile : s.decodedProfile with
    | some profile => exact observed h.toTasks hprofile (setSelectedThread_observed hprofile ht)
    | none =>
      cases (reselect_unloaded (s := { s with selectedThread := thread }) hprofile).symm.trans ht
      exact h.unloaded hprofile ⟨rfl, rfl, rfl, rfl, rfl, rfl, rfl⟩
  | setZoomedNodeId node =>
    exact ⟨⟨h.presentation, h.conversion⟩, h.pending, h.current, h.display⟩
  | selectTimeRange ht => exact h.selectTimeRange ht
  | resetTimeRange => exact h.resetTimeRange
  | throttleElapsed hthrottle => exact h.throttleElapsed
  | rangeConverted htask ht => exact h.rangeConverted htask ht hmatching
  | presented htask ht => exact h.presented htask ht hmatching

theorem run {passed : List (ProfileViewModel D)} (h : Inv P s)
    (hrun : Run P (AppliesMatching P) s passed t) : Inv P t := by
  induction hrun with
  | nil => exact h
  | snoc _ hstep hmatching ih => exact ih.step hstep hmatching

end Inv

theorem Idle.not_due {s : ProfileViewModel D} (h : Idle s) :
    ¬ PresentationDue s ∧ ¬ ConversionDue s := by
  obtain ⟨hpending, htask, hthrottle, hconversion⟩ := h
  unfold PresentationDue ConversionDue
  rw [hpending, htask, hthrottle, hconversion]
  constructor
  · rintro (h | ⟨task, h, -⟩) <;> cases h
  · rintro (h | ⟨task, h, -⟩) <;> cases h

/-- In every run whose applied background results match what is in force, the display matches the
filters whenever nothing is running or pending and a profile is loaded. -/
theorem idle_displays {passed : List (ProfileViewModel D)} {t : ProfileViewModel D}
    {profile : DecodedProfile} (hrun : Run P (AppliesMatching P) ProfileViewModel.initial passed t)
    (hidle : Idle t) (hprofile : t.decodedProfile = some profile) : t.Displays P profile := by
  obtain ⟨hpresentation, hconversion⟩ := hidle.not_due
  rcases (Inv.initial.run hrun).display profile hprofile with hdue | hdue | hdisplays
  · exact absurd hdue hpresentation
  · exact absurd hdue hconversion
  · exact hdisplays

/-- The first profile, presented. -/
theorem idle_displays_settled : settled.Displays plain timed := by
  have hmatching : AppliesMatching plain loaded .presented := by
    rintro task profile - - hprofile -
    cases hprofile
    refine ⟨rfl, fun default chosen hdefault hchosen sample hsample => ?_⟩
    rw [selectedHeapOf_timed _ rfl] at hdefault hchosen
    cases hdefault
    cases hchosen
    rfl
  exact idle_displays ((Run.nil.snoc load_step trivial).snoc settle_step hmatching)
    ⟨rfl, rfl, rfl, rfl⟩ rfl

def hidden : ProfileConversionResult where
  nodes := breadthFirst [rootNode]
  nodeIndex := indexNodes id (breadthFirst [rootNode])
  rootNodeId := none
  totalValue := 0
  valueTypeNames := [("", "")]
  availableThreads := sortedSet id []

theorem convert_hidden :
    convertProfile plain.canon timed ⟨0, some "main", some (2, 6), .positive, none⟩ =
      .ok hidden := by
  unfold convertProfile
  rw [selectedHeapOf_timed _ rfl]
  rfl

def hiddenTimeline : ProfileTimeline ℚ where
  durationNanos := 10
  buckets := ((ProfileTimeline.fillBuckets plain timed 0 (some "main") 512
    [(timedSample, 5)] 10).toOption).getD []

theorem build_hidden :
    ProfileTimeline.build plain timed 0 (some "main") 512 = .ok (some hiddenTimeline) := rfl

def threaded : ProfileViewModel ℚ :=
  { (selectMiddle settled).invalidateLivePresentation.apply hidden with
    selectedThread := some "main"
    timeline := some hiddenTimeline }

theorem thread_step :
    Step plain (selectMiddle settled) (.setSelectedThread (some "main")) threaded := by
  have hmiddle : updatedSelection (some hiddenTimeline) (some ⟨middle, false⟩) false =
    some ⟨middle, false⟩ := rfl
  have hbounds : (⟨middle, false⟩ : TimelineSelectionState).bounds = (2, 6) := rfl
  apply Step.setSelectedThread
  simp [setSelectedThread, ProfileViewModel.reselect, rebuildTimeline, recompute,
    invalidateLivePresentation, apply, options, build_hidden, convert_hidden, hmiddle, hbounds,
    bind, Except.bind, pure, Except.pure, selectMiddle, settled, loaded, ProfileViewModel.initial,
    threaded]

/-- The conversion of the middle completes after the thread was chosen, and shows every thread. -/
theorem stale_conversion_displayed : ∃ passed t, Run plain (fun _ _ => True) initial passed t ∧
    Idle t ∧ t.decodedProfile = some timed ∧ ¬ t.Displays plain timed := by
  have hconverted : Step plain threaded .rangeConverted _ :=
    .rangeConverted rfl convert_timed.2.2
  refine ⟨_, _, ((((Run.nil.snoc load_step trivial).snoc settle_step trivial).snoc
    (middle_step rfl) trivial).snoc thread_step trivial).snoc hconverted trivial,
    ⟨rfl, rfl, rfl, rfl⟩, rfl, ?_⟩
  rintro ⟨result, hresult, -, -, -, htotal⟩
  cases hresult.symm.trans convert_hidden
  cases htotal

end PProfessor.ViewModel
