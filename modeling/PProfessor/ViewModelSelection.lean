import PProfessor.ViewModelChanges

set_option autoImplicit false

/-!
# The selected time range

A live update never takes the selection away by itself: a rebuilt timeline clamps it. What can is
a presentation that captured another selection when it started.
-/
namespace PProfessor.ViewModel
open Fallible Kit Pprof ProfileViewModel

variable {D : Type} {P : Platform D}

/-- The range is selected and does not follow the live profile. -/
def Selected (range : ClosedRange) (s : ProfileViewModel D) : Prop :=
  s.timelineSelection = some ⟨range, false⟩

def durationNanos (s : ProfileViewModel D) : Option Int64 :=
  s.timeline.map ProfileTimeline.durationNanos

/-- Not another selection, and not another profile. -/
def Event.KeepsSelection : Event → Prop
  | .selectTimeRange .. | .resetTimeRange => False
  | .loadDecodedProfile _ resetTimelineSelection => resetTimelineSelection = false
  | .fileLoaded _ (.ok _) => False
  | _ => True

/-- A presentation that is about to be applied captured the selection in force. -/
def AppliesCurrent (s : ProfileViewModel D) (e : Event) : Prop :=
  e = .presented → ∀ task, s.livePresentationTask = some task → s.shouldApply task = true →
    task.selection = s.timelineSelection ∧ task.request.resetSelection = false

theorem updatedSelection_fixed (timeline : ProfileTimeline D) (range : ClosedRange) :
    updatedSelection (some timeline) (some ⟨range, false⟩) false =
      some ⟨range.clamp timeline.durationNanos, false⟩ :=
  congrArg some (TimelineSelectionState.updateDuration_fixed range timeline.durationNanos)

namespace Selected

variable {range : ClosedRange} {s t : ProfileViewModel D}

/-- The selection after a step: as it was, or clamped to the timeline shown now. -/
def After (range : ClosedRange) (t : ProfileViewModel D) : Prop :=
  Selected range t ∨
    ∃ duration, durationNanos t = some duration ∧ Selected (range.clamp duration) t

theorem refreshed {profile : DecodedProfile} (h : Selected range s)
    (hs : Refreshed P profile s t) (htimeline : t.timeline.isSome) : After range t := by
  rcases hs.timeline with ⟨-, hselection⟩ | ⟨index, thread, -, hselection⟩
  · exact .inl (hselection.trans h)
  · obtain ⟨timeline, ht⟩ := Option.isSome_iff_exists.mp htimeline
    refine .inr ⟨timeline.durationNanos, by rw [durationNanos, ht]; rfl, ?_⟩
    rw [Selected, hselection, ht, h, updatedSelection_fixed]

theorem startNext_timeline (s : ProfileViewModel D) :
    s.startNextLivePresentationIfNeeded.timeline = s.timeline ∧
      s.startNextLivePresentationIfNeeded.timelineSelection = s.timelineSelection := by
  unfold startNextLivePresentationIfNeeded
  split <;> exact ⟨rfl, rfl⟩

theorem of_timeline (h : After range s) (htimeline : t.timeline = s.timeline)
    (hselection : t.timelineSelection = s.timelineSelection) : After range t := by
  rcases h with h | ⟨duration, hduration, h⟩
  · exact .inl (hselection.trans h)
  · exact .inr ⟨duration, (congrArg _ htimeline).trans hduration, hselection.trans h⟩

theorem loadDecodedProfile {profile : DecodedProfile} (h : Selected range s)
    (ht : s.loadDecodedProfile P profile false = .ok t) (htimeline : t.timeline.isSome) :
    After range t := by
  obtain ⟨u, hu, ⟨-, hheap⟩ | ⟨-, rfl⟩⟩ := loadDecodedProfile_eq_ok ht
  · obtain ⟨result, -, rfl⟩ := recompute_eq_ok hheap
    cases htimeline
  · obtain ⟨hkept, hselection⟩ := startNext_timeline
      { u with
        livePresentationGeneration := u.livePresentationGeneration + 1
        pendingLivePresentation := some ⟨profile, false⟩ }
    have hloading : Selected range (s.loading profile) := h
    exact of_timeline (hloading.refreshed hu (hkept ▸ htimeline)) hkept hselection

theorem presented {task : LivePresentation} {presentation : ProfilePresentation D}
    (h : Selected range s) (hpresentation : task.presentation P = .ok presentation)
    (hcurrent : s.shouldApply task = true →
      task.selection = s.timelineSelection ∧ task.request.resetSelection = false)
    (htimeline : (s.presented task presentation).timeline.isSome) :
    After range (s.presented task presentation) := by
  unfold ProfileViewModel.presented at htimeline ⊢
  dsimp only at htimeline ⊢
  split_ifs at htimeline ⊢ with happly
  · obtain ⟨hselection, hreset⟩ := hcurrent happly
    obtain ⟨timeline, hbuild, hpresentation⟩ := bind_eq_ok.mp hpresentation
    obtain ⟨conversion, -, hpresentation⟩ := bind_eq_ok.mp hpresentation
    cases hpresentation
    refine of_timeline ?_ (startNext_timeline _).1 (startNext_timeline _).2
    rw [(startNext_timeline _).1] at htimeline
    obtain ⟨timeline, rfl⟩ := Option.isSome_iff_exists.mp htimeline
    refine .inr ⟨timeline.durationNanos, rfl, ?_⟩
    rw [hreset, hselection, h]
    exact updatedSelection_fixed timeline range
  · exact of_timeline (.inl h) (startNext_timeline _).1 (startNext_timeline _).2

theorem throttleElapsed_timeline (s : ProfileViewModel D) :
    s.throttleElapsed.timeline = s.timeline ∧
      s.throttleElapsed.timelineSelection = s.timelineSelection := by
  unfold ProfileViewModel.throttleElapsed
  split <;> exact ⟨rfl, rfl⟩

theorem rangeConverted_timeline (s : ProfileViewModel D) (task : RangeConversion)
    (result : ProfileConversionResult) :
    (s.rangeConverted task result).timeline = s.timeline ∧
      (s.rangeConverted task result).timelineSelection = s.timelineSelection := by
  unfold ProfileViewModel.rangeConverted
  dsimp only
  split_ifs <;> exact ⟨rfl, rfl⟩

theorem refilter {u : ProfileViewModel D} (h : Selected range s)
    (hselection : u.timelineSelection = s.timelineSelection) (ht : u.refilter P = .ok t)
    (htimeline : t.timeline.isSome) : After range t := by
  have hbefore : Selected range u := hselection.trans h
  cases hprofile : u.decodedProfile with
  | none =>
    cases (refilter_unloaded hprofile).symm.trans ht
    exact .inl hbefore
  | some profile => exact hbefore.refreshed (refilter_observed hprofile ht).toRefreshed htimeline

theorem reselect {u : ProfileViewModel D} (h : Selected range s)
    (hselection : u.timelineSelection = s.timelineSelection) (ht : u.reselect P = .ok t)
    (htimeline : t.timeline.isSome) : After range t := by
  have hbefore : Selected range u := hselection.trans h
  cases hprofile : u.decodedProfile with
  | none =>
    cases (reselect_unloaded hprofile).symm.trans ht
    exact .inl hbefore
  | some profile => exact hbefore.refreshed (reselect_observed hprofile ht).toRefreshed htimeline

theorem step {e : Event} (h : Selected range s) (hstep : Step P s e t) (hkeeps : e.KeepsSelection)
    (hcurrent : AppliesCurrent s e) (htimeline : t.timeline.isSome) : After range t := by
  cases hstep with
  | loadDecodedProfile ht =>
    cases hkeeps
    exact h.loadDecodedProfile ht htimeline
  | loadFile url => cases htimeline
  | @fileLoaded url file t hurl ht =>
    cases file with
    | error message =>
      cases ht
      exact .inl h
    | ok profile => exact hkeeps.elim
  | @setSelectedHeap heap t ht =>
    exact refilter (u := { s with selectedHeap := heap }) h rfl ht htimeline
  | @setValueSign sign t ht =>
    exact refilter (u := { s with valueSign := sign }) h rfl ht htimeline
  | @setSelectedValueTypeIndex index t ht =>
    exact reselect (u := { s with selectedValueTypeIndex := index }) h rfl ht htimeline
  | @setSelectedThread thread t ht =>
    exact reselect (u := { s with selectedThread := thread }) h rfl ht htimeline
  | setZoomedNodeId node => exact .inl h
  | selectTimeRange ht => exact hkeeps.elim
  | resetTimeRange => exact hkeeps.elim
  | throttleElapsed hthrottle =>
    exact of_timeline (.inl h) (throttleElapsed_timeline s).1 (throttleElapsed_timeline s).2
  | @rangeConverted task result htask ht =>
    exact of_timeline (.inl h) (rangeConverted_timeline s task result).1
      (rangeConverted_timeline s task result).2
  | presented htask ht => exact h.presented ht (hcurrent rfl _ htask) htimeline

end Selected

def timedSample : Sample where
  locationIds := []
  values := [1]
  labels := [{ key := 1, strIndex := 0, num := 5, numUnit := 0 }]

def timed : DecodedProfile :=
  { DecodedProfile.new with
    sampleTypes := [⟨0, 0⟩]
    samples := [timedSample]
    stringTable := ["", "pprofessor::timestamp"]
    durationNanos := 10 }

def timedRoot : TrieNode := { rootNode with totalValue := 1, selfValue := 1 }

def shown : ProfileConversionResult where
  nodes := breadthFirst [timedRoot]
  nodeIndex := indexNodes id (breadthFirst [timedRoot])
  rootNodeId := some "root"
  totalValue := 1
  valueTypeNames := [("", "")]
  availableThreads := sortedSet id []

def timedTimeline : ProfileTimeline ℚ where
  durationNanos := 10
  buckets :=
    ((ProfileTimeline.fillBuckets plain timed 0 none 512 [(timedSample, 5)] 10).toOption).getD []

theorem heapDomains_timed : heapDomains plain.canon timed = .ok [] := by
  change Except.ok (sortedSet id []) = _
  simp [sortedSet]

theorem selectedHeapOf_timed (options : ConversionOptions) (h : options.heapDomain = none) :
    selectedHeapOf plain.canon timed options = .ok none := by
  unfold selectedHeapOf
  rw [h]
  dsimp only
  rw [heapDomains_timed]
  rfl

theorem convert_timed : convertProfile plain.canon timed ⟨0, none, none, .positive, none⟩ =
      .ok shown ∧
    convertProfile plain.canon timed
        ⟨0, none, some (TimelineSelectionState.new 10).bounds, .positive, none⟩ = .ok shown ∧
    convertProfile plain.canon timed ⟨0, none, some (2, 6), .positive, none⟩ = .ok shown := by
  refine ⟨?_, ?_, ?_⟩ <;> (unfold convertProfile; rw [selectedHeapOf_timed _ rfl]; rfl)

theorem build_timed : ProfileTimeline.build plain timed 0 none 512 = .ok (some timedTimeline) := rfl

def loaded : ProfileViewModel ℚ :=
  { (initial : ProfileViewModel ℚ).apply shown with
    availableValueTypes := [("", "")]
    timeline := some timedTimeline
    timelineSelection := some (.new 10)
    decodedProfile := some timed
    livePresentationGeneration := 5
    livePresentationTask := some ⟨⟨timed, false⟩, 5, 0, none, some (.new 10), false⟩ }

theorem loadDecodedProfile_timed :
    initial.loadDecodedProfile plain timed false = .ok loaded := by
  have hheap : isHeapProfile plain.canon timed = .ok false := rfl
  have htypes : timed.valueTypeNames = .ok [("", "")] := rfl
  have hpreferred : timed.preferredValueTypeIndex plain.canon = .ok 0 := rfl
  have hcomments : timed.comments.mapM timed.string = .ok [] := rfl
  have hnegative : timed.hasNegativeValues = false := rfl
  have hfirst : updatedSelection (some timedTimeline) none false = some (.new 10) := rfl
  have hagain : updatedSelection (some timedTimeline) (some (.new 10)) false = some (.new 10) :=
    rfl
  simp [loadDecodedProfile, updateHeapMetadata, refreshFilters, refreshValueTypes,
    setSelectedHeap, setSelectedThread, setValueSign, setSelectedValueTypeIndex, refilter, reselect,
    recompute, rebuildTimeline, invalidateLivePresentation, apply, options, heapDomains_timed,
    hheap, htypes, hpreferred, hcomments, hnegative, ok_bind, convert_timed.1, convert_timed.2.1,
    initial, build_timed, hfirst, hagain, pure, Except.pure, enqueueLivePresentation,
    startNextLivePresentationIfNeeded, loaded]

theorem load_step : Step plain initial (.loadDecodedProfile timed false) loaded :=
  .loadDecodedProfile loadDecodedProfile_timed

def middle : ClosedRange := ⟨2, 6, by decide⟩

def selectMiddle (s : ProfileViewModel ℚ) : ProfileViewModel ℚ :=
  { s with
    timelineSelection := some ⟨middle, false⟩
    recomputeGeneration := s.recomputeGeneration + 1
    pendingRangeProfile := some timed
    rangeThrottleTask := false
    rangeConversionTask := some ⟨timed, s.recomputeGeneration + 1, 0, none, some (2, 6)⟩ }

theorem middle_step {s : ProfileViewModel ℚ}
    (h : s.selectTimeRange middle false = some (selectMiddle s)) :
    Step plain s (.selectTimeRange middle false) (selectMiddle s) := .selectTimeRange h

theorem presentation_timed (generation : ℕ) : LivePresentation.presentation plain
    ⟨⟨timed, false⟩, generation, 0, none, some (.new 10), false⟩ =
      .ok ⟨some timedTimeline, some (.new 10), shown⟩ := by
  unfold LivePresentation.presentation buildProfilePresentation
  dsimp only
  rw [build_timed, ok_bind]
  exact congrArg (· >>= _) convert_timed.2.1

def settled : ProfileViewModel ℚ := { loaded with livePresentationTask := none }

theorem settle_step : Step plain loaded .presented settled :=
  .presented rfl (presentation_timed 5)

end PProfessor.ViewModel
