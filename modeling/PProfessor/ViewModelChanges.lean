import PProfessor.Fallible
import PProfessor.ProfileViewModel

set_option autoImplicit false

/-!
# What the observers change

Every assignment to a filter runs an observer. `Refreshed` says what any number of them changes
while one profile is loaded; a load is some of them and one last action.
-/
namespace PProfessor.ViewModel
open Fallible Kit

variable {D : Type} {P : Platform D}

theorem build_eq_ok {profile : DecodedProfile} {index : ℤ} {thread : Option String}
    {timeline : Option (ProfileTimeline D)}
    (h : ProfileTimeline.build P profile index thread 512 = .ok timeline)
    (hsamples : profile.samples ≠ []) :
    ∃ timed, ProfileTimeline.timedSamples P profile = .ok timed ∧
      ProfileTimeline.duration profile timed =
        .ok (timeline.map ProfileTimeline.durationNanos) := by
  unfold ProfileTimeline.build at h
  rw [if_neg (by simp [hsamples])] at h
  obtain ⟨timed, htimed, h⟩ := bind_eq_ok.mp h
  obtain ⟨duration, hduration, h⟩ := bind_eq_ok.mp h
  refine ⟨timed, htimed, hduration.trans ?_⟩
  cases duration with
  | none =>
    cases h
    rfl
  | some duration =>
    obtain ⟨buckets, -, h⟩ := bind_eq_ok.mp h
    cases h
    rfl

theorem build_duration {profile : DecodedProfile} {i j : ℤ} {thread thread' : Option String}
    {timeline timeline' : Option (ProfileTimeline D)}
    (h : ProfileTimeline.build P profile i thread 512 = .ok timeline)
    (h' : ProfileTimeline.build P profile j thread' 512 = .ok timeline') :
    timeline.map ProfileTimeline.durationNanos = timeline'.map ProfileTimeline.durationNanos := by
  by_cases hsamples : profile.samples = []
  · unfold ProfileTimeline.build at h h'
    rw [if_pos (.inl hsamples)] at h h'
    cases h
    cases h'
    rfl
  · obtain ⟨timed, htimed, hduration⟩ := build_eq_ok h hsamples
    obtain ⟨timed', htimed', hduration'⟩ := build_eq_ok h' hsamples
    cases htimed.symm.trans htimed'
    exact Except.ok.inj (hduration.symm.trans hduration')

theorem updateDuration_again (selection : TimelineSelectionState) (duration : Int64) :
    (selection.updateDuration duration).updateDuration duration =
      selection.updateDuration duration := by
  obtain ⟨range, following⟩ := selection
  cases following with
  | true => rfl
  | false =>
    rw [TimelineSelectionState.updateDuration_fixed, TimelineSelectionState.updateDuration_fixed,
      ClosedRange.clamp_clamp]

theorem updatedSelection_again {timeline timeline' : Option (ProfileTimeline D)}
    (h : timeline.map ProfileTimeline.durationNanos = timeline'.map ProfileTimeline.durationNanos)
    (selection : Option TimelineSelectionState) :
    updatedSelection timeline' (updatedSelection timeline selection false) false =
      updatedSelection timeline' selection false := by
  cases timeline' with
  | none => rfl
  | some t' =>
    cases timeline with
    | none => cases h
    | some t =>
      have hduration : t.durationNanos = t'.durationNanos := Option.some.inj h
      cases selection with
      | none =>
        change some ((TimelineSelectionState.new t.durationNanos).updateDuration
          t'.durationNanos) = some (.new t'.durationNanos)
        rfl
      | some selection =>
        change some ((selection.updateDuration t.durationNanos).updateDuration t'.durationNanos) =
          some (selection.updateDuration t'.durationNanos)
        rw [hduration, updateDuration_again]

theorem of_none {α : Type} {a : α} {C : Prop} (h : none = some a) : C := nomatch h

namespace ProfileViewModel

/-- From `s` to `t`, with the profile loaded all the while, only observers ran. -/
structure Refreshed (P : Platform D) (profile : DecodedProfile) (s t : ProfileViewModel D) :
    Prop where
  decodedProfile : t.decodedProfile = s.decodedProfile
  timeline : (t.timeline = s.timeline ∧ t.timelineSelection = s.timelineSelection) ∨
    ∃ index thread, ProfileTimeline.build P profile index thread 512 = .ok t.timeline ∧
      t.timelineSelection = updatedSelection t.timeline s.timelineSelection false
  throttle : t.rangeThrottleTask = s.rangeThrottleTask
  conversion : t.rangeConversionTask = s.rangeConversionTask
  recompute : t.recomputeGeneration = s.recomputeGeneration
  generation : s.livePresentationGeneration ≤ t.livePresentationGeneration
  task : t.livePresentationTask.map LivePresentation.generation =
    s.livePresentationTask.map LivePresentation.generation

namespace Refreshed

variable {profile : DecodedProfile} {s t u : ProfileViewModel D}

theorem refl (profile : DecodedProfile) (s : ProfileViewModel D) : Refreshed P profile s s :=
  ⟨rfl, .inl ⟨rfl, rfl⟩, rfl, rfl, rfl, Nat.le_refl _, rfl⟩

theorem of_filters (hprofile : t.decodedProfile = s.decodedProfile)
    (htimeline : t.timeline = s.timeline ∧ t.timelineSelection = s.timelineSelection)
    (hrange : t.rangeThrottleTask = s.rangeThrottleTask ∧
      t.rangeConversionTask = s.rangeConversionTask ∧
      t.recomputeGeneration = s.recomputeGeneration)
    (hlive : t.livePresentationGeneration = s.livePresentationGeneration ∧
      t.livePresentationTask = s.livePresentationTask) : Refreshed P profile s t :=
  ⟨hprofile, .inl htimeline, hrange.1, hrange.2.1, hrange.2.2, Nat.le_of_eq hlive.1.symm,
    congrArg _ hlive.2⟩

theorem trans (h : Refreshed P profile s t) (h' : Refreshed P profile t u) :
    Refreshed P profile s u := by
  refine ⟨h'.decodedProfile.trans h.decodedProfile, ?_, h'.throttle.trans h.throttle,
    h'.conversion.trans h.conversion, h'.recompute.trans h.recompute,
    Nat.le_trans h.generation h'.generation, h'.task.trans h.task⟩
  rcases h'.timeline with ⟨htimeline, hselection⟩ | ⟨index, thread, hbuild, hselection⟩
  · rw [htimeline, hselection]
    exact h.timeline
  · right
    refine ⟨index, thread, hbuild, ?_⟩
    rw [hselection]
    rcases h.timeline with ⟨-, hbefore⟩ | ⟨i, thread', hbuild', hbefore⟩
    · rw [hbefore]
    · rw [hbefore, updatedSelection_again (build_duration hbuild' hbuild)]

end Refreshed

theorem recompute_eq_ok {s t : ProfileViewModel D} {profile : DecodedProfile}
    (h : s.recompute P profile = .ok t) :
    ∃ result, convertProfile P.canon profile s.options = .ok result ∧ t = s.apply result := by
  obtain ⟨result, hresult, h⟩ := bind_eq_ok.mp h
  cases h
  exact ⟨result, hresult, rfl⟩

/-- The display is the conversion of the profile under the filters as they stand. -/
def Displays (P : Platform D) (profile : DecodedProfile) (s : ProfileViewModel D) : Prop :=
  ∃ result, convertProfile P.canon profile s.options = .ok result ∧ s.nodes = result.nodes ∧
    s.nodeIndex = result.nodeIndex ∧ s.rootNodeId = result.rootNodeId ∧
    s.totalValue = result.totalValue

theorem recompute_displays {s t : ProfileViewModel D} {profile : DecodedProfile}
    (h : s.recompute P profile = .ok t) : t.Displays P profile := by
  obtain ⟨result, hresult, rfl⟩ := recompute_eq_ok h
  exact ⟨result, hresult, rfl, rfl, rfl, rfl⟩

theorem invalidate_refreshed (profile : DecodedProfile) (s : ProfileViewModel D) :
    Refreshed P profile s s.invalidateLivePresentation := by
  refine ⟨rfl, .inl ⟨rfl, rfl⟩, rfl, rfl, rfl, Nat.le_succ _, ?_⟩
  unfold invalidateLivePresentation
  cases s.livePresentationTask <;> rfl

theorem recompute_refreshed {s t : ProfileViewModel D} {profile : DecodedProfile}
    (h : s.recompute P profile = .ok t) : Refreshed P profile s t := by
  obtain ⟨result, -, rfl⟩ := recompute_eq_ok h
  exact ⟨rfl, .inl ⟨rfl, rfl⟩, rfl, rfl, rfl, Nat.le_refl _, rfl⟩

theorem presented_of_applies {s : ProfileViewModel D} {task : LivePresentation}
    (presentation : ProfilePresentation D) (h : s.shouldApply task = true) :
    s.presented task presentation = startNextLivePresentationIfNeeded (apply
      { s with
        livePresentationTask := none
        timeline := presentation.timeline
        timelineSelection := presentation.timelineSelection } presentation.conversion) :=
  congrArg startNextLivePresentationIfNeeded (if_pos h)

theorem presented_of_dropped {s : ProfileViewModel D} {task : LivePresentation}
    (presentation : ProfilePresentation D) (h : ¬s.shouldApply task = true) :
    s.presented task presentation =
      startNextLivePresentationIfNeeded { s with livePresentationTask := none } :=
  congrArg startNextLivePresentationIfNeeded (if_neg h)

theorem rebuildTimeline_eq_ok {s t : ProfileViewModel D} {profile : DecodedProfile}
    {resetSelection : Bool} (h : s.rebuildTimeline P profile resetSelection = .ok t) :
    ∃ timeline, ProfileTimeline.build P profile s.selectedValueTypeIndex s.selectedThread 512 =
        .ok timeline ∧
      t = { s with
        timeline
        timelineSelection := updatedSelection timeline s.timelineSelection resetSelection } := by
  obtain ⟨timeline, htimeline, h⟩ := bind_eq_ok.mp h
  cases h
  exact ⟨timeline, htimeline, rfl⟩

theorem refilter_unloaded {s : ProfileViewModel D} (h : s.decodedProfile = none) :
    s.refilter P = .ok s := by
  unfold refilter
  rw [h]

theorem reselect_unloaded {s : ProfileViewModel D} (h : s.decodedProfile = none) :
    s.reselect P = .ok s := by
  unfold reselect
  rw [h]

structure Observed (P : Platform D) (profile : DecodedProfile) (s t : ProfileViewModel D) :
    Prop extends Refreshed P profile s t where
  displays : t.Displays P profile
  pending : t.pendingLivePresentation = none
  newer : s.livePresentationGeneration < t.livePresentationGeneration

theorem refilter_observed {s t : ProfileViewModel D} {profile : DecodedProfile}
    (hprofile : s.decodedProfile = some profile) (h : s.refilter P = .ok t) :
    Observed P profile s t := by
  unfold refilter at h
  rw [hprofile] at h
  have hrefreshed := (invalidate_refreshed (P := P) profile s).trans (recompute_refreshed h)
  obtain ⟨result, -, rfl⟩ := recompute_eq_ok h
  exact ⟨hrefreshed, recompute_displays h, rfl, Nat.lt_succ_self _⟩

theorem reselect_observed {s t : ProfileViewModel D} {profile : DecodedProfile}
    (hprofile : s.decodedProfile = some profile) (h : s.reselect P = .ok t) :
    Observed P profile s t := by
  unfold reselect at h
  rw [hprofile] at h
  obtain ⟨u, hrebuilt, h⟩ := bind_eq_ok.mp h
  obtain ⟨timeline, hbuild, rfl⟩ := rebuildTimeline_eq_ok hrebuilt
  have hinvalid := invalidate_refreshed (P := P) profile s
  have hrefreshed : Refreshed P profile s
      { s.invalidateLivePresentation with
        timeline
        timelineSelection := updatedSelection timeline s.timelineSelection false } :=
    ⟨rfl, .inr ⟨_, _, hbuild, rfl⟩, rfl, rfl, rfl, hinvalid.generation, hinvalid.task⟩
  have hdisplays := recompute_displays h
  obtain ⟨result, hresult, rfl⟩ := recompute_eq_ok h
  exact ⟨hrefreshed.trans (recompute_refreshed h), hdisplays, rfl, Nat.lt_succ_self _⟩

theorem Observed.after {s t u : ProfileViewModel D} {profile : DecodedProfile}
    (h : Observed P profile t u) (hs : Refreshed P profile s t) : Observed P profile s u :=
  ⟨hs.trans h.toRefreshed, h.displays, h.pending, Nat.lt_of_le_of_lt hs.generation h.newer⟩

section Setters

variable {s t : ProfileViewModel D} {profile : DecodedProfile}
  (hprofile : s.decodedProfile = some profile)

include hprofile

theorem setSelectedHeap_observed {heap : Option String}
    (h : s.setSelectedHeap P heap = .ok t) : Observed P profile s t :=
  .after (refilter_observed (s := { s with selectedHeap := heap }) hprofile h)
    (.of_filters rfl ⟨rfl, rfl⟩ ⟨rfl, rfl, rfl⟩ ⟨rfl, rfl⟩)

theorem setValueSign_observed {sign : ProfileValueSign}
    (h : s.setValueSign P sign = .ok t) : Observed P profile s t :=
  .after (refilter_observed (s := { s with valueSign := sign }) hprofile h)
    (.of_filters rfl ⟨rfl, rfl⟩ ⟨rfl, rfl, rfl⟩ ⟨rfl, rfl⟩)

theorem setSelectedThread_observed {thread : Option String}
    (h : s.setSelectedThread P thread = .ok t) : Observed P profile s t :=
  .after (reselect_observed (s := { s with selectedThread := thread }) hprofile h)
    (.of_filters rfl ⟨rfl, rfl⟩ ⟨rfl, rfl, rfl⟩ ⟨rfl, rfl⟩)

theorem setSelectedValueTypeIndex_observed {index : ℤ}
    (h : s.setSelectedValueTypeIndex P index = .ok t) : Observed P profile s t :=
  .after (reselect_observed (s := { s with selectedValueTypeIndex := index }) hprofile h)
    (.of_filters rfl ⟨rfl, rfl⟩ ⟨rfl, rfl, rfl⟩ ⟨rfl, rfl⟩)

theorem updateHeapMetadata_refreshed (h : s.updateHeapMetadata P profile = .ok t) :
    Refreshed P profile s t := by
  obtain ⟨heaps, -, h⟩ := bind_eq_ok.mp h
  obtain ⟨comments, -, h⟩ := bind_eq_ok.mp h
  dsimp only at h
  have hmetadata : Refreshed P profile s { s with
      availableHeaps := heaps
      hasNegativeValues := profile.hasNegativeValues
      profileComments := comments } := .of_filters rfl ⟨rfl, rfl⟩ ⟨rfl, rfl, rfl⟩ ⟨rfl, rfl⟩
  split_ifs at h with hheap
  · exact hmetadata.trans (setSelectedHeap_observed (hmetadata.decodedProfile.trans hprofile)
      h).toRefreshed
  · cases h
    exact hmetadata

theorem refreshFilters_refreshed {isNewProfile : Bool}
    (h : s.refreshFilters P profile isNewProfile = .ok t) : Refreshed P profile s t := by
  unfold refreshFilters at h
  split_ifs at h
  · obtain ⟨u, hthread, h⟩ := bind_eq_ok.mp h
    obtain ⟨v, hsign, h⟩ := bind_eq_ok.mp h
    cases h
    have hu := (setSelectedThread_observed hprofile hthread).toRefreshed
    have hv := (setValueSign_observed (hu.decodedProfile.trans hprofile) hsign).toRefreshed
    exact (hu.trans hv).trans (.of_filters rfl ⟨rfl, rfl⟩ ⟨rfl, rfl, rfl⟩ ⟨rfl, rfl⟩)
  · exact (setValueSign_observed hprofile h).toRefreshed
  · cases h
    exact .refl profile s

theorem refreshValueTypes_refreshed {isNewProfile : Bool}
    (h : s.refreshValueTypes P profile isNewProfile = .ok t) : Refreshed P profile s t := by
  obtain ⟨types, -, h⟩ := bind_eq_ok.mp h
  dsimp only at h
  have htypes : Refreshed P profile s { s with
      sourceURL := none
      availableValueTypes := types } := .of_filters rfl ⟨rfl, rfl⟩ ⟨rfl, rfl, rfl⟩ ⟨rfl, rfl⟩
  split_ifs at h
  · obtain ⟨preferred, -, h⟩ := bind_eq_ok.mp h
    exact htypes.trans (setSelectedValueTypeIndex_observed
      (htypes.decodedProfile.trans hprofile) h).toRefreshed
  · cases h
    exact htypes

end Setters

/-- `s` with the profile in place of whatever was loaded. -/
def loading (s : ProfileViewModel D) (profile : DecodedProfile) : ProfileViewModel D :=
  { s with
    error := none
    isLoading := false
    decodedProfile := some profile }

/-- A load runs observers, and then either shows a heap profile without a timeline or enqueues a
presentation. -/
theorem loadDecodedProfile_eq_ok {s t : ProfileViewModel D} {profile : DecodedProfile}
    {resetTimelineSelection : Bool}
    (h : s.loadDecodedProfile P profile resetTimelineSelection = .ok t) :
    ∃ u, Refreshed P profile (s.loading profile) u ∧
      (isHeapProfile P.canon profile = .ok true ∧
        recompute P
          { u.invalidateLivePresentation with
            timeline := none
            timelineSelection := none } profile = .ok t ∨
      isHeapProfile P.canon profile = .ok false ∧
        t = u.enqueueLivePresentation profile resetTimelineSelection) := by
  obtain ⟨u, hheaps, h⟩ := bind_eq_ok.mp h
  obtain ⟨v, hfilters, h⟩ := bind_eq_ok.mp h
  obtain ⟨w, htypes, h⟩ := bind_eq_ok.mp h
  obtain ⟨isHeap, hheap, h⟩ := bind_eq_ok.mp h
  have hu := updateHeapMetadata_refreshed (s := s.loading profile) rfl hheaps
  have hprofile : u.decodedProfile = some profile := hu.decodedProfile
  have hv := refreshFilters_refreshed hprofile hfilters
  have hw := refreshValueTypes_refreshed (hv.decodedProfile.trans hprofile) htypes
  refine ⟨w, (hu.trans hv).trans hw, ?_⟩
  cases isHeap with
  | true => exact .inl ⟨hheap, h⟩
  | false =>
    cases h
    exact .inr ⟨hheap, rfl⟩

theorem showFile_eq_ok {s t : ProfileViewModel D} {url : String} {profile : DecodedProfile}
    (h : s.showFile P url profile = .ok t) :
    ∃ u v w, Refreshed P profile { s with decodedProfile := some profile } u ∧
      Observed P profile u v ∧ v.rebuildTimeline P profile true = .ok w ∧
      w.recompute P profile = .ok t := by
  obtain ⟨a, hheaps, h⟩ := bind_eq_ok.mp h
  obtain ⟨b, hsign, h⟩ := bind_eq_ok.mp h
  obtain ⟨types, -, h⟩ := bind_eq_ok.mp h
  obtain ⟨preferred, -, h⟩ := bind_eq_ok.mp h
  obtain ⟨c, hindex, h⟩ := bind_eq_ok.mp h
  obtain ⟨v, hthread, h⟩ := bind_eq_ok.mp h
  obtain ⟨w, hrebuilt, h⟩ := bind_eq_ok.mp h
  have ha := updateHeapMetadata_refreshed
    (s := { s with decodedProfile := some profile }) rfl hheaps
  have haprofile : a.decodedProfile = some profile := ha.decodedProfile
  have hb := (setValueSign_observed haprofile hsign).toRefreshed
  have hbprofile := hb.decodedProfile.trans haprofile
  have hnamed : Refreshed P profile b { b with
      sourceURL := some url
      availableValueTypes := types } := .of_filters rfl ⟨rfl, rfl⟩ ⟨rfl, rfl, rfl⟩ ⟨rfl, rfl⟩
  have hc := hnamed.trans (setSelectedValueTypeIndex_observed
    (hnamed.decodedProfile.trans hbprofile) hindex).toRefreshed
  exact ⟨c, v, w, (ha.trans hb).trans hc,
    setSelectedThread_observed (hc.decodedProfile.trans hbprofile) hthread, hrebuilt, h⟩

end ProfileViewModel

end PProfessor.ViewModel
