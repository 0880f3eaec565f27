import PProfessor.ViewModelDisplay

set_option autoImplicit false

/-!
# What a load leaves

The view model says of a profile where it came from, what is in it, and the graph. The observers
leave all but the graph alone, so that after a load it is what the load computed.
-/
namespace PProfessor.ViewModel
open Fallible Kit

/-- A profile that was loaded, from a file or live. -/
structure Loaded where
  sourceURL : Option String
  profile : DecodedProfile

/-- What the view model says of the loaded profile besides its graph. -/
structure Metadata where
  decodedProfile : Option DecodedProfile
  sourceURL : Option String
  availableHeaps : List String
  hasNegativeValues : Bool
  profileComments : List String
  availableValueTypes : List (String × String)

variable {D : Type} {P : Platform D}

def Loaded.metadata (P : Platform D) (load : Loaded) : Except Trap Metadata := do
  let heaps ← heapDomains P.canon load.profile
  let comments ← load.profile.comments.mapM load.profile.string
  let types ← load.profile.valueTypeNames
  return {
    decodedProfile := some load.profile
    sourceURL := load.sourceURL
    availableHeaps := heaps
    hasNegativeValues := load.profile.hasNegativeValues
    profileComments := comments
    availableValueTypes := types }

theorem Loaded.metadata_eq (load : Loaded) {heaps comments : List String}
    {types : List (String × String)} (hheaps : heapDomains P.canon load.profile = .ok heaps)
    (hcomments : load.profile.comments.mapM load.profile.string = .ok comments)
    (htypes : load.profile.valueTypeNames = .ok types) : load.metadata P = .ok {
      decodedProfile := some load.profile
      sourceURL := load.sourceURL
      availableHeaps := heaps
      hasNegativeValues := load.profile.hasNegativeValues
      profileComments := comments
      availableValueTypes := types } := by
  unfold Loaded.metadata
  rw [hheaps, ok_bind, hcomments, ok_bind, htypes, ok_bind]
  rfl

theorem Loaded.metadata_profile {load : Loaded} {metadata : Metadata}
    (h : load.metadata P = .ok metadata) : metadata.decodedProfile = some load.profile ∧
      metadata.sourceURL = load.sourceURL := by
  obtain ⟨heaps, -, h⟩ := bind_eq_ok.mp h
  obtain ⟨comments, -, h⟩ := bind_eq_ok.mp h
  obtain ⟨types, -, h⟩ := bind_eq_ok.mp h
  cases h
  exact ⟨rfl, rfl⟩

theorem Loaded.eq_of_metadata {load load' : Loaded} {metadata : Metadata}
    (h : load.metadata P = .ok metadata) (h' : load'.metadata P = .ok metadata) : load = load' := by
  obtain ⟨hprofile, hsource⟩ := Loaded.metadata_profile h
  obtain ⟨hprofile', hsource'⟩ := Loaded.metadata_profile h'
  cases load
  cases load'
  cases hprofile.symm.trans hprofile'
  cases hsource.symm.trans hsource'
  rfl

namespace ProfileViewModel

def metadata (s : ProfileViewModel D) : Metadata where
  decodedProfile := s.decodedProfile
  sourceURL := s.sourceURL
  availableHeaps := s.availableHeaps
  hasNegativeValues := s.hasNegativeValues
  profileComments := s.profileComments
  availableValueTypes := s.availableValueTypes

/-- Neither the metadata nor the calls of `loadFile` change. -/
structure Keeps (s t : ProfileViewModel D) : Prop where
  metadata : t.metadata = s.metadata
  fileLoads : t.fileLoads = s.fileLoads

theorem Keeps.trans {s t u : ProfileViewModel D} (h : Keeps s t) (h' : Keeps t u) : Keeps s u :=
  ⟨h'.metadata.trans h.metadata, h'.fileLoads.trans h.fileLoads⟩

section Observers

variable {s t : ProfileViewModel D} {profile : DecodedProfile}

theorem recompute_keeps (h : s.recompute P profile = .ok t) : Keeps s t := by
  obtain ⟨result, -, rfl⟩ := recompute_eq_ok h
  exact ⟨rfl, rfl⟩

theorem rebuildTimeline_keeps {resetSelection : Bool}
    (h : s.rebuildTimeline P profile resetSelection = .ok t) : Keeps s t := by
  obtain ⟨timeline, -, rfl⟩ := rebuildTimeline_eq_ok h
  exact ⟨rfl, rfl⟩

theorem refilter_keeps (h : s.refilter P = .ok t) : Keeps s t := by
  unfold refilter at h
  split at h
  · cases h
    exact ⟨rfl, rfl⟩
  · obtain ⟨result, -, rfl⟩ := recompute_eq_ok h
    exact ⟨rfl, rfl⟩

theorem reselect_keeps (h : s.reselect P = .ok t) : Keeps s t := by
  unfold reselect at h
  split at h
  · cases h
    exact ⟨rfl, rfl⟩
  · obtain ⟨u, hrebuilt, h⟩ := bind_eq_ok.mp h
    have hu := rebuildTimeline_keeps hrebuilt
    exact ⟨(recompute_keeps h).metadata.trans hu.metadata,
      (recompute_keeps h).fileLoads.trans hu.fileLoads⟩

theorem setSelectedHeap_keeps {heap : Option String} (h : s.setSelectedHeap P heap = .ok t) :
    Keeps s t :=
  ⟨(refilter_keeps h).metadata, (refilter_keeps h).fileLoads⟩

theorem setValueSign_keeps {sign : ProfileValueSign} (h : s.setValueSign P sign = .ok t) :
    Keeps s t :=
  ⟨(refilter_keeps h).metadata, (refilter_keeps h).fileLoads⟩

theorem setSelectedThread_keeps {thread : Option String}
    (h : s.setSelectedThread P thread = .ok t) : Keeps s t :=
  ⟨(reselect_keeps h).metadata, (reselect_keeps h).fileLoads⟩

theorem setSelectedValueTypeIndex_keeps {index : ℤ}
    (h : s.setSelectedValueTypeIndex P index = .ok t) : Keeps s t :=
  ⟨(reselect_keeps h).metadata, (reselect_keeps h).fileLoads⟩

theorem startNext_keeps (s : ProfileViewModel D) : Keeps s s.startNextLivePresentationIfNeeded := by
  unfold startNextLivePresentationIfNeeded
  split
  · exact ⟨rfl, rfl⟩
  · exact ⟨rfl, rfl⟩

theorem presented_keeps (s : ProfileViewModel D) (task : LivePresentation)
    (presentation : ProfilePresentation D) : Keeps s (s.presented task presentation) := by
  by_cases happly : s.shouldApply task = true
  · rw [presented_of_applies presentation happly]
    exact ⟨(startNext_keeps _).metadata, (startNext_keeps _).fileLoads⟩
  · rw [presented_of_dropped presentation happly]
    exact ⟨(startNext_keeps _).metadata, (startNext_keeps _).fileLoads⟩

theorem updateHeapMetadata_keeps (h : s.updateHeapMetadata P profile = .ok t) :
    ∃ heaps comments, heapDomains P.canon profile = .ok heaps ∧
      profile.comments.mapM profile.string = .ok comments ∧
      Keeps
        { s with
          availableHeaps := heaps
          hasNegativeValues := profile.hasNegativeValues
          profileComments := comments } t := by
  obtain ⟨heaps, hheaps, h⟩ := bind_eq_ok.mp h
  obtain ⟨comments, hcomments, h⟩ := bind_eq_ok.mp h
  refine ⟨heaps, comments, hheaps, hcomments, ?_⟩
  dsimp only at h
  split_ifs at h
  · exact setSelectedHeap_keeps h
  · cases h
    exact ⟨rfl, rfl⟩

theorem refreshFilters_keeps {isNewProfile : Bool}
    (h : s.refreshFilters P profile isNewProfile = .ok t) : Keeps s t := by
  unfold refreshFilters at h
  split_ifs at h
  · obtain ⟨u, hthread, h⟩ := bind_eq_ok.mp h
    obtain ⟨v, hsign, h⟩ := bind_eq_ok.mp h
    cases h
    have hkeeps := (setSelectedThread_keeps hthread).trans (setValueSign_keeps hsign)
    exact ⟨hkeeps.metadata, hkeeps.fileLoads⟩
  · exact setValueSign_keeps h
  · cases h
    exact ⟨rfl, rfl⟩

theorem refreshValueTypes_keeps {isNewProfile : Bool}
    (h : s.refreshValueTypes P profile isNewProfile = .ok t) :
    ∃ types, profile.valueTypeNames = .ok types ∧
      Keeps
        { s with
          sourceURL := none
          availableValueTypes := types } t := by
  obtain ⟨types, htypes, h⟩ := bind_eq_ok.mp h
  refine ⟨types, htypes, ?_⟩
  dsimp only at h
  split_ifs at h
  · obtain ⟨preferred, -, h⟩ := bind_eq_ok.mp h
    exact setSelectedValueTypeIndex_keeps h
  · cases h
    exact ⟨rfl, rfl⟩

theorem loadDecodedProfile_metadata {resetTimelineSelection : Bool}
    (h : s.loadDecodedProfile P profile resetTimelineSelection = .ok t) :
    Loaded.metadata P ⟨none, profile⟩ = .ok t.metadata ∧ t.fileLoads = s.fileLoads := by
  obtain ⟨u, hheaps, h⟩ := bind_eq_ok.mp h
  obtain ⟨v, hfilters, h⟩ := bind_eq_ok.mp h
  obtain ⟨w, htypes, h⟩ := bind_eq_ok.mp h
  obtain ⟨isHeap, -, h⟩ := bind_eq_ok.mp h
  obtain ⟨heaps, comments, hheaps, hcomments, hu⟩ := updateHeapMetadata_keeps hheaps
  have hv := hu.trans (refreshFilters_keeps hfilters)
  obtain ⟨types, htypes, hw⟩ := refreshValueTypes_keeps htypes
  have ht : Keeps w t := by
    cases isHeap with
    | true => exact ⟨(recompute_keeps h).metadata, (recompute_keeps h).fileLoads⟩
    | false =>
      cases h
      exact ⟨(startNext_keeps _).metadata, (startNext_keeps _).fileLoads⟩
  have hmetadata := hv.metadata
  simp only [metadata, Metadata.mk.injEq] at hmetadata
  obtain ⟨hprofile, -, havailable, hnegative, hprofileComments, -⟩ := hmetadata
  refine ⟨?_, ht.fileLoads.trans (hw.fileLoads.trans hv.fileLoads)⟩
  rw [Loaded.metadata_eq ⟨none, profile⟩ hheaps hcomments htypes, ht.metadata,
    hw.metadata, ← hprofile, ← havailable, ← hnegative, ← hprofileComments]
  rfl

theorem showFile_metadata {url : String} (h : s.showFile P url profile = .ok t) :
    Loaded.metadata P ⟨some url, profile⟩ = .ok t.metadata ∧ t.fileLoads = s.fileLoads := by
  obtain ⟨u, hheaps, h⟩ := bind_eq_ok.mp h
  obtain ⟨v, hsign, h⟩ := bind_eq_ok.mp h
  obtain ⟨types, htypes, h⟩ := bind_eq_ok.mp h
  obtain ⟨preferred, -, h⟩ := bind_eq_ok.mp h
  obtain ⟨w, hindex, h⟩ := bind_eq_ok.mp h
  obtain ⟨x, hthread, h⟩ := bind_eq_ok.mp h
  obtain ⟨y, hrebuilt, h⟩ := bind_eq_ok.mp h
  obtain ⟨heaps, comments, hheaps, hcomments, hu⟩ := updateHeapMetadata_keeps hheaps
  have hv := hu.trans (setValueSign_keeps hsign)
  have ht := ((setSelectedValueTypeIndex_keeps hindex).trans
    (setSelectedThread_keeps hthread)).trans
      ((rebuildTimeline_keeps hrebuilt).trans (recompute_keeps h))
  have hmetadata := hv.metadata
  simp only [metadata, Metadata.mk.injEq] at hmetadata
  obtain ⟨hprofile, -, havailable, hnegative, hprofileComments, -⟩ := hmetadata
  refine ⟨?_, ht.fileLoads.trans hv.fileLoads⟩
  rw [Loaded.metadata_eq ⟨some url, profile⟩ hheaps hcomments htypes, ht.metadata,
    ← hprofile, ← havailable, ← hnegative, ← hprofileComments]
  rfl

theorem fileLoaded_metadata {url : String} (h : s.fileLoaded P url (.ok profile) = .ok t) :
    Loaded.metadata P ⟨some url, profile⟩ = .ok t.metadata ∧
      t.fileLoads = s.fileLoads.erase url := by
  obtain ⟨u, hshown, h⟩ := bind_eq_ok.mp h
  cases h
  exact showFile_metadata hshown

end Observers

end ProfileViewModel

end PProfessor.ViewModel
