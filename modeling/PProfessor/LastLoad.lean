import PProfessor.ViewModelLoads

set_option autoImplicit false

/-!
# The last load

After any run of overlapping loads the view model holds the load that finished last, which need
not be the one that was requested last.
-/
namespace PProfessor.ViewModel
open Fallible Kit ProfileViewModel

namespace ProfileViewModel

variable {D : Type} {P : Platform D} {s t : ProfileViewModel D} {profile : DecodedProfile}

/-- The graph is a conversion of the profile under the filters as they stand, or under those
that a presentation captures, which has the defaults for the sign and the heap. -/
def Shows (P : Platform D) (profile : DecodedProfile) (s : ProfileViewModel D) : Prop :=
  ∃ options result, (options = s.options ∨ options = { s.options with
      valueSign := .positive
      heapDomain := none }) ∧
    convertProfile P.canon profile options = .ok result ∧ s.nodes = result.nodes ∧
    s.nodeIndex = result.nodeIndex ∧ s.rootNodeId = result.rootNodeId ∧
    s.totalValue = result.totalValue

theorem Displays.shows (h : s.Displays P profile) : s.Shows P profile := by
  obtain ⟨result, hresult, hnodes⟩ := h
  exact ⟨s.options, result, .inl rfl, hresult, hnodes⟩

/-- The view model holds what was loaded: the profile, what it says of it, and its graph. -/
structure Holds (P : Platform D) (load : Loaded) (s : ProfileViewModel D) : Prop where
  metadata : load.metadata P = .ok s.metadata
  graph : s.Shows P load.profile

end ProfileViewModel

/-- Without range conversions: the presentations are of what is loaded and selected. -/
structure Presenting {D : Type} (s : ProfileViewModel D) : Prop extends Tasks s where
  pending : ∀ request, s.pendingLivePresentation = some request →
    s.decodedProfile = some request.profile
  current : ∀ task, s.livePresentationTask = some task → Valid s task →
    s.decodedProfile = some task.request.profile ∧
      task.valueTypeIndex = s.selectedValueTypeIndex ∧ task.threadFilter = s.selectedThread
  range : s.rangeThrottleTask = false ∧ s.rangeConversionTask = none

def Showing {D : Type} (P : Platform D) (s : ProfileViewModel D) : Prop :=
  ∀ profile, s.decodedProfile = some profile → PresentationDue s ∨ s.Shows P profile

namespace Presenting

variable {D : Type} {P : Platform D} {s t : ProfileViewModel D} {profile : DecodedProfile}

theorem of_idle (h : Idle s) : Presenting s := by
  obtain ⟨hpending, htask, hrange⟩ := h
  refine ⟨⟨fun _ h => ?_, fun _ h => ?_⟩, fun _ h => ?_, fun _ h => ?_, hrange⟩
  · cases htask.symm.trans h
  · cases hrange.2.symm.trans h
  · cases hpending.symm.trans h
  · cases htask.symm.trans h

theorem of_inv (h : Inv P s) (hrange : s.rangeThrottleTask = false ∧ s.rangeConversionTask = none) :
    Presenting s ∧ Showing P s := by
  refine ⟨⟨h.toTasks, h.pending, h.current, hrange⟩, fun profile hprofile => ?_⟩
  obtain hdue | hdue | hdisplays := h.display profile hprofile
  · exact .inl hdue
  · obtain hthrottle | ⟨task, htask, -⟩ := hdue
    · rw [hrange.1] at hthrottle
      cases hthrottle
    · rw [hrange.2] at htask
      cases htask
  · exact .inr hdisplays.shows

theorem startNext_range (s : ProfileViewModel D) :
    s.startNextLivePresentationIfNeeded.rangeThrottleTask = s.rangeThrottleTask ∧
      s.startNextLivePresentationIfNeeded.rangeConversionTask = s.rangeConversionTask := by
  unfold startNextLivePresentationIfNeeded
  split
  · exact ⟨rfl, rfl⟩
  · exact ⟨rfl, rfl⟩

theorem loadDecodedProfile {resetTimelineSelection : Bool} (h : Presenting s)
    (ht : s.loadDecodedProfile P profile resetTimelineSelection = .ok t) :
    Presenting t ∧ Showing P t := by
  refine of_inv (.loadDecodedProfile h.toTasks ht) ?_
  obtain ⟨u, hu, ⟨-, hheap⟩ | ⟨-, rfl⟩⟩ := loadDecodedProfile_eq_ok ht
  · obtain ⟨result, -, rfl⟩ := recompute_eq_ok hheap
    exact ⟨hu.throttle.trans h.range.1, hu.conversion.trans h.range.2⟩
  · have hstart := startNext_range { u with
      livePresentationGeneration := u.livePresentationGeneration + 1
      pendingLivePresentation := some ⟨profile, resetTimelineSelection⟩ }
    exact ⟨hstart.1.trans (hu.throttle.trans h.range.1),
      hstart.2.trans (hu.conversion.trans h.range.2)⟩

theorem fileLoaded {url : String} (h : Presenting s)
    (ht : s.fileLoaded P url (.ok profile) = .ok t) : Presenting t ∧ Showing P t := by
  obtain ⟨u, hshown, ht⟩ := bind_eq_ok.mp ht
  cases ht
  have hinv := Inv.showFile (s := { s with fileLoads := s.fileLoads.erase url })
    ⟨h.presentation, h.conversion⟩ hshown
  obtain ⟨v, w, x, hv, hw, hrebuilt, hshown⟩ := showFile_eq_ok hshown
  obtain ⟨timeline, -, rfl⟩ := rebuildTimeline_eq_ok hrebuilt
  obtain ⟨result, -, rfl⟩ := recompute_eq_ok hshown
  exact of_inv ⟨⟨hinv.presentation, hinv.conversion⟩, hinv.pending, hinv.current, hinv.display⟩
    ⟨hw.throttle.trans (hv.throttle.trans h.range.1),
      hw.conversion.trans (hv.conversion.trans h.range.2)⟩

theorem loadFile (h : Presenting s) (url : String) :
    Presenting (s.loadFile url) ∧ Showing P (s.loadFile url) := by
  have hinvalid := invalidate_refreshed (P := P) .new s
  have htasks := h.toTasks.refreshed hinvalid
  exact ⟨⟨⟨htasks.presentation, htasks.conversion⟩, nofun, fun task htask hvalid =>
    absurd hvalid (h.toTasks.not_valid hinvalid (Nat.lt_succ_self _) htask), h.range⟩, nofun⟩

theorem startNext_of_none (h : s.pendingLivePresentation = none) :
    s.startNextLivePresentationIfNeeded = s := by
  unfold startNextLivePresentationIfNeeded
  split
  · rename_i hrequest
    cases h.symm.trans hrequest
  · rfl

theorem startNext (h : Presenting s) (hnone : s.livePresentationTask = none) :
    Presenting s.startNextLivePresentationIfNeeded ∧
      (Showing P s → Showing P s.startNextLivePresentationIfNeeded) := by
  cases hrequest : s.pendingLivePresentation with
  | none =>
    rw [startNext_of_none hrequest]
    exact ⟨h, id⟩
  | some request =>
    unfold startNextLivePresentationIfNeeded
    rw [hnone, hrequest]
    refine ⟨⟨⟨fun task htask => ?_, h.conversion⟩, nofun, fun task htask _ => ?_, h.range⟩, ?_⟩
    · cases htask
      exact Nat.le_refl _
    · cases htask
      exact ⟨h.pending request hrequest, rfl, rfl⟩
    · exact fun _ _ _ => .inl (.inr ⟨_, rfl, rfl, rfl⟩)

theorem presented {task : LivePresentation} {presentation : ProfilePresentation D}
    (h : Presenting s) (htask : s.livePresentationTask = some task)
    (hpresentation : task.presentation P = .ok presentation) :
    Presenting (s.presented task presentation) ∧
      (Showing P s → Showing P (s.presented task presentation)) := by
  have hfinished : Presenting { s with livePresentationTask := none } :=
    ⟨⟨fun _ h => of_none h, h.conversion⟩, h.pending, fun _ h => of_none h, h.range⟩
  by_cases happly : s.shouldApply task = true
  · obtain ⟨hvalid, hpending⟩ := shouldApply_iff.mp happly
    rw [presented_of_applies presentation happly]
    have happlied : Presenting (apply
        { s with
          livePresentationTask := none
          timeline := presentation.timeline
          timelineSelection := presentation.timelineSelection } presentation.conversion) :=
      ⟨⟨fun _ h => of_none h, h.conversion⟩, h.pending, fun _ h => of_none h, h.range⟩
    obtain ⟨hnext, hshowing⟩ := happlied.startNext (P := P) rfl
    refine ⟨hnext, fun _ => hshowing fun profile hprofile => .inr ?_⟩
    obtain ⟨hcurrent, hindex, hthread⟩ := h.current task htask hvalid
    cases hcurrent.symm.trans hprofile
    obtain ⟨timeline, -, hpresentation⟩ := bind_eq_ok.mp hpresentation
    obtain ⟨conversion, hconversion, hpresentation⟩ := bind_eq_ok.mp hpresentation
    cases hpresentation
    rw [hindex, hthread] at hconversion
    exact ⟨_, conversion, .inr rfl, hconversion, rfl, rfl, rfl, rfl⟩
  · rw [presented_of_dropped presentation happly]
    obtain ⟨hnext, hshowing⟩ := hfinished.startNext (P := P) rfl
    refine ⟨hnext, fun hbefore => hshowing fun profile hprofile => ?_⟩
    obtain hdue | hshows := hbefore profile hprofile
    · obtain hsome | ⟨task', htask', hvalid⟩ := hdue
      · exact .inl (.inl hsome)
      · cases htask.symm.trans htask'
        have hpending : s.pendingLivePresentation.isSome := by
          rw [Option.isSome_iff_ne_none]
          exact fun hnone => happly (shouldApply_iff.mpr ⟨hvalid, hnone⟩)
        exact .inl (.inl hpending)
    · exact .inr hshows

end Presenting

namespace Loads

variable {D : Type} {P : Platform D} {R : Readers} {s t : Loads D}

/-- As long as none has failed and none is under way, the load that finished last is held. -/
structure Held (P : Platform D) (s : Loads D) : Prop where
  presenting : Presenting s.viewModel
  last : s.failed = [] → s.viewModel.fileLoads = [] → ∀ load, s.finished.getLast? = some load →
    load.2.metadata P = .ok s.viewModel.metadata ∧ Showing P s.viewModel

theorem Held.start {viewModel : ProfileViewModel D} (h : Idle viewModel) :
    Held P (Loads.start viewModel) :=
  ⟨.of_idle h, nofun⟩

theorem Held.request {call : Call} (h : Held P s) (ht : s.request P call = .ok t) : Held P t := by
  obtain ⟨url, rfl⟩ | ⟨profile, resetTimelineSelection, viewModel, hlive, rfl⟩ := request_eq_ok ht
  · exact ⟨h.presenting, h.last⟩
  · obtain ⟨hpresenting, hshowing⟩ := h.presenting.loadDecodedProfile hlive
    refine ⟨hpresenting, fun _ _ load hload => ?_⟩
    cases (List.getLast?_concat).symm.trans hload
    exact ⟨(loadDecodedProfile_metadata hlive).1, hshowing⟩

theorem Held.step (h : Held P s) (hstep : Step P R s t) : Held P t := by
  cases hstep with
  | select hcall ht => exact h.request ht
  | request ht => exact h.request ht
  | begin hload => exact ⟨(h.presenting.loadFile (P := P) _).1, nofun⟩
  | read hload rawData => exact ⟨h.presenting, h.last⟩
  | uncompress hload hdata => exact ⟨h.presenting, h.last⟩
  | decode hload hprofile ht =>
    obtain ⟨hpresenting, hshowing⟩ := h.presenting.fileLoaded ht
    refine ⟨hpresenting, fun _ _ load hload => ?_⟩
    cases (List.getLast?_concat).symm.trans hload
    exact ⟨(fileLoaded_metadata ht).1, hshowing⟩
  | fail hload hmessage ht =>
    cases ht
    have hbefore := h.presenting
    exact ⟨⟨⟨hbefore.presentation, hbefore.conversion⟩, hbefore.pending, hbefore.current,
      hbefore.range⟩, nofun⟩
  | @presented task presentation htask ht =>
    obtain ⟨hpresenting, hshowing⟩ := h.presenting.presented htask ht
    have hkeeps := presented_keeps s.viewModel task presentation
    refine ⟨hpresenting, fun hfailed hloads load hload => ?_⟩
    obtain ⟨hmetadata, hbefore⟩ := h.last hfailed (hkeeps.fileLoads.symm.trans hloads) load hload
    exact ⟨hkeeps.metadata ▸ hmetadata, hshowing hbefore⟩

theorem Held.run (h : Held P s) (hrun : Run P R s t) : Held P t := by
  induction hrun with
  | refl => exact h
  | tail _ hstep ih => exact ih.step hstep

/-- Once every load has finished without error, the view model holds the one that was requested
last if and only if the one that finished last is of the same file and the same profile. -/
theorem last_requested_held_iff {viewModel : ProfileViewModel D} (hidle : Idle viewModel)
    (hloads : viewModel.fileLoads = []) (hrun : Run P R (start viewModel) t) (hdone : Done t)
    (hrequested : t.requested ≠ 0) :
    ∃ last requested, t.finished.getLast? = some last ∧ requested ∈ t.finished ∧
      (∀ load ∈ t.finished, load.1 + 1 = t.requested ↔ load = requested) ∧
      (t.viewModel.Holds P requested.2 ↔ requested.2 = last.2) := by
  have haccounted := (Accounted.start hloads).run hrun
  have hheld := (Held.start (P := P) hidle).run hrun
  have hids := haccounted.ids
  have hurls := haccounted.urls
  rw [hdone.failed, hdone.suspended, List.map_nil, List.append_nil, List.append_nil] at hids
  rw [hdone.suspended] at hurls
  have hmem : t.requested - 1 ∈ t.finished.map Prod.fst := by
    rw [hids.mem_iff, List.mem_range]
    omega
  obtain ⟨requested, hmem, hid⟩ := List.mem_map.mp hmem
  have hnodup : (t.finished.map Prod.fst).Nodup := hids.nodup_iff.mpr List.nodup_range
  have hne : t.finished ≠ [] := List.ne_nil_of_mem hmem
  refine ⟨t.finished.getLast hne, requested, List.getLast?_eq_some_getLast hne, hmem, ?_, ?_⟩
  · intro load hload
    constructor
    · intro hlast
      exact List.inj_on_of_nodup_map hnodup hload hmem (by omega)
    · rintro rfl
      omega
  · obtain ⟨hmetadata, hshowing⟩ := hheld.last hdone.failed hurls.eq_nil _
      (List.getLast?_eq_some_getLast hne)
    constructor
    · intro hholds
      exact Loaded.eq_of_metadata hholds.metadata hmetadata
    · intro heq
      rw [heq]
      refine ⟨hmetadata, ?_⟩
      obtain hdue | hshows := hshowing _ (Loaded.metadata_profile hmetadata).1
      · obtain ⟨hpending, htask⟩ := hdone.presented
        obtain hsome | ⟨task, hsome, -⟩ := hdue
        · rw [hpending] at hsome
          cases hsome
        · cases htask.symm.trans hsome
      · exact hshows

theorem run_to_decode (before after : List FileLoad) {id : ℕ} {url : String}
    (hload : s.suspended = before ++ ⟨id, url, .turn⟩ :: after) {rawData uncompressed : List UInt8}
    (h : R.uncompress rawData = .ok uncompressed) : Run P R s
      { s with
        viewModel := s.viewModel.loadFile url
        suspended := before ++ ⟨id, url, .profile uncompressed⟩ :: after } :=
  ((Relation.ReflTransGen.single (.begin hload)).tail (.read rfl rawData)).tail
    (.uncompress rfl h)

end Loads

/-- A profile of which only the time is set. -/
def taken (time : Int64) : DecodedProfile := { DecodedProfile.new with timeNanos := time }

theorem decode_taken (text : List UInt8 → Option String) :
    DecodedProfile.decode text [0x48, 1] = .ok (taken 1) ∧
      DecodedProfile.decode text [0x48, 2] = .ok (taken 2) := by
  have hfirst : readField [0x48, 1] 0 = .ok (some ⟨9, .varint, [1], 2⟩) := rfl
  have hsecond : readField [0x48, 2] 0 = .ok (some ⟨9, .varint, [2], 2⟩) := rfl
  unfold DecodedProfile.decode decodeProtobuf
  rw [decodeProtobufFrom_visit (by decide) hfirst, decodeProtobufFrom_visit (by decide) hsecond]
  exact ⟨decodeProtobufFrom_done (Nat.le_refl 2), decodeProtobufFrom_done (Nat.le_refl 2)⟩

namespace ProfileViewModel

variable {D : Type} {P : Platform D} (time : Int64)

theorem convertProfile_taken (options : ConversionOptions) :
    ∃ result, convertProfile P.canon (taken time) options = .ok result := by
  unfold convertProfile selectedHeapOf
  cases options.heapDomain with
  | none => exact ⟨_, rfl⟩
  | some domain => exact ⟨_, rfl⟩

abbrev StaysTaken (t : ProfileViewModel D) : Prop := t.decodedProfile = some (taken time)

variable {s : ProfileViewModel D} (h : StaysTaken time s)
include h

theorem recompute_taken : Returns (StaysTaken time) (s.recompute P (taken time)) := by
  obtain ⟨result, hresult⟩ := convertProfile_taken (P := P) time s.options
  exact ⟨s.apply result, by rw [recompute, hresult]; rfl, h⟩

theorem refilter_taken : Returns (StaysTaken time) (s.refilter P) := by
  unfold refilter
  rw [h]
  exact recompute_taken (s := s.invalidateLivePresentation) time h

theorem rebuildTimeline_taken (resetSelection : Bool) :
    Returns (StaysTaken time) (s.rebuildTimeline P (taken time) resetSelection) := ⟨_, rfl, h⟩

theorem reselect_taken : Returns (StaysTaken time) (s.reselect P) := by
  unfold reselect
  rw [h]
  exact (rebuildTimeline_taken (s := s.invalidateLivePresentation) time h false).bind
    fun t ht => recompute_taken time ht

theorem updateHeapMetadata_taken :
    Returns (StaysTaken time) (s.updateHeapMetadata P (taken time)) := by
  have hheaps : heapDomains P.canon (taken time) = .ok (sortedSet P.canon []) := rfl
  have hcomments : (taken time).comments.mapM (taken time).string = .ok [] := rfl
  unfold updateHeapMetadata
  rw [hheaps, ok_bind, hcomments, ok_bind]
  dsimp only
  split_ifs
  · exact refilter_taken (s := { s with
      availableHeaps := sortedSet P.canon []
      hasNegativeValues := (taken time).hasNegativeValues
      profileComments := []
      selectedHeap := (sortedSet P.canon []).head? }) time h
  · exact .of_ok h

omit h in
theorem fileLoaded_taken (s : ProfileViewModel D) (url : String) :
    Returns (StaysTaken time) (s.fileLoaded P url (.ok (taken time))) := by
  have htypes : (taken time).valueTypeNames = .ok [] := rfl
  have hpreferred : (taken time).preferredValueTypeIndex P.canon = .ok 0 := rfl
  unfold fileLoaded showFile
  dsimp only
  refine .bind ?_ fun t ht => .of_ok ht
  refine (updateHeapMetadata_taken time rfl).bind fun a ha => ?_
  refine (refilter_taken (s := { a with valueSign := .positive }) time ha).bind fun b hb => ?_
  rw [htypes, ok_bind, hpreferred, ok_bind]
  refine (reselect_taken (s := { b with
    sourceURL := some url
    availableValueTypes := []
    selectedValueTypeIndex := 0 }) time hb).bind fun c hc => ?_
  refine (reselect_taken (s := { c with selectedThread := none }) time hc).bind fun d hd => ?_
  exact (rebuildTimeline_taken time hd true).bind fun e he => recompute_taken time he

end ProfileViewModel

namespace Loads

/-- Nothing is compressed, and no string is read. -/
def files : Readers where
  decompressGzip _ := .error "not a gzip file"
  text _ := none

def bothRead : Loads ℚ where
  viewModel := (initial.loadFile "a.pb").loadFile "b.pb"
  requested := 2
  suspended := [⟨0, "a.pb", .profile [0x48, 1]⟩, ⟨1, "b.pb", .profile [0x48, 2]⟩]
  finished := []
  failed := []

theorem selectArtifact (url : String) :
    (⟨none, some url, none⟩ : SelectedSession).select = some (.loadFile url) := rfl

theorem run_bothRead : Run plain files (start initial) bothRead := by
  have hfirst : Run plain files (start initial)
      { start initial with
        requested := 2
        suspended := [⟨0, "a.pb", .turn⟩, ⟨1, "b.pb", .turn⟩] } :=
    (Relation.ReflTransGen.single (.select (selectArtifact "a.pb") rfl)).tail
      (.select (selectArtifact "b.pb") rfl)
  have ha := hfirst.trans (run_to_decode [] [⟨1, "b.pb", .turn⟩] rfl
    (show files.uncompress [0x48, 1] = .ok [0x48, 1] from rfl))
  exact ha.trans (run_to_decode [⟨0, "a.pb", .profile [0x48, 1]⟩] [] rfl
    (show files.uncompress [0x48, 2] = .ok [0x48, 2] from rfl))

theorem exists_finish {s : Loads ℚ} (before after : List FileLoad) {id : ℕ} {url : String}
    {uncompressed : List UInt8} {time : Int64}
    (hload : s.suspended = before ++ ⟨id, url, .profile uncompressed⟩ :: after)
    (hprofile : DecodedProfile.decode files.text uncompressed = .ok (taken time))
    (htask : s.viewModel.livePresentationTask = none) :
    ∃ viewModel, Step plain files s
      { s with
        viewModel
        suspended := before ++ after
        finished := s.finished ++ [(id, ⟨some url, taken time⟩)] } ∧
      viewModel.pendingLivePresentation = none ∧ viewModel.livePresentationTask = none ∧
      viewModel.decodedProfile = some (taken time) := by
  obtain ⟨viewModel, h, htaken⟩ := fileLoaded_taken (P := plain) time s.viewModel url
  refine ⟨viewModel, .decode hload hprofile h, ?_⟩
  obtain ⟨u, hshown, h⟩ := bind_eq_ok.mp h
  cases h
  obtain ⟨v, w, x, hv, hw, hrebuilt, hshown⟩ := showFile_eq_ok hshown
  obtain ⟨timeline, -, rfl⟩ := rebuildTimeline_eq_ok hrebuilt
  obtain ⟨result, -, rfl⟩ := recompute_eq_ok hshown
  refine ⟨hw.pending, ?_, htaken⟩
  have hgeneration := hw.task.trans hv.task
  change _ = s.viewModel.livePresentationTask.map LivePresentation.generation at hgeneration
  rw [htask, Option.map_none, Option.map_eq_none_iff] at hgeneration
  exact hgeneration

/-- The files finish in the order in which they were requested. -/
theorem last_requested_held_iff_inOrder : ∃ t : Loads ℚ, Run plain files (start initial) t ∧
    Done t ∧ t.finished = [(0, ⟨some "a.pb", taken 1⟩), (1, ⟨some "b.pb", taken 2⟩)] ∧
    t.viewModel.Holds plain ⟨some "b.pb", taken 2⟩ := by
  obtain ⟨v, hfirst, -, htask, -⟩ := exists_finish (s := bothRead) [] _ rfl (decode_taken _).1 rfl
  obtain ⟨w, hsecond, hpending, htask', -⟩ := exists_finish [] []
    (s := { bothRead with
      viewModel := v
      suspended := [⟨1, "b.pb", .profile [0x48, 2]⟩]
      finished := [(0, ⟨some "a.pb", taken 1⟩)] }) rfl (decode_taken _).2 htask
  have hrun := (run_bothRead.tail hfirst).tail hsecond
  have hdone : Done { bothRead with
      viewModel := w
      suspended := []
      finished := [(0, ⟨some "a.pb", taken 1⟩), (1, ⟨some "b.pb", taken 2⟩)] } :=
    ⟨rfl, rfl, hpending, htask'⟩
  obtain ⟨last, requested, hlast, -, hrequested, hiff⟩ :=
    last_requested_held_iff ⟨rfl, rfl, rfl, rfl⟩ rfl hrun hdone (show 2 ≠ 0 by decide)
  have hmem : ((1, ⟨some "b.pb", taken 2⟩) : ℕ × Loaded) ∈
      [((0, ⟨some "a.pb", taken 1⟩) : ℕ × Loaded), (1, ⟨some "b.pb", taken 2⟩)] :=
    List.mem_cons_of_mem _ List.mem_cons_self
  obtain rfl := (hrequested _ hmem).mp rfl
  cases hlast
  exact ⟨_, hrun, hdone, rfl, hiff.mpr rfl⟩

/-- The file that was requested first finishes last, and is held. -/
theorem earlier_request_held : ∃ t : Loads ℚ, Run plain files (start initial) t ∧ Done t ∧
    t.finished = [(1, ⟨some "b.pb", taken 2⟩), (0, ⟨some "a.pb", taken 1⟩)] ∧
    t.viewModel.decodedProfile = some (taken 1) ∧
    ¬t.viewModel.Holds plain ⟨some "b.pb", taken 2⟩ := by
  obtain ⟨v, hfirst, -, htask, -⟩ := exists_finish (s := bothRead)
    [⟨0, "a.pb", .profile [0x48, 1]⟩] [] rfl (decode_taken _).2 rfl
  obtain ⟨w, hsecond, hpending, htask', hprofile⟩ := exists_finish [] []
    (s := { bothRead with
      viewModel := v
      suspended := [⟨0, "a.pb", .profile [0x48, 1]⟩]
      finished := [(1, ⟨some "b.pb", taken 2⟩)] }) rfl (decode_taken _).1 htask
  refine ⟨_, (run_bothRead.tail hfirst).tail hsecond, ⟨rfl, rfl, hpending, htask'⟩, rfl, hprofile,
    fun hholds => ?_⟩
  have hheld := (Loaded.metadata_profile hholds.metadata).1
  have htime := congrArg (Option.map DecodedProfile.timeNanos) (hprofile.symm.trans hheld)
  revert htime
  decide

end Loads

end PProfessor.ViewModel
