import PProfessor.KitDecoder
import PProfessor.ViewModelMetadata

set_option autoImplicit false

/-!
# Overlapping loads

`loadFile` in the tasks that call it, suspended at its three awaits, and `loadDecodedProfile`, in
any order on the main actor. No load knows of the others, and the one that finishes last is the
one that stays.
-/
namespace PProfessor.ViewModel
open Fallible Kit ProfileViewModel

/-- What the readers of files take from the system. -/
structure Readers where
  decompressGzip : List UInt8 → Except String (List UInt8)
  /-- `String(data:encoding: .utf8)`. -/
  text : List UInt8 → Option String

/-- `decompressGzip` where the file has the magic bytes of gzip. -/
def Readers.uncompress (R : Readers) (rawData : List UInt8) : Except String (List UInt8) :=
  if rawData.take 2 = [0x1f, 0x8b] then R.decompressGzip rawData else .ok rawData

/-- What a call of `loadFile` waits for. -/
inductive Awaiting where
  /-- The task that makes the call has not run. -/
  | turn
  | rawData
  | uncompressed (rawData : List UInt8)
  | profile (uncompressed : List UInt8)
  deriving DecidableEq, Repr

structure FileLoad where
  id : ℕ
  url : String
  awaiting : Awaiting
  deriving DecidableEq, Repr

def FileLoad.begun (load : FileLoad) : Bool := load.awaiting ≠ .turn

/-- The view model, and the loads numbered as they were requested. -/
structure Loads (D : Type) where
  viewModel : ProfileViewModel D
  requested : ℕ
  suspended : List FileLoad
  /-- In the order in which they finished. -/
  finished : List (ℕ × Loaded)
  failed : List ℕ

structure SelectedSession where
  runtime : Option DecodedProfile
  artifact : Option String
  journal : Option DecodedProfile

inductive Call where
  | loadFile (url : String)
  | loadDecodedProfile (profile : DecodedProfile) (resetTimelineSelection : Bool)

/-- `SessionCoordinator.select`. -/
def SelectedSession.select (session : SelectedSession) : Option Call :=
  match session.runtime, session.artifact, session.journal with
  | some profile, _, _ => some (.loadDecodedProfile profile true)
  | none, some url, _ => some (.loadFile url)
  | none, none, some profile => some (.loadDecodedProfile profile true)
  | none, none, none => none

namespace Loads

variable {D : Type} (P : Platform D) (R : Readers)

/-- A view model for which no load was requested yet. -/
def start (viewModel : ProfileViewModel D) : Loads D where
  viewModel
  requested := 0
  suspended := []
  finished := []
  failed := []

/-- A request: `loadFile` in a task of its own, `loadDecodedProfile` at once. -/
def request (s : Loads D) : Call → Except Trap (Loads D)
  | .loadFile url =>
    .ok { s with
      requested := s.requested + 1
      suspended := s.suspended ++ [⟨s.requested, url, .turn⟩] }
  | .loadDecodedProfile profile resetTimelineSelection => do
    let viewModel ← s.viewModel.loadDecodedProfile P profile resetTimelineSelection
    return { s with
      viewModel
      requested := s.requested + 1
      finished := s.finished ++ [(s.requested, ⟨none, profile⟩)] }

/-- The main actor handles a request, from a selection or for what has arrived or is imported, lets
a call run to its next await, or takes a presentation. -/
inductive Step (s : Loads D) : Loads D → Prop where
  | select {session : SelectedSession} {call : Call} {t : Loads D}
      (hcall : session.select = some call) (h : s.request P call = .ok t) : Step s t
  | request {call : Call} {t : Loads D} (h : s.request P call = .ok t) : Step s t
  | begin {before after : List FileLoad} {id : ℕ} {url : String}
      (hload : s.suspended = before ++ ⟨id, url, .turn⟩ :: after) : Step s
      { s with
        viewModel := s.viewModel.loadFile url
        suspended := before ++ ⟨id, url, .rawData⟩ :: after }
  | read {before after : List FileLoad} {id : ℕ} {url : String}
      (hload : s.suspended = before ++ ⟨id, url, .rawData⟩ :: after) (rawData : List UInt8) : Step s
      { s with suspended := before ++ ⟨id, url, .uncompressed rawData⟩ :: after }
  | uncompress {before after : List FileLoad} {id : ℕ} {url : String}
      {rawData uncompressed : List UInt8}
      (hload : s.suspended = before ++ ⟨id, url, .uncompressed rawData⟩ :: after)
      (h : R.uncompress rawData = .ok uncompressed) : Step s
      { s with suspended := before ++ ⟨id, url, .profile uncompressed⟩ :: after }
  | decode {before after : List FileLoad} {id : ℕ} {url : String} {uncompressed : List UInt8}
      {profile : DecodedProfile} {t : ProfileViewModel D}
      (hload : s.suspended = before ++ ⟨id, url, .profile uncompressed⟩ :: after)
      (hprofile : DecodedProfile.decode R.text uncompressed = .ok profile)
      (h : s.viewModel.fileLoaded P url (.ok profile) = .ok t) : Step s
      { s with
        viewModel := t
        suspended := before ++ after
        finished := s.finished ++ [(id, ⟨some url, profile⟩)] }
  | fail {before after : List FileLoad} {load : FileLoad} {message : String}
      {t : ProfileViewModel D} (hload : s.suspended = before ++ load :: after)
      (hmessage : load.awaiting = .rawData ∨ ∃ rawData, load.awaiting = .uncompressed rawData ∧
        R.uncompress rawData = .error message)
      (h : s.viewModel.fileLoaded P load.url (.error message) = .ok t) : Step s
      { s with
        viewModel := t
        suspended := before ++ after
        failed := load.id :: s.failed }
  | presented {task : LivePresentation} {presentation : ProfilePresentation D}
      (htask : s.viewModel.livePresentationTask = some task)
      (h : task.presentation P = .ok presentation) : Step s
      { s with viewModel := s.viewModel.presented task presentation }

/-- Any number of steps. -/
abbrev Run : Loads D → Loads D → Prop := Relation.ReflTransGen (Step P R)

/-- Every load has finished without error, and so has what it started. -/
structure Done (s : Loads D) : Prop where
  suspended : s.suspended = []
  failed : s.failed = []
  presented : s.viewModel.pendingLivePresentation = none ∧ s.viewModel.livePresentationTask = none

variable {P : Platform D} {R : Readers} {s t : Loads D}

/-- The calls in `loads` that have begun, by their files. -/
def begunUrls (loads : List FileLoad) : List String :=
  (loads.filter FileLoad.begun).map FileLoad.url

/-- Every load has finished, failed or is suspended, and those that have begun are the calls that
the view model waits for. -/
structure Accounted (s : Loads D) : Prop where
  ids : (s.finished.map Prod.fst ++ (s.failed ++ s.suspended.map FileLoad.id)).Perm
    (List.range s.requested)
  urls : s.viewModel.fileLoads.Perm (begunUrls s.suspended)

theorem begunUrls_append (loads loads' : List FileLoad) :
    begunUrls (loads ++ loads') = begunUrls loads ++ begunUrls loads' := by
  rw [begunUrls, List.filter_append, List.map_append]
  rfl

theorem begunUrls_middle (before after : List FileLoad) (load : FileLoad) :
    (begunUrls (before ++ load :: after)).Perm
      (begunUrls [load] ++ begunUrls (before ++ after)) := by
  rw [← begunUrls_append]
  exact (List.perm_middle.filter FileLoad.begun).map FileLoad.url

theorem Accounted.start {viewModel : ProfileViewModel D} (h : viewModel.fileLoads = []) :
    Accounted (Loads.start viewModel) :=
  ⟨.refl [], by rw [Loads.start, h]; exact .refl []⟩

theorem begun_of_fails {load : FileLoad} {message : String}
    (h : load.awaiting = .rawData ∨ ∃ rawData, load.awaiting = .uncompressed rawData ∧
      R.uncompress rawData = .error message) : load.begun = true := by
  unfold FileLoad.begun
  obtain hraw | ⟨rawData, hraw, -⟩ := h
  · rw [hraw]
    rfl
  · rw [hraw]
    rfl

theorem Accounted.resume (h : Accounted s) {before after : List FileLoad} {load : FileLoad}
    (load' : FileLoad) (hload : s.suspended = before ++ load :: after) (hid : load'.id = load.id)
    {viewModel : ProfileViewModel D}
    (hurls : viewModel.fileLoads.Perm (begunUrls [load'] ++ begunUrls (before ++ after))) :
    Accounted { s with
      viewModel
      suspended := before ++ load' :: after } := by
  refine ⟨?_, hurls.trans (begunUrls_middle before after load').symm⟩
  have hids := h.ids
  rw [hload] at hids
  simpa [hid] using hids

theorem Accounted.urls_of_load (h : Accounted s) {before after : List FileLoad} {load : FileLoad}
    (hload : s.suspended = before ++ load :: after) :
    s.viewModel.fileLoads.Perm (begunUrls [load] ++ begunUrls (before ++ after)) := by
  refine .trans ?_ (begunUrls_middle before after load)
  rw [← hload]
  exact h.urls

theorem Accounted.urls_of_end (h : Accounted s) {before after : List FileLoad} {load : FileLoad}
    (hload : s.suspended = before ++ load :: after) (hbegun : load.begun = true) :
    (s.viewModel.fileLoads.erase load.url).Perm (begunUrls (before ++ after)) := by
  have hurls := h.urls_of_load hload
  rw [begunUrls, List.filter_cons_of_pos hbegun] at hurls
  have herase := hurls.erase load.url
  rwa [List.filter_nil, List.map_cons, List.map_nil, List.singleton_append,
    List.erase_cons_head] at herase

theorem request_eq_ok {call : Call} (h : s.request P call = .ok t) :
    (∃ url, t = { s with
      requested := s.requested + 1
      suspended := s.suspended ++ [⟨s.requested, url, .turn⟩] }) ∨
    ∃ profile resetTimelineSelection viewModel,
      s.viewModel.loadDecodedProfile P profile resetTimelineSelection = .ok viewModel ∧
      t = { s with
        viewModel
        requested := s.requested + 1
        finished := s.finished ++ [(s.requested, ⟨none, profile⟩)] } := by
  cases call with
  | loadFile url =>
    cases h
    exact .inl ⟨url, rfl⟩
  | loadDecodedProfile profile resetTimelineSelection =>
    obtain ⟨viewModel, hviewModel, h⟩ := bind_eq_ok.mp h
    cases h
    exact .inr ⟨profile, resetTimelineSelection, viewModel, hviewModel, rfl⟩

theorem Accounted.request {call : Call} (h : Accounted s) (ht : s.request P call = .ok t) :
    Accounted t := by
  obtain ⟨url, rfl⟩ | ⟨profile, resetTimelineSelection, viewModel, hlive, rfl⟩ := request_eq_ok ht
  · refine ⟨?_, ?_⟩
    · have hids := h.ids.append_right [s.requested]
      rw [List.range_succ]
      simpa using hids
    · change s.viewModel.fileLoads.Perm (begunUrls (s.suspended ++ [⟨s.requested, url, .turn⟩]))
      rw [begunUrls_append]
      simpa [begunUrls, FileLoad.begun] using h.urls
  · refine ⟨?_, (loadDecodedProfile_metadata hlive).2 ▸ h.urls⟩
    have hids := h.ids.append_right [s.requested]
    rw [List.range_succ, List.map_append, List.append_assoc]
    refine .trans (.append_left _ List.perm_append_comm) ?_
    simpa using hids

theorem Accounted.step (h : Accounted s) (hstep : Step P R s t) : Accounted t := by
  cases hstep with
  | select hcall ht => exact h.request ht
  | request ht => exact h.request ht
  | @begin before after id url hload =>
    exact h.resume ⟨id, url, .rawData⟩ hload rfl ((h.urls_of_load hload).cons url)
  | @read before after id url hload rawData =>
    have hurls := h.urls_of_load hload
    exact h.resume ⟨id, url, .uncompressed rawData⟩ hload rfl hurls
  | @uncompress before after id url rawData uncompressed hload hdata =>
    have hurls := h.urls_of_load hload
    exact h.resume ⟨id, url, .profile uncompressed⟩ hload rfl hurls
  | @decode before after id url uncompressed profile t hload hprofile ht =>
    have hids := h.ids
    rw [hload] at hids
    refine ⟨.trans ?_ hids, (fileLoaded_metadata ht).2 ▸ h.urls_of_end hload rfl⟩
    rw [List.perm_iff_count]
    intro i
    simp only [List.map_append, List.map_cons, List.map_nil, List.count_append, List.count_cons,
      List.count_nil]
    omega
  | @fail before after load message t hload hmessage ht =>
    have hids := h.ids
    rw [hload] at hids
    cases ht
    refine ⟨.trans ?_ hids, h.urls_of_end hload (begun_of_fails hmessage)⟩
    rw [List.perm_iff_count]
    intro i
    simp only [List.map_append, List.map_cons, List.cons_append, List.count_append, List.count_cons]
    omega
  | presented htask ht =>
    have hkeeps := presented_keeps s.viewModel
    exact ⟨h.ids, (hkeeps _ _).fileLoads ▸ h.urls⟩

theorem Step.refines (h : Accounted s) (hstep : Step P R s t) :
    t.viewModel = s.viewModel ∨ ∃ e, ViewModel.Step P s.viewModel e t.viewModel := by
  have hwaits {before after : List FileLoad} {load : FileLoad}
      (hload : s.suspended = before ++ load :: after) (hbegun : load.begun = true) :
      load.url ∈ s.viewModel.fileLoads := by
    rw [(h.urls_of_load hload).mem_iff, begunUrls, List.filter_cons_of_pos hbegun]
    exact List.mem_cons_self
  have hrequest {call : Call} (ht : s.request P call = .ok t) :
      t.viewModel = s.viewModel ∨ ∃ e, ViewModel.Step P s.viewModel e t.viewModel := by
    obtain ⟨url, rfl⟩ | ⟨profile, resetTimelineSelection, viewModel, hlive, rfl⟩ := request_eq_ok ht
    · exact .inl rfl
    · exact .inr ⟨_, .loadDecodedProfile hlive⟩
  cases hstep with
  | select hcall ht => exact hrequest ht
  | request ht => exact hrequest ht
  | begin hload => exact .inr ⟨_, .loadFile _⟩
  | read hload rawData => exact .inl rfl
  | uncompress hload hdata => exact .inl rfl
  | decode hload hprofile ht => exact .inr ⟨_, .fileLoaded (hwaits hload rfl) ht⟩
  | @fail before after load message t hload hmessage ht =>
    exact .inr ⟨_, .fileLoaded (hwaits hload (begun_of_fails hmessage)) ht⟩
  | presented htask ht => exact .inr ⟨_, .presented htask ht⟩

theorem Accounted.run (h : Accounted s) (hrun : Run P R s t) : Accounted t := by
  induction hrun with
  | refl => exact h
  | tail _ hstep ih => exact ih.step hstep

theorem Run.refines (h : Accounted s) (hrun : Run P R s t) :
    ∃ passed, ViewModel.Run P (fun _ _ => True) s.viewModel passed t.viewModel := by
  induction hrun with
  | refl => exact ⟨[], .nil⟩
  | tail hbefore hstep ih =>
    obtain ⟨passed, hpassed⟩ := ih
    obtain hsame | ⟨e, he⟩ := hstep.refines (h.run hbefore)
    · exact ⟨passed, hsame ▸ hpassed⟩
    · exact ⟨_, hpassed.snoc he trivial⟩

end Loads

end PProfessor.ViewModel
