import PProfessor.ProfileTimeline

set_option autoImplicit false

/-!
# The view model

`ProfileViewModel` on the main actor: what it shows, the tasks it has started, and every event
that the actor handles. A background task is what it captured; its result is computed when it is
delivered. A cancelled throttle or conversion returns without effect and is not kept.
-/
namespace PProfessor.ViewModel
open Kit

structure PendingLivePresentation where
  profile : DecodedProfile
  resetSelection : Bool

structure LivePresentation where
  request : PendingLivePresentation
  generation : ℕ
  valueTypeIndex : ℤ
  threadFilter : Option String
  selection : Option TimelineSelectionState
  isCancelled : Bool

def LivePresentation.presentation {D : Type} (P : Platform D) (task : LivePresentation) :
    Except Trap (ProfilePresentation D) :=
  buildProfilePresentation P task.request.profile task.valueTypeIndex task.threadFilter
    task.selection task.request.resetSelection 512

structure RangeConversion where
  profile : DecodedProfile
  generation : ℕ
  valueTypeIndex : ℤ
  threadFilter : Option String
  timeRange : Option (Int64 × Int64)

/-- The options of a range conversion; the sign and the heap domain are left at their defaults. -/
def RangeConversion.options (task : RangeConversion) : ConversionOptions where
  valueTypeIndex := task.valueTypeIndex
  threadFilter := task.threadFilter
  timeRangeNanos := task.timeRange
  valueSign := .positive
  heapDomain := none

structure ProfileViewModel (D : Type) where
  nodes : List FlamegraphNode
  nodeIndex : Std.ExtHashMap String ℕ
  rootNodeId : Option String
  totalValue : Int64
  isLoading : Bool
  error : Option String
  availableValueTypes : List (String × String)
  availableThreads : List String
  sourceURL : Option String
  timeline : Option (ProfileTimeline D)
  timelineSelection : Option TimelineSelectionState
  availableHeaps : List String
  hasNegativeValues : Bool
  profileComments : List String
  selectedHeap : Option String
  valueSign : ProfileValueSign
  selectedValueTypeIndex : ℤ
  selectedThread : Option String
  zoomedNodeId : Option String
  decodedProfile : Option DecodedProfile
  /-- Whether the throttle task sleeps. -/
  rangeThrottleTask : Bool
  rangeConversionTask : Option RangeConversion
  pendingRangeProfile : Option DecodedProfile
  recomputeGeneration : ℕ
  pendingLivePresentation : Option PendingLivePresentation
  livePresentationTask : Option LivePresentation
  livePresentationGeneration : ℕ
  /-- The calls of `loadFile` that wait for their file. -/
  fileLoads : List String

namespace ProfileViewModel

variable {D : Type} (P : Platform D)

def initial : ProfileViewModel D where
  nodes := []
  nodeIndex := ∅
  rootNodeId := none
  totalValue := 0
  isLoading := false
  error := none
  availableValueTypes := []
  availableThreads := []
  sourceURL := none
  timeline := none
  timelineSelection := none
  availableHeaps := []
  hasNegativeValues := false
  profileComments := []
  selectedHeap := none
  valueSign := .positive
  selectedValueTypeIndex := 0
  selectedThread := none
  zoomedNodeId := none
  decodedProfile := none
  rangeThrottleTask := false
  rangeConversionTask := none
  pendingRangeProfile := none
  recomputeGeneration := 0
  pendingLivePresentation := none
  livePresentationTask := none
  livePresentationGeneration := 0
  fileLoads := []

def options (s : ProfileViewModel D) : ConversionOptions where
  valueTypeIndex := s.selectedValueTypeIndex
  threadFilter := s.selectedThread
  timeRangeNanos := s.timelineSelection.map TimelineSelectionState.bounds
  valueSign := s.valueSign
  heapDomain := s.selectedHeap

def apply (s : ProfileViewModel D) (result : ProfileConversionResult) : ProfileViewModel D :=
  { s with
    nodes := result.nodes
    nodeIndex := result.nodeIndex
    rootNodeId := result.rootNodeId
    totalValue := result.totalValue
    availableThreads := result.availableThreads }

def recompute (s : ProfileViewModel D) (profile : DecodedProfile) :
    Except Trap (ProfileViewModel D) := do
  let result ← convertProfile P.canon profile s.options
  return s.apply result

def startNextLivePresentationIfNeeded (s : ProfileViewModel D) : ProfileViewModel D :=
  match s.livePresentationTask, s.pendingLivePresentation with
  | none, some request =>
    { s with
      pendingLivePresentation := none
      livePresentationTask := some {
        request
        generation := s.livePresentationGeneration
        valueTypeIndex := s.selectedValueTypeIndex
        threadFilter := s.selectedThread
        selection := s.timelineSelection
        isCancelled := false } }
  | _, _ => s

def enqueueLivePresentation (s : ProfileViewModel D) (profile : DecodedProfile)
    (resetSelection : Bool) : ProfileViewModel D :=
  startNextLivePresentationIfNeeded
    { s with
      livePresentationGeneration := s.livePresentationGeneration + 1
      pendingLivePresentation := some ⟨profile, resetSelection⟩ }

def invalidateLivePresentation (s : ProfileViewModel D) : ProfileViewModel D :=
  { s with
    livePresentationGeneration := s.livePresentationGeneration + 1
    pendingLivePresentation := none
    livePresentationTask := s.livePresentationTask.map fun task =>
      { task with isCancelled := true } }

def shouldApply (s : ProfileViewModel D) (task : LivePresentation) : Bool :=
  !task.isCancelled && s.livePresentationGeneration = task.generation &&
    s.pendingLivePresentation.isNone

def presented (s : ProfileViewModel D) (task : LivePresentation)
    (presentation : ProfilePresentation D) : ProfileViewModel D :=
  let finished := { s with livePresentationTask := none }
  startNextLivePresentationIfNeeded <|
    if s.shouldApply task then
      apply
        { finished with
          timeline := presentation.timeline
          timelineSelection := presentation.timelineSelection }
        presentation.conversion
    else finished

def rebuildTimeline (s : ProfileViewModel D) (profile : DecodedProfile) (resetSelection : Bool) :
    Except Trap (ProfileViewModel D) := do
  let timeline ← ProfileTimeline.build P profile s.selectedValueTypeIndex s.selectedThread 512
  return { s with
    timeline
    timelineSelection := updatedSelection timeline s.timelineSelection resetSelection }

def refilter (s : ProfileViewModel D) : Except Trap (ProfileViewModel D) :=
  match s.decodedProfile with
  | none => .ok s
  | some profile => s.invalidateLivePresentation.recompute P profile

def reselect (s : ProfileViewModel D) : Except Trap (ProfileViewModel D) :=
  match s.decodedProfile with
  | none => .ok s
  | some profile => do
    let s ← s.invalidateLivePresentation.rebuildTimeline P profile false
    s.recompute P profile

def setSelectedHeap (s : ProfileViewModel D) (heap : Option String) :
    Except Trap (ProfileViewModel D) :=
  refilter P { s with selectedHeap := heap }

def setValueSign (s : ProfileViewModel D) (sign : ProfileValueSign) :
    Except Trap (ProfileViewModel D) :=
  refilter P { s with valueSign := sign }

def setSelectedValueTypeIndex (s : ProfileViewModel D) (index : ℤ) :
    Except Trap (ProfileViewModel D) :=
  reselect P { s with selectedValueTypeIndex := index }

def setSelectedThread (s : ProfileViewModel D) (thread : Option String) :
    Except Trap (ProfileViewModel D) :=
  reselect P { s with selectedThread := thread }

def updateHeapMetadata (s : ProfileViewModel D) (profile : DecodedProfile) :
    Except Trap (ProfileViewModel D) := do
  let heaps ← heapDomains P.canon profile
  let comments ← profile.comments.mapM profile.string
  let s := { s with
    availableHeaps := heaps
    hasNegativeValues := profile.hasNegativeValues
    profileComments := comments }
  if s.selectedHeap.all fun heap => !heaps.any (sameString P.canon heap) then
    s.setSelectedHeap P heaps.head?
  else return s

def refreshFilters (s : ProfileViewModel D) (profile : DecodedProfile) (isNewProfile : Bool) :
    Except Trap (ProfileViewModel D) :=
  if isNewProfile then do
    let s ← s.setSelectedThread P none
    let s ← s.setValueSign P .positive
    return { s with zoomedNodeId := none }
  else if !profile.hasNegativeValues && s.valueSign ≠ .positive then s.setValueSign P .positive
  else .ok s

def refreshValueTypes (s : ProfileViewModel D) (profile : DecodedProfile) (isNewProfile : Bool) :
    Except Trap (ProfileViewModel D) := do
  let types ← profile.valueTypeNames
  let s := { s with
    sourceURL := none
    availableValueTypes := types }
  if isNewProfile || !decide (0 ≤ s.selectedValueTypeIndex ∧
      s.selectedValueTypeIndex < (types.length : ℤ)) then
    let preferred ← profile.preferredValueTypeIndex P.canon
    s.setSelectedValueTypeIndex P preferred
  else return s

def loadDecodedProfile (s : ProfileViewModel D) (profile : DecodedProfile)
    (resetTimelineSelection : Bool) : Except Trap (ProfileViewModel D) := do
  let isNewProfile := s.decodedProfile.isNone || resetTimelineSelection
  let s ← updateHeapMetadata P
    { s with
      error := none
      isLoading := false
      decodedProfile := some profile } profile
  let s ← s.refreshFilters P profile isNewProfile
  let s ← s.refreshValueTypes P profile isNewProfile
  if ← isHeapProfile P.canon profile then
    recompute P
      { s.invalidateLivePresentation with
        timeline := none
        timelineSelection := none } profile
  else return s.enqueueLivePresentation profile resetTimelineSelection

/-- `loadFile` up to the reading of the file. -/
def loadFile (s : ProfileViewModel D) (url : String) : ProfileViewModel D :=
  { s.invalidateLivePresentation with
    isLoading := true
    error := none
    nodes := []
    nodeIndex := ∅
    rootNodeId := none
    decodedProfile := none
    availableValueTypes := []
    timeline := none
    timelineSelection := none
    fileLoads := url :: s.fileLoads }

/-- `loadFile` once the profile is there. -/
def showFile (s : ProfileViewModel D) (url : String) (profile : DecodedProfile) :
    Except Trap (ProfileViewModel D) := do
  let s ← updateHeapMetadata P { s with decodedProfile := some profile } profile
  let s ← s.setValueSign P .positive
  let types ← profile.valueTypeNames
  let preferred ← profile.preferredValueTypeIndex P.canon
  let s ← setSelectedValueTypeIndex P
    { s with
      sourceURL := some url
      availableValueTypes := types } preferred
  let s ← s.setSelectedThread P none
  let s ← s.rebuildTimeline P profile true
  s.recompute P profile

/-- The end of `loadFile`: the decoded file, or what went wrong. -/
def fileLoaded (s : ProfileViewModel D) (url : String) :
    Except String DecodedProfile → Except Trap (ProfileViewModel D)
  | .error message =>
    .ok { s with
      error := some message
      isLoading := false
      fileLoads := s.fileLoads.erase url }
  | .ok profile => do
    let s ← showFile P { s with fileLoads := s.fileLoads.erase url } url profile
    return { s with isLoading := false }

def launchRangeRecompute (s : ProfileViewModel D) (profile : DecodedProfile) (generation : ℕ) :
    ProfileViewModel D :=
  { s with
    rangeConversionTask := some {
      profile
      generation
      valueTypeIndex := s.selectedValueTypeIndex
      threadFilter := s.selectedThread
      timeRange := s.timelineSelection.map TimelineSelectionState.bounds } }

def scheduleRecompute (s : ProfileViewModel D) (profile : DecodedProfile) (delayNanos : ℕ) :
    ProfileViewModel D :=
  let s := { s with
    recomputeGeneration := s.recomputeGeneration + 1
    pendingRangeProfile := some profile }
  if delayNanos = 0 then
    launchRangeRecompute { s with rangeThrottleTask := false } profile s.recomputeGeneration
  else { s with rangeThrottleTask := true }

def throttleElapsed (s : ProfileViewModel D) : ProfileViewModel D :=
  match s.pendingRangeProfile with
  | none => s
  | some latestProfile =>
    launchRangeRecompute { s with rangeThrottleTask := false } latestProfile s.recomputeGeneration

def rangeConverted (s : ProfileViewModel D) (task : RangeConversion)
    (result : ProfileConversionResult) : ProfileViewModel D :=
  let finished := { s with rangeConversionTask := none }
  if s.recomputeGeneration = task.generation then finished.apply result else finished

/-- `none` where building the range traps. -/
def selectTimeRange (s : ProfileViewModel D) (range : ClosedRange) (isDragging : Bool) :
    Option (ProfileViewModel D) :=
  match s.timelineSelection, s.decodedProfile with
  | some selection, some profile => do
    let selection ← selection.select range
    return scheduleRecompute { s with timelineSelection := some selection } profile
      (if isDragging then 100000000 else 0)
  | _, _ => some s

def resetTimeRange (s : ProfileViewModel D) : ProfileViewModel D :=
  match s.timelineSelection, s.timeline, s.decodedProfile with
  | some selection, some timeline, some profile =>
    scheduleRecompute
      { s with timelineSelection := some (selection.reset timeline.durationNanos) } profile 0
  | _, _, _ => s

end ProfileViewModel

inductive Event where
  | loadDecodedProfile (profile : DecodedProfile) (resetTimelineSelection : Bool)
  | loadFile (url : String)
  | fileLoaded (url : String) (file : Except String DecodedProfile)
  | setSelectedHeap (heap : Option String)
  | setValueSign (sign : ProfileValueSign)
  | setSelectedValueTypeIndex (index : ℤ)
  | setSelectedThread (thread : Option String)
  | setZoomedNodeId (node : Option String)
  | selectTimeRange (range : ClosedRange) (isDragging : Bool)
  | resetTimeRange
  | throttleElapsed
  | rangeConverted
  | presented

open ProfileViewModel in
/-- The actor handles one event without a trap. -/
inductive Step {D : Type} (P : Platform D) (s : ProfileViewModel D) :
    Event → ProfileViewModel D → Prop where
  | loadDecodedProfile {profile : DecodedProfile} {resetTimelineSelection : Bool}
      {t : ProfileViewModel D}
      (h : s.loadDecodedProfile P profile resetTimelineSelection = .ok t) :
      Step P s (.loadDecodedProfile profile resetTimelineSelection) t
  | loadFile (url : String) : Step P s (.loadFile url) (s.loadFile url)
  | fileLoaded {url : String} {file : Except String DecodedProfile} {t : ProfileViewModel D}
      (hurl : url ∈ s.fileLoads) (h : s.fileLoaded P url file = .ok t) :
      Step P s (.fileLoaded url file) t
  | setSelectedHeap {heap : Option String} {t : ProfileViewModel D}
      (h : s.setSelectedHeap P heap = .ok t) : Step P s (.setSelectedHeap heap) t
  | setValueSign {sign : ProfileValueSign} {t : ProfileViewModel D}
      (h : s.setValueSign P sign = .ok t) : Step P s (.setValueSign sign) t
  | setSelectedValueTypeIndex {index : ℤ} {t : ProfileViewModel D}
      (h : s.setSelectedValueTypeIndex P index = .ok t) :
      Step P s (.setSelectedValueTypeIndex index) t
  | setSelectedThread {thread : Option String} {t : ProfileViewModel D}
      (h : s.setSelectedThread P thread = .ok t) : Step P s (.setSelectedThread thread) t
  | setZoomedNodeId (node : Option String) :
      Step P s (.setZoomedNodeId node) { s with zoomedNodeId := node }
  | selectTimeRange {range : ClosedRange} {isDragging : Bool} {t : ProfileViewModel D}
      (h : s.selectTimeRange range isDragging = some t) :
      Step P s (.selectTimeRange range isDragging) t
  | resetTimeRange : Step P s .resetTimeRange s.resetTimeRange
  | throttleElapsed (h : s.rangeThrottleTask = true) :
      Step P s .throttleElapsed s.throttleElapsed
  | rangeConverted {task : RangeConversion} {result : ProfileConversionResult}
      (htask : s.rangeConversionTask = some task)
      (h : convertProfile P.canon task.profile task.options = .ok result) :
      Step P s .rangeConverted (s.rangeConverted task result)
  | presented {task : LivePresentation} {presentation : ProfilePresentation D}
      (htask : s.livePresentationTask = some task)
      (h : task.presentation P = .ok presentation) :
      Step P s .presented (s.presented task presentation)

/-- A run from `s`, with the states it passes, whose steps all meet `C`. -/
inductive Run {D : Type} (P : Platform D) (C : ProfileViewModel D → Event → Prop)
    (s : ProfileViewModel D) : List (ProfileViewModel D) → ProfileViewModel D → Prop where
  | nil : Run P C s [] s
  | snoc {passed : List (ProfileViewModel D)} {t u : ProfileViewModel D} {e : Event}
      (h : Run P C s passed t) (hstep : Step P t e u) (he : C t e) : Run P C s (passed ++ [u]) u

end PProfessor.ViewModel
