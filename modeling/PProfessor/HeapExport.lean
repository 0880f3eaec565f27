import PProfessor.HeapTracker
import PProfessor.HeapValidation

set_option autoImplicit false

/-!
# From a heap profile to pprof

`HeapProfile::to_pprof` of `src/heap/mod.rs`. The ordered maps keyed by
references are keyed by what they refer to.
-/
namespace PProfessor.Heap
open Pprof

inductive ExportError where
  | emptyDomain
  /-- `duration_since(UNIX_EPOCH)`. -/
  | beforeEpoch
  /-- The nanoseconds do not fit `i64`. -/
  | timeRange
  deriving DecidableEq, Repr

def ExportError.message : ExportError → String
  | .emptyDomain => "heap domain must not be empty"
  | .beforeEpoch => "second time provided was later than self"
  | .timeRange => "out of range integral type conversion attempted"

def heapMetrics : List (String × String) :=
  [("alloc_objects", "count"), ("alloc_space", "bytes"), ("inuse_objects", "count"),
    ("inuse_space", "bytes")]

def pushValueTypes (metrics : List (String × String)) (p : PprofProfile) : PprofProfile :=
  metrics.foldl (fun p metric =>
    let (type, strings) := p.strings.intern metric.1
    let (unit, strings) := strings.intern metric.2
    { p with strings := strings, valueTypes := p.valueTypes ++ [⟨type, unit⟩] }) p

structure ImageFlags where
  functions : Bool
  files : Bool
  lines : Bool
  deriving DecidableEq, Repr

instance : Inhabited ImageFlags := ⟨⟨false, false, false⟩⟩

def imageFlags (frames : List HeapFrame) : Std.ExtTreeMap HeapMapping ImageFlags :=
  frames.foldl (fun flags frame =>
    match frame.mapping with
    | none => flags
    | some image =>
      let known := flags[image]?.getD default
      flags.insert image
        { functions := known.functions || frame.function ≠ ""
          files := known.files || frame.file ≠ ""
          lines := known.lines || frame.line ≠ 0 }) ∅

structure ImageTable where
  mappings : Std.ExtTreeMap HeapMapping UInt64
  p : PprofProfile

def pushImage (t : ImageTable) (entry : HeapMapping × ImageFlags) : ImageTable :=
  let (image, flags) := entry
  let id := UInt64.ofNat (t.p.mappings.length + 1)
  let (filename, strings) := t.p.strings.intern image.filename
  let (buildId, strings) := strings.intern image.buildId
  let mapping : Mapping :=
    { id := id
      memoryStart := image.memoryStart
      memoryLimit := image.memoryLimit
      fileOffset := image.fileOffset
      filename := filename
      buildId := buildId
      hasFunctions := flags.functions
      hasFilenames := flags.files
      hasLineNumbers := flags.lines
      hasInlineFrames := false }
  { mappings := t.mappings.insert image id
    p := { t.p with strings := strings, mappings := t.p.mappings ++ [mapping] } }

/-- `format!("0x{:016x}")` where a frame has no function name. -/
def frameName (frame : HeapFrame) : String :=
  if frame.function = "" then
    "0x" ++ String.ofList (List.leftpad 16 '0' (Nat.toDigits 16 frame.address.toNat))
  else frame.function

structure FrameTable where
  frames : Std.ExtTreeMap HeapFrame UInt64
  p : PprofProfile

def mappingIdOf (mappings : Std.ExtTreeMap HeapMapping UInt64) (frame : HeapFrame) : UInt64 :=
  (frame.mapping.bind fun image => mappings[image]?).getD 0

/-- `frames.entry(frame).or_insert_with(..)`. -/
def frameId (mappings : Std.ExtTreeMap HeapMapping UInt64) (frame : HeapFrame) (t : FrameTable) :
    UInt64 × FrameTable :=
  match t.frames[frame]? with
  | some id => (id, t)
  | none =>
    let id := UInt64.ofNat (t.p.functions.length + 1)
    let (name, strings) := t.p.strings.intern (frameName frame)
    let (filename, strings) := strings.intern frame.file
    let function : Pprof.Function :=
      { id := id, name := name, systemName := name, filename := filename, startLine := 0 }
    let location : Location :=
      { id := id
        mappingId := mappingIdOf mappings frame
        address := frame.address
        lines := [⟨id, frame.line, 0⟩]
        isFolded := false }
    (id,
      { frames := t.frames.insert frame id
        p := { t.p with
          strings := strings
          functions := t.p.functions ++ [function]
          locations := t.p.locations ++ [location] } })

def frameIds (mappings : Std.ExtTreeMap HeapMapping UInt64) :
    Stack → FrameTable → List UInt64 × FrameTable
  | [], t => ([], t)
  | frame :: rest, t =>
    let (id, t) := frameId mappings frame t
    let (ids, t) := frameIds mappings rest t
    (id :: ids, t)

def HeapValues.values (v : HeapValues) : List UInt64 :=
  [v.allocObjects, v.allocSpace, v.inuseObjects, v.inuseSpace]

def pushStack (mappings : Std.ExtTreeMap HeapMapping UInt64) (label : Label) (t : FrameTable)
    (entry : Stack × HeapValues) : FrameTable :=
  let (ids, t) := frameIds mappings entry.1 t
  let sample : Sample :=
    { locationIds := ids, values := entry.2.values.map UInt64.toInt64, labels := [label] }
  { t with p := { t.p with samples := t.p.samples ++ [sample] } }

def startExport (h : HeapProfile) (timeNanos : Int64) : PprofProfile × Label :=
  let p := pushValueTypes heapMetrics PprofProfile.new
  let (defaultSampleType, strings) := p.strings.intern "inuse_space"
  let (key, strings) := strings.intern "heap"
  let (strIndex, strings) := strings.intern h.domain
  let (comments, strings) :=
    if h.comment = "" then ([], strings)
    else
      let (comment, strings) := strings.intern h.comment
      ([comment], strings)
  ({ p with
      strings := strings
      defaultSampleType := defaultSampleType
      timeNanos := timeNanos
      comments := comments },
    { (default : Label) with key := key, strIndex := strIndex })

/-- `self.samples.keys().flatten()`. -/
def framesOf (samples : Std.ExtTreeMap Stack HeapValues) : List HeapFrame :=
  (samples.toList.map Prod.fst).flatten

def pushImages (samples : Std.ExtTreeMap Stack HeapValues) (p : PprofProfile) : ImageTable :=
  (imageFlags (framesOf samples)).toList.foldl pushImage ⟨∅, p⟩

def pushStacks (samples : Std.ExtTreeMap Stack HeapValues) (label : Label) (p : PprofProfile) :
    FrameTable :=
  let images := pushImages samples p
  samples.toList.foldl (pushStack images.mappings label) ⟨∅, images.p⟩

def pushSamples (samples : Std.ExtTreeMap Stack HeapValues) (label : Label) (p : PprofProfile) :
    PprofProfile :=
  let p := (pushStacks samples label p).p
  if p.samples = [] then
    { p with
      samples := [{ (default : Sample) with values := List.replicate 4 0, labels := [label] }] }
  else p

def HeapProfile.toPprof (h : HeapProfile) : Except ExportError PprofProfile := do
  if h.domain = "" then
    throw .emptyDomain
  if h.collectedAt < 0 then
    throw .beforeEpoch
  if 2 ^ 63 ≤ h.collectedAt then
    throw .timeRange
  let (p, label) := startExport h (.ofInt h.collectedAt)
  return pushSamples h.samples label p

end PProfessor.Heap
