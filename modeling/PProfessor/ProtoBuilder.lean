import PProfessor.CheckedArith
import PProfessor.NumberedTable
import PProfessor.PprofRoundTrip
import PProfessor.Symbolicated

set_option autoImplicit false

/-!
# From a symbolicated profile to pprof

`build_proto` of `src/encode.rs`. The length of a file on disk is the parameter
`fileLen`; a division by zero stops the program.
-/
namespace PProfessor.Capture
open CheckedArith NumberedTable Pprof

inductive Panic where
  | divideByZero
  deriving DecidableEq, Repr

structure LabelNames where
  threadId : UInt64
  threadName : UInt64
  timestamp : UInt64
  nanoseconds : UInt64

/-- The locals of `build_proto` that its loop over the samples changes. -/
structure Builder where
  enc : PprofProfile
  funcIdMap : Std.ExtHashMap UInt64 UInt64
  locIdMap : Std.ExtHashMap UInt64 UInt64

def startProfile (profile : SymbolicatedProfile) (periodNs : Int64) :
    PprofProfile × LabelNames :=
  let (sSamples, strings) := StringTable.new.intern "samples"
  let (sCount, strings) := strings.intern "count"
  let (sWall, strings) := strings.intern "wall"
  let (sNanoseconds, strings) := strings.intern "nanoseconds"
  let (sThreadId, strings) := strings.intern "thread_id"
  let (sThreadName, strings) := strings.intern "thread_name"
  let (sTimestamp, strings) := strings.intern "pprofessor::timestamp"
  let (sNanosecondsLabel, strings) := strings.intern "nanoseconds"
  ({ PprofProfile.withStrings strings with
      valueTypes := [⟨sSamples, sCount⟩, ⟨sWall, sNanoseconds⟩]
      periodType := ⟨sWall, sNanoseconds⟩
      period := periodNs
      durationNanos := Int64.ofNat profile.duration
      timeNanos := Int64.ofNat profile.startTime.toNat },
    ⟨sThreadId, sThreadName, sTimestamp, sNanosecondsLabel⟩)

/-- The end of an image: the next image, the end of its file, or one byte. -/
def memoryLimit (fileLen : String → Option UInt64) (image : LoadedImage) (rest : List LoadedImage) :
    UInt64 :=
  match rest.head? with
  | some next => next.loadAddress
  | none =>
    match fileLen image.path with
    | some len => saturatingAddU64 image.loadAddress len
    | none => saturatingAddU64 image.loadAddress 1

/-- The mapping of the image at position `index`. -/
def imageMapping (fileLen : String → Option UInt64) (image : LoadedImage)
    (rest : List LoadedImage) (index : ℕ) (filename : UInt64) : Mapping :=
  { (default : Mapping) with
    id := UInt64.ofNat (index + 1)
    memoryStart := image.loadAddress
    memoryLimit := memoryLimit fileLen image rest
    filename := filename }

/-- The loop over the sorted images, from position `index` on. -/
def pushMappings (fileLen : String → Option UInt64) :
    List LoadedImage → ℕ → PprofProfile → PprofProfile
  | [], _, enc => enc
  | image :: rest, index, enc =>
    let (filename, strings) := enc.strings.intern image.path
    let mapping := imageMapping fileLen image rest index filename
    pushMappings fileLen rest (index + 1)
      { enc with strings := strings, mappings := enc.mappings ++ [mapping] }

/-- `func_id_map.entry(addr).or_insert_with(..)`. -/
def functionFor (addr : UInt64) (frame : StackFrame) (b : Builder) : UInt64 × Builder :=
  match b.funcIdMap[addr]? with
  | some id => (id, b)
  | none =>
    let fid := UInt64.ofNat (b.enc.functions.length + 1)
    let (nameIdx, strings) := b.enc.strings.intern frame.function
    let (fileIdx, strings) := strings.intern frame.file
    let function : Pprof.Function :=
      { id := fid, name := nameIdx, systemName := nameIdx, filename := fileIdx, startLine := 0 }
    (fid,
      { b with
        enc := { b.enc with strings := strings, functions := b.enc.functions ++ [function] }
        funcIdMap := b.funcIdMap.insert addr fid })

/-- `images.partition_point(|image| image.load_address <= addr)`. -/
def mappingFor (images : List LoadedImage) (addr : UInt64) : UInt64 :=
  UInt64.ofNat (images.takeWhile fun image => image.loadAddress ≤ addr).length

/-- `loc_id_map.entry(addr).or_insert_with(..)`. -/
def locationFor (images : List LoadedImage) (addr : UInt64) (frame : StackFrame) (b : Builder) :
    UInt64 × Builder :=
  match b.locIdMap[addr]? with
  | some id => (id, b)
  | none =>
    let (funcId, b) := functionFor addr frame b
    let lid := UInt64.ofNat (b.enc.locations.length + 1)
    let location : Location :=
      { id := lid
        mappingId := mappingFor images addr
        address := addr
        lines := [⟨funcId, Int64.ofNat frame.line.toNat, 0⟩]
        isFolded := false }
    (lid,
      { b with
        enc := { b.enc with locations := b.enc.locations ++ [location] }
        locIdMap := b.locIdMap.insert addr lid })

/-- The loop over the addresses of a stack. -/
def locationIds (images : List LoadedImage) (frames : Std.ExtHashMap UInt64 StackFrame) :
    List UInt64 → Builder → List UInt64 × Builder
  | [], b => ([], b)
  | addr :: rest, b =>
    match frames[addr]? with
    | none => locationIds images frames rest b
    | some frame =>
      let (id, b) := locationFor images addr frame b
      let (ids, b) := locationIds images frames rest b
      (id :: ids, b)

/-- `min(i64::MAX as u64) as i64`. -/
def clampI64 (v : UInt64) : Int64 := (min v 0x7FFFFFFFFFFFFFFF).toInt64

def threadLabel (names : LabelNames) (s : Sample) : Label :=
  ⟨names.threadId, 0, s.threadId.toInt64, 0⟩

def timestampLabels (names : LabelNames) (s : Sample) : List Label :=
  match s.timestampNanos with
  | some t => [⟨names.timestamp, 0, clampI64 t, names.nanoseconds⟩]
  | none => []

def addSample (images : List LoadedImage) (profile : SymbolicatedProfile) (names : LabelNames)
    (periodNs : Int64) (b : Builder) (s : Sample) : Builder :=
  let (ids, b) := locationIds images profile.frames s.stack b
  if ids = [] then b
  else
    let threadName := profile.threads[s.threadId]?.getD ""
    let (nameLabels, strings) :=
      if threadName = "" then ([], b.enc.strings)
      else
        let (nameIdx, strings) := b.enc.strings.intern threadName
        ([⟨names.threadName, nameIdx, 0, 0⟩], strings)
    let count := clampI64 s.count
    let sample : Pprof.Sample :=
      { locationIds := ids
        values := [count, saturatingMulI64 count periodNs]
        labels := [threadLabel names s] ++ nameLabels ++ timestampLabels names s }
    { b with enc := { b.enc with strings := strings, samples := b.enc.samples ++ [sample] } }

/-- `1_000_000_000i64 / freq_hz as i64`. -/
def periodNanos (freqHz : UInt32) : Int64 := Int64.ofNat (1000000000 / freqHz.toNat)

def sortedImages (profile : SymbolicatedProfile) : List LoadedImage :=
  profile.images.mergeSort fun a b => a.loadAddress ≤ b.loadAddress

/-- The profile that `build_proto` encodes when the period exists. -/
def builtProfile (fileLen : String → Option UInt64) (profile : SymbolicatedProfile) :
    PprofProfile :=
  let periodNs := periodNanos profile.freqHz
  let (enc, names) := startProfile profile periodNs
  let images := sortedImages profile
  let enc := pushMappings fileLen images 0 enc
  (profile.samples.foldl (addSample images profile names periodNs) ⟨enc, ∅, ∅⟩).enc

def buildProto (fileLen : String → Option UInt64) (profile : SymbolicatedProfile) :
    Except Panic (List UInt8) :=
  if profile.freqHz = 0 then .error .divideByZero
  else .ok (builtProfile fileLen profile).encode

def exportStrings : List String :=
  ["", "samples", "count", "wall", "nanoseconds", "thread_id", "thread_name",
    "pprofessor::timestamp"]

def started (profile : SymbolicatedProfile) (periodNs : Int64) : PprofProfile :=
  { PprofProfile.withStrings (.ofStrings exportStrings) with
    valueTypes := [⟨1, 2⟩, ⟨3, 4⟩]
    periodType := ⟨3, 4⟩
    period := periodNs
    durationNanos := Int64.ofNat profile.duration
    timeNanos := Int64.ofNat profile.startTime.toNat }

theorem startProfile_eq (profile : SymbolicatedProfile) (periodNs : Int64) :
    startProfile profile periodNs = (started profile periodNs, ⟨5, 6, 7, 4⟩) := by
  have h₁ : (StringTable.ofStrings [""]).intern "samples" =
      (1, .ofStrings ["", "samples"]) := StringTable.intern_ofStrings _ _
  have h₂ : (StringTable.ofStrings ["", "samples"]).intern "count" =
      (2, .ofStrings ["", "samples", "count"]) := StringTable.intern_ofStrings _ _
  have h₃ : (StringTable.ofStrings ["", "samples", "count"]).intern "wall" =
      (3, .ofStrings ["", "samples", "count", "wall"]) := StringTable.intern_ofStrings _ _
  have h₄ : (StringTable.ofStrings ["", "samples", "count", "wall"]).intern "nanoseconds" =
      (4, .ofStrings ["", "samples", "count", "wall", "nanoseconds"]) :=
    StringTable.intern_ofStrings _ _
  have h₅ : (StringTable.ofStrings ["", "samples", "count", "wall", "nanoseconds"]).intern
      "thread_id" = (5, .ofStrings ["", "samples", "count", "wall", "nanoseconds",
        "thread_id"]) := StringTable.intern_ofStrings _ _
  have h₆ : (StringTable.ofStrings ["", "samples", "count", "wall", "nanoseconds",
      "thread_id"]).intern "thread_name" = (6, .ofStrings ["", "samples", "count", "wall",
        "nanoseconds", "thread_id", "thread_name"]) := StringTable.intern_ofStrings _ _
  have h₇ : (StringTable.ofStrings ["", "samples", "count", "wall", "nanoseconds", "thread_id",
      "thread_name"]).intern "pprofessor::timestamp" = (7, .ofStrings exportStrings) :=
    StringTable.intern_ofStrings _ _
  have h₈ : (StringTable.ofStrings exportStrings).intern "nanoseconds" =
      (4, .ofStrings exportStrings) := StringTable.intern_ofStrings _ _
  have h₀ : StringTable.new = StringTable.ofStrings [""] := by
    have h := StringTable.Built.new.eq_ofStrings
    rwa [new_strings] at h
  unfold startProfile
  rw [h₀]
  simp only [h₁, h₂, h₃, h₄, h₅, h₆, h₇, h₈]
  rfl

theorem builtProfile_eq (fileLen : String → Option UInt64) (profile : SymbolicatedProfile) :
    builtProfile fileLen profile =
      (profile.samples.foldl (addSample (sortedImages profile) profile ⟨5, 6, 7, 4⟩
        (periodNanos profile.freqHz))
        ⟨pushMappings fileLen (sortedImages profile) 0
          (started profile (periodNanos profile.freqHz)), ∅, ∅⟩).enc := by
  unfold builtProfile
  dsimp only
  rw [startProfile_eq]

end PProfessor.Capture
