import PProfessor.HeapCompare
import PProfessor.KeyedSum

set_option autoImplicit false

/-!
# The profile report

`ProfileReport::from_profile` of `src/report.rs`: a sample's resolved stack, the
three aggregations over the samples, and the rankings. A hash map hands out its
entries in an order that the rankings take as an argument.
-/
namespace PProfessor.Report
open CheckedArith Pprof
open Heap (indexBy)

/-- `i64::saturating_add`. -/
def saturatingAddI64 (a b : Int64) : Int64 :=
  (addI64 a b).getD (if 0 < b.toInt then 0x7FFFFFFFFFFFFFFF else -0x8000000000000000)

/-- `i64::saturating_abs`. -/
def saturatingAbsI64 (a : Int64) : Int64 :=
  if 0 ≤ a.toInt then a else (negI64 a).getD 0x7FFFFFFFFFFFFFFF

/-- Flat and cumulative cost attributed to one function. -/
structure FrameStat where
  function : String
  file : String
  line : Int64
  flat : Int64
  cumulative : Int64
  deriving DecidableEq, Repr

/-- One frame in a ranked stack, ordered from root to leaf. -/
structure ReportFrame where
  function : String
  file : String
  line : Int64
  deriving DecidableEq, Repr

/-- Cost attributed to one complete call stack. -/
structure StackStat where
  frames : List ReportFrame
  value : Int64
  deriving DecidableEq, Repr

inductive FrameIdentity where
  | function (id : UInt64)
  | address (address : UInt64)
  deriving DecidableEq, Hashable, Repr

structure ResolvedFrame where
  identity : FrameIdentity
  function : String
  file : String
  line : Int64
  deriving DecidableEq, Repr

def ResolvedFrame.stat (frame : ResolvedFrame) : FrameStat :=
  { function := frame.function, file := frame.file, line := frame.line, flat := 0, cumulative := 0 }

def ResolvedFrame.reportFrame (frame : ResolvedFrame) : ReportFrame :=
  { function := frame.function, file := frame.file, line := frame.line }

def profileString (profile : PprofProfile) (index : UInt64) : String :=
  profile.strings.strings[index.toNat]?.getD ""

/-- `format!("0x{:016x}")`. -/
def hexAddress (address : UInt64) : String :=
  "0x" ++ String.ofList (List.leftpad 16 '0' (Nat.toDigits 16 address.toNat))

section Resolve

variable (profile : PprofProfile) (locations : Std.ExtHashMap UInt64 Location)
  (functions : Std.ExtHashMap UInt64 Function)

def resolveLine (line : Line) : Option ResolvedFrame :=
  functions[line.functionId]?.map fun function =>
    { identity := .function function.id
      function := profileString profile function.name
      file := profileString profile function.filename
      line := line.line }

def resolveLocation (id : UInt64) : List ResolvedFrame :=
  match locations[id]? with
  | none => []
  | some location =>
    if location.lines = [] then
      [{ identity := .address location.address
         function := hexAddress location.address
         file := ""
         line := 0 }]
    -- Inline entries are leaf-first within a location, just like locations within a sample.
    else location.lines.reverse.filterMap (resolveLine profile functions)

def resolveStack (sample : Sample) : List ResolvedFrame :=
  sample.locationIds.reverse.flatMap (resolveLocation profile locations functions)

end Resolve

structure Aggregates where
  stats : Std.ExtHashMap FrameIdentity FrameStat
  stackStats : Std.ExtHashMap (List FrameIdentity) StackStat
  totalValue : Int64

def addStack (frames : List ResolvedFrame) (value : Int64)
    (stackStats : Std.ExtHashMap (List FrameIdentity) StackStat) :
    Std.ExtHashMap (List FrameIdentity) StackStat :=
  let key := frames.map ResolvedFrame.identity
  if key = [] then stackStats
  else
    let stack := stackStats[key]?.getD ⟨frames.map ResolvedFrame.reportFrame, 0⟩
    stackStats.insert key { stack with value := saturatingAddI64 stack.value value }

def addFlat (frames : List ResolvedFrame) (value : Int64)
    (stats : Std.ExtHashMap FrameIdentity FrameStat) : Std.ExtHashMap FrameIdentity FrameStat :=
  match frames.getLast? with
  | none => stats
  | some leaf =>
    let stat := stats[leaf.identity]?.getD leaf.stat
    stats.insert leaf.identity { stat with flat := saturatingAddI64 stat.flat value }

def addCumulative (value : Int64) : List ResolvedFrame → Finset FrameIdentity →
    Std.ExtHashMap FrameIdentity FrameStat → Std.ExtHashMap FrameIdentity FrameStat
  | [], _, stats => stats
  | frame :: rest, seen, stats =>
    if frame.identity ∈ seen then addCumulative value rest seen stats
    else
      let stat := stats[frame.identity]?.getD frame.stat
      addCumulative value rest (insert frame.identity seen) (stats.insert frame.identity
        { stat with cumulative := saturatingAddI64 stat.cumulative value })

def addSample (profile : PprofProfile) (sampleIndex : ℕ)
    (locations : Std.ExtHashMap UInt64 Location) (functions : Std.ExtHashMap UInt64 Function)
    (a : Aggregates) (sample : Sample) : Aggregates :=
  match sample.values[sampleIndex]? with
  | none => a
  | some value =>
    let frames := resolveStack profile locations functions sample
    { totalValue := saturatingAddI64 a.totalValue (saturatingAbsI64 value)
      stackStats := addStack frames value a.stackStats
      stats := addCumulative value frames ∅ (addFlat frames value a.stats) }

def aggregate (profile : PprofProfile) (sampleIndex : ℕ) : Aggregates :=
  profile.samples.foldl (addSample profile sampleIndex (indexBy Location.id profile.locations)
    (indexBy Function.id profile.functions)) ⟨∅, ∅, 0⟩

/-- The comparison of `top_frames.sort_by`. -/
def compareFrames (a b : FrameStat) : Ordering :=
  (compare (saturatingAbsI64 b.flat) (saturatingAbsI64 a.flat)).then
    ((compare (saturatingAbsI64 b.cumulative) (saturatingAbsI64 a.cumulative)).then
      (compare a.function b.function))

/-- The comparison of `top_stacks.sort_by`. -/
def compareStacks (a b : StackStat) : Ordering :=
  (compare (saturatingAbsI64 b.value) (saturatingAbsI64 a.value)).then
    (compare (a.frames.map ReportFrame.function) (b.frames.map ReportFrame.function))

structure ProfileReport where
  sampleType : String
  sampleUnit : String
  availableSampleTypes : List String
  durationNanos : Int64
  sampleRecords : ℕ
  totalValue : Int64
  topFrames : List FrameStat
  topStacks : List StackStat
  deriving DecidableEq, Repr

inductive ReportError where
  | noSampleTypes
  /-- The index and the number of sample types. -/
  | indexRange (index count : ℕ)
  | unknownSampleType (requested available : String)
  deriving DecidableEq, Repr

/-- The message; `{requested:?}` is the parameter `debug`. -/
def ReportError.message (debug : String → String) : ReportError → String
  | .noSampleTypes => "pprof profile has no sample types"
  | .indexRange index count => "sample type index " ++ toString index ++
      " is outside the range 0.." ++ toString count
  | .unknownSampleType requested available => "unknown sample type " ++ debug requested ++
      "; available types: " ++ available

/-- `str::parse::<usize>`: decimal digits after an optional plus sign. -/
def parseUsize (text : String) : Option ℕ :=
  let digits := match text.toList with
    | '+' :: rest => rest
    | chars => chars
  if digits ≠ [] ∧ digits.all Char.isDigit then
    let n := digits.foldl (fun n c => 10 * n + (c.toNat - '0'.toNat)) 0
    if n < 2 ^ 64 then some n else none
  else none

/-- Name or index of the requested sample type, the default, or the last one. -/
def sampleIndexOf (profile : PprofProfile) (requested : Option String) : Except ReportError ℕ :=
  let names := profile.valueTypes.map fun sample => profileString profile sample.type
  if profile.valueTypes = [] then .error .noSampleTypes
  else
    match requested with
    | some requested =>
      match parseUsize requested with
      | some index =>
        if index < profile.valueTypes.length then .ok index
        else .error (.indexRange index profile.valueTypes.length)
      | none =>
        match names.idxOf? requested with
        | some index => .ok index
        | none => .error (.unknownSampleType requested (", ".intercalate names))
    | none =>
      if profile.defaultSampleType ≠ 0 then
        match names.idxOf? (profileString profile profile.defaultSampleType) with
        | some index => .ok index
        | none => .ok (profile.valueTypes.length - 1)
      else .ok (profile.valueTypes.length - 1)

def fromProfile (profile : PprofProfile) (sampleType : Option String)
    (frameOrder : List (FrameIdentity × FrameStat))
    (stackOrder : List (List FrameIdentity × StackStat)) : Except ReportError ProfileReport := do
  let sampleIndex ← sampleIndexOf profile sampleType
  match profile.valueTypes[sampleIndex]? with
  | none => throw .noSampleTypes
  | some selected =>
    return {
      sampleType := profileString profile selected.type
      sampleUnit := profileString profile selected.unit
      availableSampleTypes := profile.valueTypes.map fun sample => profileString profile sample.type
      durationNanos := profile.durationNanos
      sampleRecords := profile.samples.length
      totalValue := (aggregate profile sampleIndex).totalValue
      topFrames := (frameOrder.map Prod.snd).mergeSort fun a b => (compareFrames a b).isLE
      topStacks := (stackOrder.map Prod.snd).mergeSort fun a b => (compareStacks a b).isLE }

end PProfessor.Report
