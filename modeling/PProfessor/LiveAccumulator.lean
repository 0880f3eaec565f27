import PProfessor.CheckedArith
import PProfessor.Fallible
import PProfessor.KitDecoder

set_option autoImplicit false

/-!
# The live profile accumulator

`LiveProfileAccumulator` of PProfessorKit. Swift compares and hashes strings by
canonical equivalence: `canon` takes a string to its canonical form, and the
dictionaries are keyed by those.
-/
namespace PProfessor.Kit
open CheckedArith Pprof

structure MappingKey where
  buildID : String
  filename : String
  memoryStart : UInt64
  memoryLimit : UInt64
  fileOffset : UInt64
  deriving DecidableEq, Hashable

structure FunctionKey where
  name : String
  systemName : String
  filename : String
  startLine : Int64
  deriving DecidableEq, Hashable

structure LineKey where
  functionID : UInt64
  line : Int64
  column : Int64
  deriving DecidableEq, Hashable

structure LocationKey where
  mappingID : UInt64
  address : UInt64
  lines : List LineKey
  isFolded : Bool
  deriving DecidableEq, Hashable

structure LabelKey where
  key : UInt64
  str : UInt64
  num : Int64
  numUnit : UInt64
  deriving DecidableEq, Hashable

structure SampleKey where
  stack : List UInt64
  labels : List LabelKey
  deriving DecidableEq, Hashable

structure LiveProfileAccumulator where
  profile : DecodedProfile
  stringIDs : Std.ExtHashMap String UInt64
  mappingIDs : Std.ExtHashMap MappingKey UInt64
  functionIDs : Std.ExtHashMap FunctionKey UInt64
  locationIDs : Std.ExtHashMap LocationKey UInt64
  sampleIndexes : Std.ExtHashMap SampleKey ℕ

/-- `UInt64(_:)` of an array count or of its successor, which are `Int`s. -/
def countID (count : ℕ) : Except Trap UInt64 :=
  if count < 2 ^ 63 then .ok (UInt64.ofNat count) else .error .countOverflow

namespace LiveProfileAccumulator

section
variable (canon : String → String)

def new : LiveProfileAccumulator where
  profile := { DecodedProfile.new with stringTable := [""] }
  stringIDs := (∅ : Std.ExtHashMap String UInt64).insert (canon "") 0
  mappingIDs := ∅
  functionIDs := ∅
  locationIDs := ∅
  sampleIndexes := ∅

def intern (acc : LiveProfileAccumulator) (value : String) :
    Except Trap (UInt64 × LiveProfileAccumulator) :=
  match acc.stringIDs[canon value]? with
  | some existing => .ok (existing, acc)
  | none => do
    let id ← countID acc.profile.stringTable.length
    .ok (id,
      { acc with
        profile := { acc.profile with stringTable := acc.profile.stringTable ++ [value] }
        stringIDs := acc.stringIDs.insert (canon value) id })

variable (delta : DecodedProfile)

/-- `intern(delta.string(at: index))`. -/
def internAt (acc : LiveProfileAccumulator) (index : UInt64) :
    Except Trap (UInt64 × LiveProfileAccumulator) := do
  let value ← delta.string index
  acc.intern canon value

/-- `index == 0 ? 0 : intern(delta.string(at: index))`. -/
def internUnlessZero (acc : LiveProfileAccumulator) (index : UInt64) :
    Except Trap (UInt64 × LiveProfileAccumulator) :=
  if index = 0 then .ok (0, acc) else acc.internAt canon delta index

def internValueType (acc : LiveProfileAccumulator) (vt : ValueType) :
    Except Trap (ValueType × LiveProfileAccumulator) := do
  let (type, acc) ← acc.internAt canon delta vt.type
  let (unit, acc) ← acc.internAt canon delta vt.unit
  .ok (⟨type, unit⟩, acc)

/-- `map` over a closure that interns. -/
def internEach {α β : Type}
    (f : LiveProfileAccumulator → α → Except Trap (β × LiveProfileAccumulator)) :
    LiveProfileAccumulator → List α → Except Trap (List β × LiveProfileAccumulator)
  | acc, [] => .ok ([], acc)
  | acc, x :: xs => do
    let (y, acc) ← f acc x
    let (ys, acc) ← internEach f acc xs
    .ok (y :: ys, acc)

def mergePeriodType (acc : LiveProfileAccumulator) :
    Except Trap LiveProfileAccumulator :=
  match delta.periodType with
  | none => .ok acc
  | some periodType => do
    let (periodType, acc) ← acc.internValueType canon delta periodType
    .ok { acc with profile := { acc.profile with periodType := some periodType } }

/-- What `merge` takes over from the first profile it sees. -/
def mergeHeader (acc : LiveProfileAccumulator) : Except Trap LiveProfileAccumulator :=
  if acc.profile.sampleTypes ≠ [] then .ok acc
  else do
    let (sampleTypes, acc) ← internEach (internValueType canon delta) acc delta.sampleTypes
    let acc := { acc with profile := { acc.profile with sampleTypes := sampleTypes } }
    let acc ← acc.mergePeriodType canon delta
    let (defaultSampleType, acc) ← acc.internUnlessZero canon delta delta.defaultSampleType
    let (comments, acc) ← internEach (internAt canon delta) acc delta.comments
    let (dropFrames, acc) ← acc.internUnlessZero canon delta delta.dropFrames
    let (keepFrames, acc) ← acc.internUnlessZero canon delta delta.keepFrames
    let (docURL, acc) ← acc.internUnlessZero canon delta delta.docURL
    .ok { acc with
      profile := { acc.profile with
        defaultSampleType := defaultSampleType
        comments := comments
        dropFrames := dropFrames
        keepFrames := keepFrames
        docURL := docURL
        period := delta.period
        timeNanos := delta.timeNanos } }

abbrev IDMap := Std.ExtHashMap UInt64 UInt64

def mergeMapping (state : LiveProfileAccumulator × IDMap) (mapping : Mapping) :
    Except Trap (LiveProfileAccumulator × IDMap) := do
  let (acc, incomingMappingIDs) := state
  let buildID ← delta.string mapping.buildId
  let filename ← delta.string mapping.filename
  let key : MappingKey := ⟨canon buildID, canon filename, mapping.memoryStart,
    mapping.memoryLimit, mapping.fileOffset⟩
  match acc.mappingIDs[key]? with
  | some existing => .ok (acc, incomingMappingIDs.insert mapping.id existing)
  | none => do
    let globalID ← countID (acc.profile.mappings.length + 1)
    let acc := { acc with mappingIDs := acc.mappingIDs.insert key globalID }
    let (filename, acc) ← acc.intern canon filename
    let (buildID, acc) ← acc.intern canon buildID
    let globalMapping :=
      { mapping with id := globalID, filename := filename, buildId := buildID }
    .ok ({ acc with
      profile := { acc.profile with mappings := acc.profile.mappings ++ [globalMapping] } },
      incomingMappingIDs.insert mapping.id globalID)

def mergeFunction (acc : LiveProfileAccumulator) (function : Function) :
    Except Trap (UInt64 × LiveProfileAccumulator) := do
  let name ← delta.string function.name
  let systemName ← delta.string function.systemName
  let filename ← delta.string function.filename
  let key : FunctionKey := ⟨canon name, canon systemName, canon filename, function.startLine⟩
  match acc.functionIDs[key]? with
  | some existing => .ok (existing, acc)
  | none => do
    let globalID ← countID (acc.profile.functions.length + 1)
    let acc := { acc with functionIDs := acc.functionIDs.insert key globalID }
    let (name, acc) ← acc.intern canon name
    let (systemName, acc) ← acc.intern canon systemName
    let (filename, acc) ← acc.intern canon filename
    let globalFunction : Function :=
      { id := globalID, name := name, systemName := systemName, filename := filename,
        startLine := function.startLine }
    .ok (globalID,
      { acc with
        profile := { acc.profile with functions := acc.profile.functions ++ [globalFunction] } })

/-- `Dictionary(_:uniquingKeysWith:)` keeping the first function of an id. -/
def incomingFunctions : Std.ExtHashMap UInt64 Function :=
  delta.functions.foldl (fun map function => map.insertIfNew function.id function) ∅

def mergeLines (functions : Std.ExtHashMap UInt64 Function) :
    LiveProfileAccumulator → List Line → Except Trap (List Line × LiveProfileAccumulator)
  | acc, [] => .ok ([], acc)
  | acc, line :: rest =>
    match functions[line.functionId]? with
    | none => mergeLines functions acc rest
    | some function => do
      let (id, acc) ← acc.mergeFunction canon delta function
      let (lines, acc) ← mergeLines functions acc rest
      .ok ({ line with functionId := id } :: lines, acc)

def lineKey (line : Line) : LineKey := ⟨line.functionId, line.line, line.column⟩

def mergeLocation (functions : Std.ExtHashMap UInt64 Function) (incomingMappingIDs : IDMap)
    (state : LiveProfileAccumulator × IDMap) (location : Location) :
    Except Trap (LiveProfileAccumulator × IDMap) := do
  let (acc, incomingLocationIDs) := state
  let globalMappingID := incomingMappingIDs[location.mappingId]?.getD 0
  let (globalLines, acc) ← mergeLines canon delta functions acc location.lines
  let key : LocationKey := ⟨globalMappingID, location.address, globalLines.map lineKey,
    location.isFolded⟩
  match acc.locationIDs[key]? with
  | some existing => .ok (acc, incomingLocationIDs.insert location.id existing)
  | none => do
    let globalLocationID ← countID (acc.profile.locations.length + 1)
    let globalLocation :=
      { location with id := globalLocationID, mappingId := globalMappingID, lines := globalLines }
    .ok ({ acc with
      locationIDs := acc.locationIDs.insert key globalLocationID
      profile := { acc.profile with locations := acc.profile.locations ++ [globalLocation] } },
      incomingLocationIDs.insert location.id globalLocationID)

def internLabel (acc : LiveProfileAccumulator) (label : Label) :
    Except Trap (Label × LiveProfileAccumulator) := do
  let (key, acc) ← acc.internAt canon delta label.key
  let (str, acc) ← acc.internUnlessZero canon delta label.strIndex
  let (numUnit, acc) ← acc.internUnlessZero canon delta label.numUnit
  .ok (⟨key, str, label.num, numUnit⟩, acc)

def labelKey (label : Label) : LabelKey := ⟨label.key, label.strIndex, label.num, label.numUnit⟩

/-- `values[i] += source[i]` for each index of `source`; `+` traps on overflow. -/
def addColumns : List Int64 → List Int64 → Except Trap (List Int64)
  | values, [] => .ok values
  | [], _ :: _ => .error .indexOutOfRange
  | v :: values, w :: source => do
    let sum ← match addI64 v w with
      | some sum => .ok sum
      | none => .error .intOverflow
    let rest ← addColumns values source
    .ok (sum :: rest)

/-- A row padded with zeros to the length of the other, plus the other. -/
def addValues (values source : List Int64) : Except Trap (List Int64) :=
  addColumns (values ++ List.replicate (source.length - values.length) 0) source

def mergeSample (incomingLocationIDs : IDMap) (acc : LiveProfileAccumulator) (sample : Sample) :
    Except Trap LiveProfileAccumulator := do
  let stack := sample.locationIds.filterMap fun id => incomingLocationIDs[id]?
  let (labels, acc) ← internEach (internLabel canon delta) acc sample.labels
  let key : SampleKey := ⟨stack, labels.map labelKey⟩
  match acc.sampleIndexes[key]? with
  | some index =>
    match acc.profile.samples[index]? with
    | none => .error .indexOutOfRange
    | some existing => do
      let values ← addValues existing.values sample.values
      .ok { acc with
        profile := { acc.profile with
          samples := acc.profile.samples.set index { existing with values := values } } }
  | none =>
    .ok { acc with
      sampleIndexes := acc.sampleIndexes.insert key acc.profile.samples.length
      profile := { acc.profile with
        samples := acc.profile.samples ++ [⟨stack, sample.values, labels⟩] } }

def merge (acc : LiveProfileAccumulator) : Except Trap LiveProfileAccumulator := do
  let acc ← acc.mergeHeader canon delta
  let acc := { acc with
    profile := { acc.profile with
      durationNanos := max acc.profile.durationNanos delta.durationNanos } }
  let (acc, incomingMappingIDs) ← delta.mappings.foldlM (mergeMapping canon delta) (acc, ∅)
  let (acc, incomingLocationIDs) ← delta.locations.foldlM
    (mergeLocation canon delta (incomingFunctions delta) incomingMappingIDs) (acc, ∅)
  delta.samples.foldlM (mergeSample canon delta incomingLocationIDs) acc

/-- `replace(with:)`. -/
def replace : Except Trap LiveProfileAccumulator := (new canon).merge canon delta

end

end LiveProfileAccumulator

end PProfessor.Kit
