import PProfessor.CheckedArith
import PProfessor.HeapValidation
import Std.Data.ExtTreeMap

set_option autoImplicit false

/-!
# Signed differences of heap snapshots

`difference` and `ProfileIndex` of `src/heap/compare.rs`. `serde_json` is not
part of the source: the text of a sample key is the parameter `toJson`.
-/
namespace PProfessor.Heap
open CheckedArith Fallible Pprof

abbrev LineKey := String × String × String × Int64 × Int64 × Int64

/-- Binary identity, relative address and lines. -/
abbrev FrameKey := String × UInt64 × List LineKey

/-- Key, text, number and unit. -/
abbrev LabelKey := String × String × Int64 × String

/-- `labels.sort()` compares the components in order. -/
def LabelKey.le (a b : LabelKey) : Bool :=
  ((compare a.1 b.1).then ((compare a.2.1 b.2.1).then
    ((compare a.2.2.1 b.2.2.1).then (compare a.2.2.2 b.2.2.2)))).isLE

/-- `iter().map(|x| (x.id, x)).collect()`: a later entry replaces an earlier one. -/
def indexBy {α : Type} (id : α → UInt64) (xs : List α) : Std.ExtHashMap UInt64 α :=
  xs.foldl (fun map x => map.insert (id x) x) ∅

structure ProfileIndex where
  profile : PprofProfile
  locations : Std.ExtHashMap UInt64 Location
  functions : Std.ExtHashMap UInt64 Function
  mappings : Std.ExtHashMap UInt64 Mapping

namespace ProfileIndex

def new (profile : PprofProfile) : ProfileIndex where
  profile := profile
  locations := indexBy Location.id profile.locations
  functions := indexBy Function.id profile.functions
  mappings := indexBy Mapping.id profile.mappings

variable (index : ProfileIndex)

def string (id : UInt64) : Except ProfileError String :=
  orError .invalidKeyIndex index.profile.strings.strings[id.toNat]?

def lineKey (line : Line) : Except ProfileError LineKey := do
  let f ← orError .missingFunction index.functions[line.functionId]?
  let name ← index.string f.name
  let systemName ← index.string f.systemName
  let filename ← index.string f.filename
  .ok (name, systemName, filename, f.startLine, line.line, line.column)

def binary : Option Mapping → Except ProfileError String
  | none => .ok ""
  | some m => do
    let named ← if m.buildId ≠ 0 then (do
      let buildId ← index.string m.buildId
      .ok (decide (buildId ≠ ""))) else .ok false
    if named then index.string m.buildId else index.string m.filename

/-- `starts_with("0x")`. -/
def isHexName (name : String) : Bool := "0x".toList.isPrefixOf name.toList

def relativeAddress (l : Location) : Option Mapping → UInt64
  | some m => saturatingAddU64 (saturatingSubU64 l.address m.memoryStart) m.fileOffset
  | none => l.address

def hideHexName (name : String) : String := if isHexName name then "[unknown]" else name

def hideHexNames : LineKey → LineKey
  | (name, systemName, rest) => (hideHexName name, hideHexName systemName, rest)

/-- One turn of the loop over `location_ids`. -/
def frameKey (id : UInt64) : Except ProfileError FrameKey := do
  let l ← orError .missingLocation index.locations[id]?
  let lines ← l.lines.mapM index.lineKey
  let mapping := index.mappings[l.mappingId]?
  let binary ← index.binary mapping
  let address :=
    if lines = [] ∨ lines.all (fun line => isHexName line.1) then relativeAddress l mapping else 0
  .ok (binary, address, lines.map hideHexNames)

def labelKey (l : Label) : Except ProfileError LabelKey := do
  let key ← index.string l.key
  let text ← index.string l.strIndex
  let unit ← index.string l.numUnit
  .ok (key, text, l.num, unit)

def sampleKey (toJson : List FrameKey × List LabelKey → String) (sample : Sample) :
    Except ProfileError String := do
  let stack ← sample.locationIds.mapM index.frameKey
  let labels ← sample.labels.mapM index.labelKey
  .ok (toJson (stack, labels.mergeSort LabelKey.le))

end ProfileIndex

/-- Adds or, for any other `sign` than 1, subtracts over the common length. -/
def add : List Int64 → List Int64 → Int64 → Except ProfileError (List Int64)
  | a :: target, b :: source, sign => do
    let sum ← orError .differenceOverflow (if sign = 1 then addI64 a b else subI64 a b)
    let rest ← add target source sign
    .ok (sum :: rest)
  | target, _, _ => .ok target

/-- The strings of all `heap` labels. -/
def domains (p : PprofProfile) : Finset String :=
  (p.samples.flatMap fun s =>
    (s.labels.filter fun l => stringAt p l.key = "heap").map
      fun l => stringAt p l.strIndex).toFinset

/-- `base.strings.strings.iter().map(|s| output.strings.intern(s)).collect()`. -/
def internAll : List String → StringTable → List UInt64 × StringTable
  | [], strings => ([], strings)
  | s :: rest, strings =>
    let (id, strings) := strings.intern s
    let (ids, strings) := internAll rest strings
    (id :: ids, strings)

/-- `iter().map(|x| x.id).max().unwrap_or(0)`. -/
def maxId {α : Type} (id : α → UInt64) (xs : List α) : UInt64 := ((xs.map id).max?).getD 0

/-- The loop that moves a table of `base` behind the one of the output: each
entry gets the next free id and `copy` rewrites its references. -/
def relocate {α : Type} (id : α → UInt64) (copy : α → UInt64 → Except ProfileError α) :
    List α → UInt64 → Std.ExtHashMap UInt64 UInt64 → List α →
    Except ProfileError (Std.ExtHashMap UInt64 UInt64 × List α)
  | [], _, ids, out => .ok (ids, out)
  | x :: rest, next, ids, out => do
    let next ← orError .identifierOverflow (addU64 next 1)
    let moved ← copy x next
    relocate id copy rest next (ids.insert (id x) next) (out ++ [moved])

/-- `strings[id as usize]`. -/
def remapString (strings : List UInt64) (id : UInt64) : Except ProfileError UInt64 :=
  orError .panic strings[id.toNat]?

def copyMapping (strings : List UInt64) (m : Mapping) (next : UInt64) :
    Except ProfileError Mapping := do
  let filename ← remapString strings m.filename
  let buildId ← remapString strings m.buildId
  .ok { m with id := next, filename := filename, buildId := buildId }

def copyFunction (strings : List UInt64) (f : Function) (next : UInt64) :
    Except ProfileError Function := do
  let name ← remapString strings f.name
  let systemName ← remapString strings f.systemName
  let filename ← remapString strings f.filename
  .ok { f with id := next, name := name, systemName := systemName, filename := filename }

def copyLine (functionIds : Std.ExtHashMap UInt64 UInt64) (line : Line) :
    Except ProfileError Line := do
  let functionId ← orError .missingBaseFunction functionIds[line.functionId]?
  .ok { line with functionId := functionId }

def copyLocation (mappingIds functionIds : Std.ExtHashMap UInt64 UInt64) (l : Location)
    (next : UInt64) : Except ProfileError Location := do
  let mappingId ← orError .missingBaseMapping mappingIds[l.mappingId]?
  let lines ← l.lines.mapM (copyLine functionIds)
  .ok { l with id := next, mappingId := mappingId, lines := lines }

def copyLabel (strings : List UInt64) (label : Label) : Except ProfileError Label := do
  let key ← remapString strings label.key
  let strIndex ← remapString strings label.strIndex
  let numUnit ← remapString strings label.numUnit
  .ok { label with key := key, strIndex := strIndex, numUnit := numUnit }

/-- A stack that only `base` has, in the ids of the output. -/
def copySample (strings : List UInt64) (locationIds : Std.ExtHashMap UInt64 UInt64)
    (values : List Int64) (s : Sample) : Except ProfileError Sample := do
  let values ← values.mapM fun v => orError .differenceOverflow (negI64 v)
  let ids ← s.locationIds.mapM fun id => orError .missingBaseLocation locationIds[id]?
  let labels ← s.labels.mapM (copyLabel strings)
  .ok { locationIds := ids, values := values, labels := labels }

abbrev SampleMap := Std.ExtTreeMap String Sample

/-- One turn of the loop over the samples of `current`. -/
def addCurrent (toJson : List FrameKey × List LabelKey → String) (index : ProfileIndex)
    (samples : SampleMap) (sample : Sample) : Except ProfileError SampleMap := do
  let key ← index.sampleKey toJson sample
  match samples[key]? with
  | some existing => do
    let values ← add existing.values sample.values 1
    .ok (samples.insert key { existing with values := values })
  | none => .ok (samples.insert key sample)

/-- One turn of the loop over the samples of `base`. -/
def subtractBase (toJson : List FrameKey × List LabelKey → String) (index : ProfileIndex)
    (order : List ℕ) (copy : List Int64 → Sample → Except ProfileError Sample)
    (samples : SampleMap) (sample : Sample) : Except ProfileError SampleMap := do
  let key ← index.sampleKey toJson sample
  let values ← order.mapM fun i => orError .panic sample.values[i]?
  match samples[key]? with
  | some existing => do
    let values ← add existing.values values (-1)
    .ok (samples.insert key { existing with values := values })
  | none => do
    let moved ← copy values sample
    .ok (samples.insert key moved)

/-- Return current minus base. -/
def difference (toJson : List FrameKey × List LabelKey → String) (base current : PprofProfile) :
    Except ProfileError PprofProfile := do
  validateProfile base
  validateProfile current
  let a := types base
  let b := types current
  require (a.length = b.length ∧ a.toFinset = b.toFinset) .incompatibleTypes
  require (domains base = domains current) .differentDomains
  let order ← b.mapM fun metric => orError .panic (a.idxOf? metric)
  let samples ← current.samples.foldlM (addCurrent toJson (.new current)) ∅
  let (strings, table) := internAll base.strings.strings current.strings
  let (mappingIds, mappings) ← relocate Mapping.id (copyMapping strings) base.mappings
    (maxId Mapping.id current.mappings) (Std.ExtHashMap.ofList [(0, 0)]) current.mappings
  let (functionIds, functions) ← relocate Function.id (copyFunction strings) base.functions
    (maxId Function.id current.functions) (Std.ExtHashMap.ofList [(0, 0)]) current.functions
  let (locationIds, locations) ← relocate Location.id (copyLocation mappingIds functionIds)
    base.locations (maxId Location.id current.locations) ∅ current.locations
  let samples ← base.samples.foldlM
    (subtractBase toJson (.new base) order (copySample strings locationIds)) samples
  let (comment, table) :=
    table.intern "Signed heap difference: current snapshot minus base snapshot."
  .ok { current with
    strings := table
    mappings := mappings
    functions := functions
    locations := locations
    samples := (samples.toList.map Prod.snd).filter fun s => s.values.any fun v => v ≠ 0
    comments := current.comments ++ [comment] }

end PProfessor.Heap
