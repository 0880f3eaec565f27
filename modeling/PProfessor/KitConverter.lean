import PProfessor.CheckedArith
import PProfessor.KitDecoder
import PProfessor.NumberedTable

set_option autoImplicit false

/-!
# The flame graph

`convertProfile` of PProfessorKit with the label lookups it uses. Swift compares
and hashes strings by canonical equivalence, which `canon` decides; the two
percentages of a node, floating point, are left out.
-/
namespace PProfessor.Kit
open CheckedArith NumberedTable Pprof

inductive ProfileValueSign where
  | positive
  | negative
  deriving DecidableEq, Repr

/-- `==` on strings. -/
def sameString (canon : String → String) (a b : String) : Bool := canon a = canon b

/-- `Set(strings).sorted()`. -/
def sortedSet (canon : String → String) (strings : List String) : List String :=
  (strings.foldl (fun set s => if set.any (sameString canon s) then set else set ++ [s])
    []).mergeSort fun a b => (compare (canon a) (canon b)).isLE

def heapMetricNames : List String :=
  ["alloc_space", "inuse_space", "alloc_objects", "inuse_objects"]

def threadKeys : List String :=
  ["thread", "tid", "thread_id", "thread_name", "threadName", "thread.id", "thread.name"]

def pprofessorTimestampLabel : String := "pprofessor::timestamp"

section Labels

variable (canon : String → String) (profile : DecodedProfile)

def isHeapProfile : Except Trap Bool :=
  profile.sampleTypes.anyM fun type => do
    let name ← profile.string type.type
    return heapMetricNames.any (sameString canon name)

/-- `heapDomain(for:)`. -/
def heapDomainFor (sample : Sample) : Except Trap (Option String) := do
  let label ← sample.labels.findM? fun label => do
    let key ← profile.string label.key
    return sameString canon key "heap"
  match label with
  | some label => some <$> profile.string label.strIndex
  | none =>
    if ← isHeapProfile canon profile then
      return some "[unspecified heap]"
    else
      return none

def heapDomains : Except Trap (List String) := do
  let domains ← profile.samples.mapM (heapDomainFor canon profile)
  return sortedSet canon (domains.filterMap id)

/-- The loop of `profileThreadLabel`. -/
def threadLabelIn : List Label → Except Trap (Option String)
  | [] => .ok none
  | label :: rest => do
    let key ← profile.string label.key
    if threadKeys.any (sameString canon key) then
      if label.strIndex ≠ 0 then some <$> profile.string label.strIndex
      else if label.num ≠ 0 then return some (toString label.num.toInt)
      else threadLabelIn rest
    else threadLabelIn rest

def profileThreadLabel (sample : Sample) : Except Trap (Option String) :=
  threadLabelIn canon profile sample.labels

/-- The loop of `profileTimestampNanos`. -/
def timestampIn : List Label → Except Trap (Option Int64)
  | [] => .ok none
  | label :: rest => do
    let key ← profile.string label.key
    if sameString canon key pprofessorTimestampLabel then
      let unit ← if label.numUnit = 0 then .ok "" else profile.string label.numUnit
      return if unit = "" ∨ sameString canon unit "nanoseconds" then some label.num else none
    else timestampIn rest

def profileTimestampNanos (sample : Sample) : Except Trap (Option Int64) :=
  timestampIn canon profile sample.labels

end Labels

structure ConversionOptions where
  valueTypeIndex : ℤ
  threadFilter : Option String
  /-- The ends of a closed range. -/
  timeRangeNanos : Option (Int64 × Int64)
  valueSign : ProfileValueSign
  heapDomain : Option String

structure WalkedFrame where
  name : String
  systemName : Option String
  filename : Option String
  line : Option Int64
  deriving DecidableEq, Repr

section Walk

variable (profile : DecodedProfile)

def optionalString (index : UInt64) : Except Trap (Option String) :=
  if index ≠ 0 then some <$> profile.string index else .ok none

def walkFunction (function : Function) (line : Line) : Except Trap WalkedFrame := do
  let name ← profile.string function.name
  let systemName ← optionalString profile function.systemName
  let filename ← optionalString profile function.filename
  return {
    name
    systemName
    filename
    line := if line.line ≠ 0 then some line.line else none }

def walkLines : List Line → Except Trap (List WalkedFrame)
  | [] => .ok []
  | line :: rest =>
    match lookup Function.id profile.functions line.functionId with
    | none => walkLines rest
    | some function => do
      let frame ← walkFunction profile function line
      let frames ← walkLines rest
      return frame :: frames

def walkLocations : List UInt64 → Except Trap (List WalkedFrame)
  | [] => .ok []
  | id :: rest =>
    match lookup Location.id profile.locations id with
    | none => walkLocations rest
    | some location => do
      let frames ← walkLines profile location.lines
      let later ← walkLocations rest
      return frames ++ later

/-- The frames of a sample from root to leaf. -/
def walkStack (sample : Sample) : Except Trap (List WalkedFrame) :=
  walkLocations profile sample.locationIds.reverse

end Walk

/-- The children in `childOrder`, each under its key. -/
structure TrieNode where
  id : String
  functionName : String
  systemName : Option String
  filename : Option String
  line : Option Int64
  depth : ℕ
  parentId : Option String
  selfValue : Int64
  totalValue : Int64
  children : List (String × TrieNode)

/-- `+=` on `Int64`. -/
def addTrapping (a b : Int64) : Except Trap Int64 :=
  match addI64 a b with
  | some sum => .ok sum
  | none => .error .intOverflow

def rootNode : TrieNode where
  id := "root"
  functionName := "root"
  systemName := none
  filename := none
  line := none
  depth := 0
  parentId := none
  selfValue := 0
  totalValue := 0
  children := []

def childNode (key : String) (frame : WalkedFrame) (depth : ℕ) (parent : String) : TrieNode where
  id := key
  functionName := frame.name
  systemName := frame.systemName
  filename := frame.filename
  line := frame.line
  depth := depth
  parentId := some parent
  selfValue := 0
  totalValue := 0
  children := []

def setChild (canon : String → String) (key : String) (child : TrieNode) :
    List (String × TrieNode) → List (String × TrieNode)
  | [] => [(key, child)]
  | entry :: rest =>
    if sameString canon entry.1 key then (entry.1, child) :: rest
    else entry :: setChild canon key child rest

def findChild (canon : String → String) (key : String) (children : List (String × TrieNode)) :
    Option TrieNode :=
  (children.find? fun entry => sameString canon entry.1 key).map Prod.snd

/-- The loop over the frames, from the node reached at `pathKey`, `i` frames in. -/
def addFrames (canon : String → String) (value : Int64) :
    List WalkedFrame → String → ℕ → TrieNode → Except Trap TrieNode
  | [], _, _, node => do
    let selfValue ← addTrapping node.selfValue value
    return { node with selfValue := selfValue }
  | frame :: rest, pathKey, i, node => do
    let childPathKey := pathKey ++ "/" ++ frame.name
    let child := (findChild canon childPathKey node.children).getD
      (childNode childPathKey frame (i + 1) node.id)
    let totalValue ← addTrapping child.totalValue value
    let child ← addFrames canon value rest childPathKey (i + 1)
      { child with totalValue := totalValue }
    return { node with children := setChild canon childPathKey child node.children }

def addStack (canon : String → String) (root : TrieNode) (value : Int64)
    (frames : List WalkedFrame) : Except Trap TrieNode := do
  let totalValue ← addTrapping root.totalValue value
  addFrames canon value frames "root" 0 { root with totalValue := totalValue }

structure FlamegraphNode where
  id : String
  functionName : String
  systemName : Option String
  filename : Option String
  line : Option Int64
  depth : ℕ
  selfValue : Int64
  totalValue : Int64
  parentId : Option String
  childIds : List String
  deriving DecidableEq, Repr

def TrieNode.flat (node : TrieNode) : FlamegraphNode where
  id := node.id
  functionName := node.functionName
  systemName := node.systemName
  filename := node.filename
  line := node.line
  depth := node.depth
  selfValue := node.selfValue
  totalValue := node.totalValue
  parentId := node.parentId
  childIds := node.children.map Prod.fst

def TrieNode.childNodes (node : TrieNode) : List TrieNode := node.children.map Prod.snd

theorem TrieNode.sizeOf_childNodes (node : TrieNode) :
    (node.childNodes.map sizeOf).sum < sizeOf node := by
  have hlist (children : List (String × TrieNode)) :
      ((children.map Prod.snd).map sizeOf).sum ≤ sizeOf children := by
    induction children with
    | nil => exact Nat.zero_le _
    | cons entry rest ih =>
      obtain ⟨key, child⟩ := entry
      simp only [List.map_cons, List.sum_cons, List.cons.sizeOf_spec, Prod.mk.sizeOf_spec]
      omega
  have h := hlist node.children
  obtain ⟨_, _, _, _, _, _, _, _, _, children⟩ := node
  simp only [childNodes, TrieNode.mk.sizeOf_spec] at h ⊢
  omega

/-- The nodes in the order in which the queue is worked off. -/
def breadthFirst (queue : List TrieNode) : List FlamegraphNode :=
  match queue with
  | [] => []
  | node :: rest => node.flat :: breadthFirst (rest ++ node.childNodes)
termination_by (queue.map sizeOf).sum
decreasing_by
  have h := node.sizeOf_childNodes
  simp only [List.map_append, List.sum_append, List.map_cons, List.sum_cons]
  omega

/-- The position of each id; a later node replaces an earlier one. -/
def indexNodes (canon : String → String) (nodes : List FlamegraphNode) :
    Std.ExtHashMap String ℕ :=
  nodes.zipIdx.foldl (fun index entry => index.insert (canon entry.1.id) entry.2) ∅

structure ProfileConversionResult where
  nodes : List FlamegraphNode
  nodeIndex : Std.ExtHashMap String ℕ
  rootNodeId : Option String
  totalValue : Int64
  valueTypeNames : List (String × String)
  availableThreads : List String

section Convert

variable (canon : String → String) (profile : DecodedProfile) (options : ConversionOptions)

/-- `heapDomain ?? (heapDomains.count > 1 ? heapDomains.first : nil)`. -/
def selectedHeapOf : Except Trap (Option String) :=
  match options.heapDomain with
  | some domain => .ok (some domain)
  | none => do
    let domains ← heapDomains canon profile
    return if 1 < domains.length then domains.head? else none

/-- The magnitude counted for a raw value, if it has the sign. -/
def magnitude (raw : Int64) : Option Int64 :=
  let wanted := match options.valueSign with
    | .negative => decide (raw < 0)
    | .positive => decide (0 < raw)
  if wanted then
    some (if raw = -0x8000000000000000 then 0x7FFFFFFFFFFFFFFF else if raw < 0 then -raw else raw)
  else none

def passesHeap (selectedHeap : Option String) (sample : Sample) : Except Trap Bool :=
  match selectedHeap with
  | none => .ok true
  | some selected => do
    match ← heapDomainFor canon profile sample with
    | none => return false
    | some domain => return sameString canon domain selected

def passesThread (sample : Sample) : Except Trap Bool :=
  match options.threadFilter with
  | none => .ok true
  | some filter => do
    match ← profileThreadLabel canon profile sample with
    | none => return false
    | some label => return sameString canon label filter

def passesTime (sample : Sample) : Except Trap Bool :=
  match options.timeRangeNanos with
  | none => .ok true
  | some (lower, upper) => do
    match ← profileTimestampNanos canon profile sample with
    | none => return false
    | some timestamp => return lower ≤ timestamp ∧ timestamp ≤ upper

def rawValue (sample : Sample) : Option Int64 :=
  if options.valueTypeIndex < 0 then none else sample.values[options.valueTypeIndex.toNat]?

/-- The guards in front of the walk, up to the first that fails. -/
def passes (selectedHeap : Option String) (sample : Sample) : Except Trap Bool := do
  if ← passesHeap canon profile selectedHeap sample then
    if ← passesThread canon profile options sample then
      passesTime canon profile options sample
    else return false
  else return false

def addConverted (selectedHeap : Option String) (root : TrieNode) (sample : Sample) :
    Except Trap TrieNode :=
  match (rawValue options sample).bind (magnitude options) with
  | none => .ok root
  | some value => do
    if ← passes canon profile options selectedHeap sample then
      let frames ← walkStack profile sample
      addStack canon root value frames
    else return root

def convertProfile : Except Trap ProfileConversionResult := do
  let selectedHeap ← selectedHeapOf canon profile options
  let valueTypeNames ← profile.sampleTypes.mapM fun vt => do
    let type ← profile.string vt.type
    let unit ← profile.string vt.unit
    return (type, unit)
  let threads ← profile.samples.mapM (profileThreadLabel canon profile)
  let availableThreads := sortedSet canon (threads.filterMap id)
  if profile.samples = [] then
    return {
      nodes := []
      nodeIndex := ∅
      rootNodeId := none
      totalValue := 0
      valueTypeNames
      availableThreads }
  else
    let root ← profile.samples.foldlM (addConverted canon profile options selectedHeap) rootNode
    let nodes := breadthFirst [root]
    return {
      nodes
      nodeIndex := indexNodes canon nodes
      rootNodeId := if 0 < root.totalValue then some "root" else none
      totalValue := root.totalValue
      valueTypeNames
      availableThreads }

/-- `ProfileViewModel.getNode`. -/
def ProfileConversionResult.getNode (result : ProfileConversionResult) (nodeId : String) :
    Option FlamegraphNode :=
  result.nodeIndex[canon nodeId]?.bind fun index => result.nodes[index]?

end Convert

end PProfessor.Kit
