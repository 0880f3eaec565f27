import Mathlib.Tactic
import PProfessor.CheckedArith
import PProfessor.KeyedSum
import PProfessor.Keys
import Std.Data.ExtTreeMap

set_option autoImplicit false

/-!
# The native heap tracker

`HeapValues`, `HeapProfile::add_sample` and `NativeHeapTracker` of
`src/heap/mod.rs`. The tracker's methods run in a state monad that keeps the
state of a failed call, and an index out of bounds is an error of its own. The
hash map of live allocations hands out its entries in an order that `snapshot`
takes as an argument.
-/
namespace PProfessor.Heap
open CheckedArith

structure HeapMapping where
  memoryStart : UInt64
  memoryLimit : UInt64
  fileOffset : UInt64
  filename : String
  buildId : String
  deriving DecidableEq, Hashable, Repr

structure HeapFrame where
  address : UInt64
  function : String
  file : String
  line : Int64
  mapping : Option HeapMapping
  deriving DecidableEq, Hashable, Repr

instance : Inhabited HeapFrame := ⟨⟨0, "", "", 0, none⟩⟩

/-! The derived `Ord` instances compare the fields in order. -/

instance : Ord HeapMapping where
  compare := compareLex (compareOn HeapMapping.memoryStart)
    (compareLex (compareOn HeapMapping.memoryLimit)
      (compareLex (compareOn HeapMapping.fileOffset)
        (compareLex (compareOn HeapMapping.filename) (compareOn HeapMapping.buildId))))

instance : Std.TransOrd HeapMapping :=
  inferInstanceAs (Std.TransCmp (compareLex _ _))

instance : Std.LawfulEqOrd HeapMapping where
  eq_of_compare := by
    intro a b h
    obtain ⟨h₁, h₂, h₃, h₄, h₅⟩ : compare a.memoryStart b.memoryStart = .eq ∧
        compare a.memoryLimit b.memoryLimit = .eq ∧ compare a.fileOffset b.fileOffset = .eq ∧
        compare a.filename b.filename = .eq ∧ compare a.buildId b.buildId = .eq := by
      have hc : compare a b = compareLex (compareOn HeapMapping.memoryStart)
          (compareLex (compareOn HeapMapping.memoryLimit)
            (compareLex (compareOn HeapMapping.fileOffset)
              (compareLex (compareOn HeapMapping.filename) (compareOn HeapMapping.buildId))))
            a b := rfl
      rw [hc] at h
      simpa only [compareLex, compareOn, Ordering.then_eq_eq] using h
    cases a
    cases b
    simp_all

instance : Ord HeapFrame where
  compare := compareLex (compareOn HeapFrame.address)
    (compareLex (compareOn HeapFrame.function)
      (compareLex (compareOn HeapFrame.file)
        (compareLex (compareOn HeapFrame.line) (compareOn HeapFrame.mapping))))

instance : Std.TransOrd HeapFrame :=
  inferInstanceAs (Std.TransCmp (compareLex _ _))

instance : Std.LawfulEqOrd HeapFrame where
  eq_of_compare := by
    intro a b h
    obtain ⟨h₁, h₂, h₃, h₄, h₅⟩ : compare a.address b.address = .eq ∧
        compare a.function b.function = .eq ∧ compare a.file b.file = .eq ∧
        compare a.line b.line = .eq ∧ compare a.mapping b.mapping = .eq := by
      have hc : compare a b = compareLex (compareOn HeapFrame.address)
          (compareLex (compareOn HeapFrame.function) (compareLex (compareOn HeapFrame.file)
            (compareLex (compareOn HeapFrame.line) (compareOn HeapFrame.mapping)))) a b := rfl
      rw [hc] at h
      simpa only [compareLex, compareOn, Ordering.then_eq_eq] using h
    cases a
    cases b
    simp_all

abbrev Stack := List HeapFrame

inductive HeapError where
  | emptyStack
  | nullAllocation
  | duplicateLive (address : UInt64)
  | freeWithoutHistory (address : UInt64)
  | valueRange
  /-- A slice index out of bounds, which aborts the program. -/
  | panic
  deriving DecidableEq, Repr

/-- `{address:#x}`. -/
def hexText (address : UInt64) : String :=
  "0x" ++ String.ofList (Nat.toDigits 16 address.toNat)

def HeapError.message : HeapError → String
  | .emptyStack => "heap samples require an allocation stack"
  | .nullAllocation => "null is not a successful allocation"
  | .duplicateLive address => "duplicate live allocation at " ++ hexText address
  | .freeWithoutHistory address => "free without allocation history at " ++ hexText address
  | .valueRange => "heap measurement exceeds pprof int64 range"
  | .panic => "index out of bounds"

/-- Exact counts, or estimates already corrected by the sampling provider. -/
structure HeapValues where
  allocObjects : UInt64
  allocSpace : UInt64
  inuseObjects : UInt64
  inuseSpace : UInt64
  deriving DecidableEq, Repr

instance : Inhabited HeapValues := ⟨⟨0, 0, 0, 0⟩⟩

/-- One element of the loop of `checked_add`. -/
def addMetric (a b : UInt64) : Except HeapError UInt64 :=
  match (addU64 a b).filter fun v => v ≤ 0x7FFFFFFFFFFFFFFF with
  | some v => .ok v
  | none => .error .valueRange

def HeapValues.checkedAdd (a b : HeapValues) : Except HeapError HeapValues := do
  let allocObjects ← addMetric a.allocObjects b.allocObjects
  let allocSpace ← addMetric a.allocSpace b.allocSpace
  let inuseObjects ← addMetric a.inuseObjects b.inuseObjects
  let inuseSpace ← addMetric a.inuseSpace b.inuseSpace
  .ok ⟨allocObjects, allocSpace, inuseObjects, inuseSpace⟩

/-- One heap checkpoint; `collectedAt` is in nanoseconds from the Unix epoch. -/
structure HeapProfile where
  domain : String
  collectedAt : ℤ
  comment : String
  samples : Std.ExtTreeMap Stack HeapValues

def HeapProfile.new (domain : String) (now : ℤ) : HeapProfile := ⟨domain, now, "", ∅⟩

/-- Frames are leaf first, matching pprof's location order. -/
def HeapProfile.addSample (profile : HeapProfile) (stack : Stack) (values : HeapValues) :
    Except HeapError HeapProfile :=
  if stack = [] then .error .emptyStack
  else do
    let sum ← (profile.samples[stack]?.getD default).checkedAdd values
    .ok { profile with samples := profile.samples.insert stack sum }

/-- Strict allocation accounting for ordered, complete native allocation logs. -/
structure NativeHeapTracker where
  domain : String
  stackIds : Std.ExtHashMap Stack ℕ
  stackValues : List (Stack × HeapValues)
  live : Std.ExtHashMap UInt64 (UInt64 × ℕ)

namespace NativeHeapTracker

def new (domain : String) : NativeHeapTracker := ⟨domain, ∅, [], ∅⟩

/-- A method on `&mut self`: what a failed call did to the tracker is kept. -/
abbrev HeapM := EStateM HeapError NativeHeapTracker

def ensure (p : Prop) [Decidable p] (e : HeapError) : HeapM Unit :=
  if p then pure () else throw e

def lift {α : Type} : Except HeapError α → HeapM α
  | .ok a => pure a
  | .error e => throw e

/-- `self.stackValues[id]`, which panics out of bounds. -/
def stackAt (id : ℕ) : HeapM (Stack × HeapValues) := do
  match (← get).stackValues[id]? with
  | some entry => pure entry
  | none => throw .panic

def allocate (address size : UInt64) (stack : Stack) : HeapM Unit := do
  ensure (address ≠ 0) .nullAllocation
  ensure (stack ≠ []) .emptyStack
  ensure ((← get).live[address]? = none) (.duplicateLive address)
  let cost : HeapValues := { (default : HeapValues) with allocObjects := 1, allocSpace := size }
  let id ← (do
    match (← get).stackIds[stack]? with
    | some id =>
      let entry ← stackAt id
      let sum ← lift (entry.2.checkedAdd cost)
      modify fun t => { t with stackValues := t.stackValues.set id (entry.1, sum) }
      pure id
    | none =>
      let sum ← lift ((default : HeapValues).checkedAdd cost)
      let id := (← get).stackValues.length
      modify fun t => { t with stackIds := t.stackIds.insert stack id }
      modify fun t => { t with stackValues := t.stackValues ++ [(stack, sum)] }
      pure id)
  -- A live allocation stores a small stack id, not a duplicate backtrace.
  modify fun t => { t with live := t.live.insert address (size, id) }

def release (address : UInt64) : HeapM Unit := do
  if address = 0 then pure ()
  else
    let removed := (← get).live[address]?
    modify fun t => { t with live := t.live.erase address }
    ensure (removed ≠ none) (.freeWithoutHistory address)

/-- The first loop of `snapshot`, over the live allocations in map order. -/
def chargeLive (values : List HeapValues) :
    List (UInt64 × UInt64 × ℕ) → Except HeapError (List HeapValues)
  | [] => .ok values
  | (_, size, id) :: rest =>
    match values[id]? with
    | none => .error .panic
    | some v => do
      let sum ← v.checkedAdd { (default : HeapValues) with inuseObjects := 1, inuseSpace := size }
      chargeLive (values.set id sum) rest

/-- The second loop of `snapshot`. -/
def addSamples (profile : HeapProfile) : List (Stack × HeapValues) → Except HeapError HeapProfile
  | [] => .ok profile
  | (stack, values) :: rest => do
    let profile ← profile.addSample stack values
    addSamples profile rest

def snapshot (t : NativeHeapTracker) (order : List (UInt64 × UInt64 × ℕ)) (now : ℤ) :
    Except HeapError HeapProfile := do
  let values ← chargeLive (t.stackValues.map Prod.snd) order
  addSamples (.new t.domain now) ((t.stackValues.map Prod.fst).zip values)

end NativeHeapTracker

end PProfessor.Heap
