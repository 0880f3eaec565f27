import PProfessor.KitConverter

set_option autoImplicit false

/-!
# The timeline and its selection

`ProfileTimeline.swift`. `Double` and `log2` are parameters.
-/
namespace PProfessor.Kit
open CheckedArith Pprof

instance linearOrderInt64 : LinearOrder Int64 where
  le_refl := Int64.le_refl
  le_trans _ _ _ := Int64.le_trans
  le_antisymm _ _ := Int64.le_antisymm
  le_total := Int64.le_total
  lt_iff_le_not_ge a b := by
    rw [Int64.lt_iff_toInt_lt, Int64.le_iff_toInt_le, Int64.le_iff_toInt_le]
    omega
  toDecidableLE := inferInstance
  toMax := inferInstance
  toMin := inferInstance

/-- The operations of `Double`. -/
structure Doubles (D : Type) where
  ofInt64 : Int64 → D
  /-- A literal. -/
  ofRat : ℚ → D
  add : D → D → D
  sub : D → D → D
  mul : D → D → D
  div : D → D → D
  log2 : D → D
  lt : D → D → Bool

/-- What the Swift code takes from the language: equality of strings and `Double`. -/
structure Platform (D : Type) where
  canon : String → String
  doubles : Doubles D

/-- Exact arithmetic for profiles of one sample, where `log2` is only asked about 1. -/
def rationals : Doubles ℚ where
  ofInt64 i := i.toInt
  ofRat q := q
  add a b := a + b
  sub a b := a - b
  mul a b := a * b
  div a b := a / b
  log2 _ := 0
  lt a b := decide (a < b)

def plain : Platform ℚ := ⟨id, rationals⟩

/-- `*` on `Int64`. -/
def mulTrapping (a b : Int64) : Except Trap Int64 :=
  if InI64 (a.toInt * b.toInt) then .ok (a * b) else .error .intOverflow

namespace Doubles

variable {D : Type} (doubles : Doubles D)

/-- `max()` of a sequence. -/
def maximum : List D → Option D
  | [] => none
  | d :: rest => some (rest.foldl (fun m e => if doubles.lt m e then e else m) d)

/-- `min()` of a sequence. -/
def minimum : List D → Option D
  | [] => none
  | d :: rest => some (rest.foldl (fun m e => if doubles.lt e m then e else m) d)

end Doubles

structure ProfileTimeline (D : Type) where
  durationNanos : Int64
  buckets : List D

namespace ProfileTimeline

variable {D : Type} (P : Platform D) (profile : DecodedProfile)

structure EligibleSample (D : Type) where
  sample : Sample
  timestamp : Int64
  value : D

def timedSamples : Except Trap (List (Sample × Int64)) := do
  let timed ← profile.samples.mapM fun sample => do
    let timestamp ← profileTimestampNanos P.canon profile sample
    return timestamp.map (Prod.mk sample)
  return timed.filterMap id

def duration (timed : List (Sample × Int64)) : Except Trap (Option Int64) :=
  if timed.length = profile.samples.length then do
    let lastTimestamp := (timed.map Prod.snd).max?.getD 0
    let ending ← addTrapping lastTimestamp (max 1 profile.period)
    return some (max (max 1 profile.durationNanos) ending)
  else .ok none

def eligible (options : ConversionOptions) (timed : Sample × Int64) :
    Except Trap (Option (EligibleSample D)) :=
  match rawValue options timed.1 with
  | none => .ok none
  | some raw => do
    if ← passesThread P.canon profile options timed.1 then
      let value := P.doubles.ofInt64 raw
      return if P.doubles.lt (P.doubles.ofRat 0) value then some ⟨timed.1, timed.2, value⟩
        else none
    else return none

def weigh (weights : Std.ExtHashMap (List UInt64) D × D) (e : EligibleSample D) :
    Std.ExtHashMap (List UInt64) D × D :=
  let weight := weights.1.getD e.sample.locationIds (P.doubles.ofRat 0)
  (weights.1.insert e.sample.locationIds (P.doubles.add weight e.value),
    P.doubles.add weights.2 e.value)

def fill (weights : Std.ExtHashMap (List UInt64) D × D) (duration : Int64) (count : ℕ)
    (rawBuckets : List D) (e : EligibleSample D) : Except Trap (List D) := do
  let clampedTimestamp := min (max 0 e.timestamp) (duration - 1)
  let scaled ← mulTrapping clampedTimestamp (.ofNat count)
  let index := min (count - 1) (scaled / duration).toInt.toNat
  let stackWeight := weights.1.getD e.sample.locationIds e.value
  let surprise := if P.doubles.lt (P.doubles.ofRat 0) weights.2 then
      P.doubles.log2 (P.doubles.div weights.2 stackWeight)
    else P.doubles.ofRat 0
  let gain := P.doubles.mul e.value (P.doubles.add (P.doubles.ofRat 1) surprise)
  return rawBuckets.modify index fun bucket => P.doubles.add bucket gain

def normalized (rawBuckets : List D) : List D :=
  let positive (d : D) : Bool := P.doubles.lt (P.doubles.ofRat 0) d
  let nonzero := rawBuckets.filter positive
  let maximum := (P.doubles.maximum nonzero).getD (P.doubles.ofRat 0)
  let minimum := (P.doubles.minimum nonzero).getD (P.doubles.ofRat 0)
  if positive maximum ∧
      P.doubles.lt (P.doubles.ofRat (1 / 1000000)) (P.doubles.sub maximum minimum) then
    rawBuckets.map fun bucket => P.doubles.div bucket maximum
  else
    rawBuckets.map fun bucket =>
      if positive bucket then P.doubles.ofRat (1 / 4) else P.doubles.ofRat 0

def options (valueTypeIndex : ℤ) (threadFilter : Option String) : ConversionOptions where
  valueTypeIndex
  threadFilter
  timeRangeNanos := none
  valueSign := .positive
  heapDomain := none

def fillBuckets (valueTypeIndex : ℤ) (threadFilter : Option String) (bucketCount : ℕ)
    (timed : List (Sample × Int64)) (duration : Int64) : Except Trap (List D) := do
  let found ← timed.mapM (eligible P profile (options valueTypeIndex threadFilter))
  let eligibleSamples := found.filterMap id
  let effectiveBucketCount := min bucketCount (max 16 (eligibleSamples.length / 3))
  let weights := eligibleSamples.foldl (weigh P) (∅, P.doubles.ofRat 0)
  let rawBuckets ← eligibleSamples.foldlM (fill P weights duration effectiveBucketCount)
    (List.replicate effectiveBucketCount (P.doubles.ofRat 0))
  return normalized P rawBuckets

def build (valueTypeIndex : ℤ) (threadFilter : Option String) (bucketCount : ℕ) :
    Except Trap (Option (ProfileTimeline D)) :=
  if profile.samples = [] ∨ bucketCount = 0 then .ok none
  else do
    let timed ← timedSamples P profile
    match ← duration profile timed with
    | none => return none
    | some duration =>
      let buckets ← fillBuckets P profile valueTypeIndex threadFilter bucketCount timed duration
      return some ⟨duration, buckets⟩

end ProfileTimeline

/-- `ClosedRange<Int64>`. -/
structure ClosedRange where
  lowerBound : Int64
  upperBound : Int64
  ordered : lowerBound ≤ upperBound
  deriving DecidableEq

namespace ClosedRange

/-- `lower...upper`, which traps if the bounds are the wrong way round. -/
def of (lower upper : Int64) : Option ClosedRange :=
  if h : lower ≤ upper then some ⟨lower, upper, h⟩ else none

/-- Both ends brought into `0...duration`. -/
def clamp (range : ClosedRange) (duration : Int64) : ClosedRange where
  lowerBound := min (max 0 range.lowerBound) (max 1 duration)
  upperBound := min (max 0 range.upperBound) (max 1 duration)
  ordered := min_le_min_right _ (max_le_max_left _ range.ordered)

theorem clamp_clamp (range : ClosedRange) (duration : Int64) :
    (range.clamp duration).clamp duration = range.clamp duration := by
  have hpos : (0 : Int64) ≤ max 1 duration := le_trans (by decide) (le_max_left _ _)
  have hend : ∀ x : Int64, min (max 0 (min (max 0 x) (max 1 duration))) (max 1 duration) =
      min (max 0 x) (max 1 duration) := by
    intro x
    rw [max_eq_right (le_min (le_max_left _ _) hpos), min_assoc, min_self]
  unfold clamp
  simp only [hend]

end ClosedRange

structure TimelineSelectionState where
  range : ClosedRange
  isFollowingLive : Bool
  deriving DecidableEq

namespace TimelineSelectionState

theorem zero_le_duration (duration : Int64) : 0 ≤ max 1 duration :=
  le_trans (by decide) (le_max_left _ _)

def new (durationNanos : Int64) : TimelineSelectionState where
  range := ⟨0, max 1 durationNanos, zero_le_duration durationNanos⟩
  isFollowingLive := true

def updateDuration (s : TimelineSelectionState) (durationNanos : Int64) :
    TimelineSelectionState :=
  let duration := max 1 durationNanos
  if s.isFollowingLive then
    { s with range := ⟨0, duration, zero_le_duration durationNanos⟩ }
  else
    let lower := min (max 0 s.range.lowerBound) duration
    let upper := min (max lower s.range.upperBound) duration
    { s with range := ⟨lower, upper, le_min (le_max_left _ _) (min_le_right _ _)⟩ }

def select (s : TimelineSelectionState) (newRange : ClosedRange) :
    Option TimelineSelectionState := do
  let range ← ClosedRange.of (max 0 newRange.lowerBound)
    (max newRange.lowerBound newRange.upperBound)
  return { s with range, isFollowingLive := false }

def reset (_s : TimelineSelectionState) (durationNanos : Int64) : TimelineSelectionState :=
  new durationNanos

theorem updateDuration_fixed (range : ClosedRange) (durationNanos : Int64) :
    updateDuration ⟨range, false⟩ durationNanos = ⟨range.clamp durationNanos, false⟩ := by
  have hpos := zero_le_duration durationNanos
  have hlower : max (min (max 0 range.lowerBound) (max 1 durationNanos)) range.upperBound =
      max 0 range.upperBound := by
    rcases le_total 0 range.upperBound with hupper | hupper
    · rw [max_eq_right hupper, max_eq_right]
      exact le_trans (min_le_left _ _) (max_le hupper range.ordered)
    · rw [max_eq_left (le_trans range.ordered hupper), min_eq_left hpos]
  unfold updateDuration
  simp only [Bool.false_eq_true, if_false, hlower]
  rfl

end TimelineSelectionState

/-- The selection kept over a new timeline. -/
def updatedSelection {D : Type} (timeline : Option (ProfileTimeline D))
    (selection : Option TimelineSelectionState) (resetSelection : Bool) :
    Option TimelineSelectionState :=
  timeline.map fun timeline =>
    match resetSelection, selection with
    | false, some selection => selection.updateDuration timeline.durationNanos
    | _, _ => .new timeline.durationNanos

structure ProfilePresentation (D : Type) where
  timeline : Option (ProfileTimeline D)
  timelineSelection : Option TimelineSelectionState
  conversion : ProfileConversionResult

def TimelineSelectionState.bounds (s : TimelineSelectionState) : Int64 × Int64 :=
  (s.range.lowerBound, s.range.upperBound)

/-- The sign and the heap domain are left at their defaults. -/
def buildProfilePresentation {D : Type} (P : Platform D) (profile : DecodedProfile)
    (valueTypeIndex : ℤ) (threadFilter : Option String)
    (selection : Option TimelineSelectionState) (resetSelection : Bool) (bucketCount : ℕ) :
    Except Trap (ProfilePresentation D) := do
  let timeline ← ProfileTimeline.build P profile valueTypeIndex threadFilter bucketCount
  let timelineSelection := updatedSelection timeline selection resetSelection
  let conversion ← convertProfile P.canon profile {
    valueTypeIndex
    threadFilter
    timeRangeNanos := timelineSelection.map TimelineSelectionState.bounds
    valueSign := .positive
    heapDomain := none }
  return ⟨timeline, timelineSelection, conversion⟩

namespace DecodedProfile

variable (canon : String → String) (profile : DecodedProfile)

def preferredValueTypeIndex : Except Trap ℤ := do
  let last : ℤ := max 0 ((profile.sampleTypes.length : ℤ) - 1)
  if profile.defaultSampleType = 0 then return last
  else
    let wanted ← profile.string profile.defaultSampleType
    let found ← profile.sampleTypes.zipIdx.findM? fun type => do
      let name ← profile.string type.1.type
      return sameString canon name wanted
    return (found.map fun type => (type.2 : ℤ)).getD last

def hasNegativeValues : Bool :=
  profile.samples.any fun sample => sample.values.any fun value => value < 0

def valueTypeNames : Except Trap (List (String × String)) :=
  profile.sampleTypes.mapM fun vt => do
    let type ← profile.string vt.type
    let unit ← profile.string vt.unit
    return (type, unit)

end DecodedProfile

end PProfessor.Kit
