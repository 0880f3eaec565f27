import PProfessor.ByteOrder
import PProfessor.CheckedArith
import PProfessor.RingBuffer

set_option autoImplicit false

/-!
# Draining the ring of a perf event

`PerfEvent::drain_samples` and what it calls, of `src/sampler/linux.rs`. The kernel goes on
appending records during a call: every slice that is copied out of the ring finds it as it is at
an instant of its own. A slice outside the data area is `none`.
-/
namespace PProfessor.Perf
open ByteOrder CheckedArith

structure PerfSample where
  threadId : UInt32
  stack : List UInt64
  deriving DecidableEq, Repr

/-- `PERF_RECORD_SAMPLE`. -/
def recordSample : UInt32 := 9

/-- `PERF_CONTEXT_MARKER_MIN`: `u64::MAX - 4095`. -/
def contextMarkerMin : UInt64 := 0xFFFFFFFFFFFFFFFF - 4095

variable (order : Order)

def takeU64 (bytes : List UInt8) (offset : ℕ) : Option (UInt64 × ℕ) :=
  if offset + 8 ≤ bytes.length then some (.ofNat (order.read (cut bytes offset 8)), offset + 8)
  else none

def takeU32 (bytes : List UInt8) (offset : ℕ) : Option (UInt32 × ℕ) :=
  if offset + 4 ≤ bytes.length then some (.ofNat (order.read (cut bytes offset 4)), offset + 4)
  else none

def takeFrames (record : List UInt8) : ℕ → ℕ → Option (List UInt64)
  | 0, _ => some []
  | count + 1, offset => do
    let (address, offset) ← takeU64 order record offset
    let stack ← takeFrames record count offset
    if address ≠ 0 ∧ address < contextMarkerMin then return address :: stack
    return stack

def parsePerfSample (record : List UInt8) : Option PerfSample := do
  let (instructionPointer, offset) ← takeU64 order record 8
  let (_, offset) ← takeU32 order record offset
  let (threadId, offset) ← takeU32 order record offset
  let (frameCount, offset) ← takeU64 order record offset
  if 4096 < frameCount then
    none
  let stack ← takeFrames order record frameCount.toNat offset
  if instructionPointer ≠ 0 ∧ stack.head? ≠ some instructionPointer then
    return ⟨threadId, instructionPointer :: stack⟩
  return ⟨threadId, stack⟩

structure PerfEvent where
  dataSize : UInt64
  tail : UInt64
  deriving DecidableEq, Repr

/-- `from_raw_parts`, within the data area. -/
def slice (area : List UInt8) (start length : ℕ) : Option (List UInt8) :=
  if start + length ≤ area.length then some (cut area start length) else none

/-- `area` is the data area at each of the slices that are copied. -/
def copyRing (area : ℕ → List UInt8) (clock : ℕ) (dataSize position : UInt64) (length : ℕ) :
    Option (List UInt8) :=
  if dataSize = 0 then none
  else do
    let start := (position % dataSize).toNat
    let firstLength := min length (dataSize.toNat - start)
    let output ← slice (area clock) start firstLength
    if firstLength < length then
      let rest ← slice (area (clock + 1)) 0 (length - firstLength)
      return output ++ rest
    return output

/-- What a drain leaves: the records it consumed, the samples among them, and its slices. -/
structure Drained where
  records : List (List UInt8)
  samples : List PerfSample
  event : PerfEvent
  clock : ℕ

def sampleOf (recordType : UInt32) (record : List UInt8) : Option PerfSample :=
  if recordType = recordSample then parsePerfSample order record else none

theorem toNat_saturatingSubU64 (a b : UInt64) :
    (saturatingSubU64 a b).toNat = a.toNat - b.toNat := by
  unfold saturatingSubU64
  split_ifs with h
  · exact UInt64.toNat_sub_of_le _ _ h
  · have hlt : a.toNat < b.toNat := UInt64.lt_iff_toNat_lt.mp (UInt64.not_le.mp h)
    rw [Nat.sub_eq_zero_of_le hlt.le]
    rfl

theorem toNat_advance {head tail : UInt64} {size : UInt16}
    (h : size.toUInt64 ≤ saturatingSubU64 head tail) (hpos : 0 < size.toNat) :
    (tail + size.toUInt64).toNat = tail.toNat + size.toNat ∧
      tail.toNat + size.toNat ≤ head.toNat := by
  rw [UInt64.le_iff_toNat_le, toNat_saturatingSubU64] at h
  change size.toNat ≤ _ at h
  have hhead := head.toNat_lt
  refine ⟨?_, by omega⟩
  rw [UInt64.toNat_add]
  change (tail.toNat + size.toNat) % _ = _
  omega

/-- The loop of `drain_samples`. -/
def drainLoop (area : ℕ → List UInt8) (head : UInt64) (event : PerfEvent) (clock : ℕ) :
    Option Drained :=
  if 8 ≤ saturatingSubU64 head event.tail then do
    let header ← copyRing area clock event.dataSize event.tail 8
    let recordType : UInt32 := .ofNat (order.read (cut header 0 4))
    let recordSize : UInt16 := .ofNat (order.read (cut header 6 2))
    if hsize : recordSize < 8 ∨ saturatingSubU64 head event.tail < recordSize.toUInt64 then
      return ⟨[], [], event, clock + 2⟩
    else
      let record ← copyRing area (clock + 2) event.dataSize event.tail recordSize.toNat
      let rest ← drainLoop area head { event with tail := event.tail + recordSize.toUInt64 }
        (clock + 4)
      return { rest with
        records := record :: rest.records
        samples := (sampleOf order recordType record).toList ++ rest.samples }
  else some ⟨[], [], event, clock⟩
termination_by head.toNat - event.tail.toNat
decreasing_by
  obtain ⟨hsmall, hlarge⟩ := not_or.mp hsize
  have hpos : 8 ≤ recordSize.toNat := UInt16.le_iff_toNat_le.mp (UInt16.not_lt.mp hsmall)
  obtain ⟨hadd, hle⟩ := toNat_advance (UInt64.not_lt.mp hlarge) (by omega)
  rw [hadd]
  omega

/-- `PerfEvent::drain_samples`, from the head that it reads. -/
def drainSamples (area : ℕ → List UInt8) (head : UInt64) (event : PerfEvent) : Option Drained :=
  if event.dataSize < saturatingSubU64 head event.tail then
    drainLoop order area head { event with tail := head - event.dataSize } 0
  else drainLoop order area head event 0

end PProfessor.Perf
