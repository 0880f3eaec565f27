import PProfessor.ByteMemory
import PProfessor.ByteOrder
import PProfessor.ChainWalk

set_option autoImplicit false

/-!
# Walking the frame pointers of a thread

`walk_frame_pointers` of `src/sampler/linux.rs` and of `src/sampler/macos.rs`, with the functions
that take a stack by it. Reading the memory of the target is a parameter: every frame is read at
an instant of its own, as the other threads of the target need not be stopped.
-/
namespace PProfessor.Capture
open ByteMemory ByteOrder ChainWalk

/-- The bytes that can be read of a process. A `u64` reaches all of its addresses. -/
structure TargetMemory where
  bytes : Memory
  bounded : ∀ address, 2 ^ 64 ≤ address → bytes address = none

namespace TargetMemory

/-- `process_vm_readv`, or `mach_vm_read_overwrite`, where it reads as much as was asked for. -/
def read (memory : TargetMemory) (address : UInt64) (length : ℕ) : Option (List UInt8) :=
  memory.bytes.read address.toNat length

theorem store_bounded (memory : TargetMemory) {address : ℕ} {bytes : List UInt8}
    (h : address + bytes.length ≤ 2 ^ 64) (place : ℕ) (hplace : 2 ^ 64 ≤ place) :
    memory.bytes.store address bytes place = none := by
  have houtside : ¬(address ≤ place ∧ place < address + bytes.length) := by omega
  rw [Memory.store, if_neg houtside, memory.bounded place hplace]

def store (memory : TargetMemory) (address : ℕ) (bytes : List UInt8)
    (h : address + bytes.length ≤ 2 ^ 64) : TargetMemory where
  bytes := memory.bytes.store address bytes
  bounded := memory.store_bounded h

end TargetMemory

/-- `MAX_DEPTH` -/
def maxDepth : ℕ := 256

/-- The loop over the frames: what turns the saved word into an address is `strip`. -/
def walkFrames (order : Order) (strip : UInt64 → UInt64) (memory : ℕ → TargetMemory) :
    ℕ → ℕ → UInt64 → List UInt64 → List UInt64
  | 0, _, _, stack => stack
  | depth + 1, clock, fp, stack =>
    if fp = 0 ∨ fp &&& 7 ≠ 0 then stack
    else
      match (memory clock).read fp 16 with
      | none => stack
      | some frame =>
        let previousFp : UInt64 := .ofNat (order.read (cut frame 0 8))
        let returnAddress := strip (.ofNat (order.read (cut frame 8 8)))
        if returnAddress = 0 then stack
        -- A stack must grow downward, which guards against cycles.
        else if previousFp ≤ fp then stack ++ [returnAddress]
        else walkFrames order strip memory depth (clock + 1) previousFp (stack ++ [returnAddress])

namespace Linux

def walkFramePointers (order : Order) (memory : ℕ → TargetMemory) (clock : ℕ) (fp : UInt64)
    (stack : List UInt64) : List UInt64 :=
  walkFrames order id memory maxDepth clock fp stack

/-- The registers are `None` where the thread cannot be attached to or read. -/
def sampleThread (order : Order) (memory : ℕ → TargetMemory) (clock : ℕ)
    (registers : Option (UInt64 × UInt64)) : Option (List UInt64) := do
  let (pc, fp) ← registers
  return walkFramePointers order memory clock fp [pc]

end Linux

namespace Macos

inductive Arch where
  | aarch64
  | x86_64
  deriving DecidableEq, Repr

/-- Strip pointer authentication codes from an address on Apple Silicon. -/
def Arch.stripPac : Arch → UInt64 → UInt64
  | aarch64, address => address &&& 0x0000007FFFFFFFFF
  | x86_64, address => address

def walkFramePointers (arch : Arch) (memory : ℕ → TargetMemory) (clock : ℕ) (startFp : UInt64)
    (addresses : List UInt64) : List UInt64 :=
  walkFrames .little arch.stripPac memory maxDepth clock startFp addresses

/-- The state is `None` where `thread_get_state` fails. -/
def readThreadStack (arch : Arch) (memory : ℕ → TargetMemory) (clock : ℕ)
    (state : Option (UInt64 × UInt64)) : Option (List UInt64) := do
  let (pc, fp) ← state
  return walkFramePointers arch memory clock (arch.stripPac fp) [arch.stripPac pc]

end Macos

def FrameAt (order : Order) (strip : UInt64 → UInt64) (memory : TargetMemory)
    (fp previousFp returnAddress : UInt64) : Prop :=
  fp ≠ 0 ∧ 8 ∣ fp.toNat ∧ returnAddress ≠ 0 ∧ ∃ saved : UInt64, strip saved = returnAddress ∧
    memory.read fp 16 = some (order.write 8 previousFp.toNat ++ order.write 8 saved.toNat)

/-- The frame pointers and the return addresses from a frame pointer on, for as long as each frame
saves a frame pointer above its own. -/
inductive CallChain (order : Order) (strip : UInt64 → UInt64) (memory : ℕ → TargetMemory) :
    ℕ → UInt64 → List (UInt64 × UInt64) → Prop
  | missing {clock : ℕ} {fp : UInt64} :
    (∀ previousFp returnAddress, ¬ FrameAt order strip (memory clock) fp previousFp returnAddress) →
    CallChain order strip memory clock fp []
  | outermost {clock : ℕ} {fp previousFp returnAddress : UInt64} :
    FrameAt order strip (memory clock) fp previousFp returnAddress → previousFp ≤ fp →
    CallChain order strip memory clock fp [(fp, returnAddress)]
  | frame {clock : ℕ} {fp previousFp returnAddress : UInt64} {rest : List (UInt64 × UInt64)} :
    FrameAt order strip (memory clock) fp previousFp returnAddress → fp < previousFp →
    CallChain order strip memory (clock + 1) previousFp rest →
    CallChain order strip memory clock fp ((fp, returnAddress) :: rest)

section Walk

variable (order : Order) (strip : UInt64 → UInt64) (memory : ℕ → TargetMemory)

def frameCells : Cells UInt64 UInt64 := fun clock fp =>
  if fp = 0 ∨ fp &&& 7 ≠ 0 then none
  else do
    let frame ← (memory clock).read fp 16
    let previousFp : UInt64 := .ofNat (order.read (cut frame 0 8))
    let returnAddress := strip (.ofNat (order.read (cut frame 8 8)))
    if returnAddress = 0 then none
    else if previousFp ≤ fp then some (returnAddress, none)
    else some (returnAddress, some previousFp)

theorem walkFrames_eq (depth clock : ℕ) (fp : UInt64) (stack : List UInt64) :
    walkFrames order strip memory depth clock fp stack =
      stack ++ walk (frameCells order strip memory) depth clock fp := by
  induction depth generalizing clock fp stack with
  | zero => rw [walkFrames, walk, List.append_nil]
  | succ depth ih =>
    rw [walkFrames, walk, frameCells]
    by_cases hfp : fp = 0 ∨ fp &&& 7 ≠ 0
    · rw [if_pos hfp, if_pos hfp, List.append_nil]
    · rw [if_neg hfp, if_neg hfp]
      cases (memory clock).read fp 16 with
      | none => exact (List.append_nil stack).symm
      | some frame =>
        simp only [bind, Option.bind_some]
        by_cases hzero : strip (.ofNat (order.read (cut frame 8 8))) = 0
        · rw [if_pos hzero, if_pos hzero, List.append_nil]
        · rw [if_neg hzero, if_neg hzero]
          by_cases hle : UInt64.ofNat (order.read (cut frame 0 8)) ≤ fp
          · rw [if_pos hle, if_pos hle]
          · rw [if_neg hle, if_neg hle, ih, List.append_assoc, List.singleton_append]

variable {order strip memory}

theorem aligned_iff (fp : UInt64) : fp &&& 7 = 0 ↔ 8 ∣ fp.toNat := by
  have hand : (fp &&& 7).toNat = fp.toNat % 8 := by
    rw [UInt64.toNat_and]
    exact Nat.and_two_pow_sub_one_eq_mod fp.toNat 3
  rw [← UInt64.toNat_inj, hand]
  exact (Nat.dvd_iff_mod_eq_zero ..).symm

theorem write_word {bytes : List UInt8} (h : bytes.length = 8) :
    order.write 8 (UInt64.ofNat (order.read bytes)).toNat = bytes := by
  have hlt := order.read_lt bytes
  rw [h] at hlt
  have hword : (UInt64.ofNat (order.read bytes)).toNat = order.read bytes :=
    UInt64.toNat_ofNat_of_lt' hlt
  rw [hword, ← h, order.write_read]

theorem read_word (word : UInt64) :
    UInt64.ofNat (order.read (order.write 8 word.toNat)) = word := by
  rw [order.read_write word.toNat_lt, UInt64.ofNat_toNat]

theorem frame_eq {frame : List UInt8} (h : frame.length = 16) : frame =
    order.write 8 (UInt64.ofNat (order.read (cut frame 0 8))).toNat ++
      order.write 8 (UInt64.ofNat (order.read (cut frame 8 8))).toNat := by
  have hback : (cut frame 8 8).length = 8 := length_cut (by rw [h])
  rw [write_word (length_cut (by omega)), write_word hback, cut, cut, List.drop_zero,
    List.take_of_length_le (l := frame.drop 8) (by rw [List.length_drop, h]), List.take_append_drop]

theorem frameAt_iff {target : TargetMemory} {fp previousFp returnAddress : UInt64} :
    FrameAt order strip target fp previousFp returnAddress ↔
      ¬ (fp = 0 ∨ fp &&& 7 ≠ 0) ∧ ∃ frame, target.read fp 16 = some frame ∧
        UInt64.ofNat (order.read (cut frame 0 8)) = previousFp ∧
        strip (.ofNat (order.read (cut frame 8 8))) = returnAddress ∧ returnAddress ≠ 0 := by
  rw [not_or, not_not, aligned_iff]
  constructor
  · rintro ⟨hnull, haligned, hreturn, saved, hsaved, hread⟩
    have hfront : cut (order.write 8 previousFp.toNat ++ order.write 8 saved.toNat) 0 8 =
        order.write 8 previousFp.toNat := by
      rw [cut_append_left (by rw [order.length_write])]
      exact List.take_of_length_le (by rw [List.drop_zero, order.length_write])
    have hback : cut (order.write 8 previousFp.toNat ++ order.write 8 saved.toNat) 8 8 =
        order.write 8 saved.toNat := by
      have h := @cut_append_right (order.write 8 previousFp.toNat) (order.write 8 saved.toNat) 0 8
      rw [order.length_write] at h
      rw [h]
      exact List.take_of_length_le (by rw [List.drop_zero, order.length_write])
    exact ⟨⟨hnull, haligned⟩, _, hread, by rw [hfront, read_word], by rw [hback, read_word, hsaved],
      hreturn⟩
  · rintro ⟨⟨hnull, haligned⟩, frame, hread, hprevious, hreturn, hne⟩
    refine ⟨hnull, haligned, hne, _, hreturn, ?_⟩
    rw [hread, ← hprevious]
    exact congrArg some (frame_eq (Memory.length_of_read hread))

theorem frameCells_eq_some_iff {clock : ℕ} {fp returnAddress : UInt64} {next : Option UInt64} :
    frameCells order strip memory clock fp = some (returnAddress, next) ↔
      ∃ previousFp, FrameAt order strip (memory clock) fp previousFp returnAddress ∧
        next = if previousFp ≤ fp then none else some previousFp := by
  simp only [frameAt_iff]
  unfold frameCells
  by_cases hfp : fp = 0 ∨ fp &&& 7 ≠ 0
  · simp [hfp]
  · simp only [if_neg hfp, bind, Option.bind_eq_some_iff]
    constructor
    · rintro ⟨frame, hread, h⟩
      split_ifs at h with hzero hle
      · cases h
        exact ⟨_, ⟨hfp, frame, hread, rfl, rfl, hzero⟩, (if_pos hle).symm⟩
      · cases h
        exact ⟨_, ⟨hfp, frame, hread, rfl, rfl, hzero⟩, (if_neg hle).symm⟩
    · rintro ⟨previousFp, ⟨-, frame, hread, rfl, rfl, hzero⟩, rfl⟩
      refine ⟨frame, hread, ?_⟩
      rw [if_neg hzero]
      split_ifs <;> rfl

theorem frameCells_eq_none_iff {clock : ℕ} {fp : UInt64} :
    frameCells order strip memory clock fp = none ↔ ∀ previousFp returnAddress,
      ¬ FrameAt order strip (memory clock) fp previousFp returnAddress := by
  constructor
  · intro hnone previousFp returnAddress hframe
    have hsome := frameCells_eq_some_iff.mpr ⟨previousFp, hframe, rfl⟩
    exact Option.some_ne_none _ (hsome.symm.trans hnone)
  · intro h
    refine Option.eq_none_iff_forall_ne_some.mpr fun cell hcell => ?_
    obtain ⟨previousFp, hframe, -⟩ := frameCells_eq_some_iff.mp hcell
    exact h previousFp cell.1 hframe

theorem callChain_iff {clock : ℕ} {fp : UInt64} {frames : List (UInt64 × UInt64)} :
    CallChain order strip memory clock fp frames ↔
      Chain (frameCells order strip memory) clock fp frames := by
  constructor
  · intro h
    induction h with
    | missing hnone => exact .missing (frameCells_eq_none_iff.mpr hnone)
    | outermost hframe hle =>
      exact .last (frameCells_eq_some_iff.mpr ⟨_, hframe, (if_pos hle).symm⟩)
    | frame hframe hlt _ ih =>
      exact .link (frameCells_eq_some_iff.mpr ⟨_, hframe, (if_neg (UInt64.not_le.mpr hlt)).symm⟩) ih
  · intro h
    induction h with
    | missing hnone => exact .missing (frameCells_eq_none_iff.mp hnone)
    | last hlast =>
      obtain ⟨previousFp, hframe, hnext⟩ := frameCells_eq_some_iff.mp hlast
      refine .outermost hframe (UInt64.not_lt.mp fun hlt => ?_)
      rw [if_neg (UInt64.not_le.mpr hlt)] at hnext
      exact Option.some_ne_none _ hnext.symm
    | link hlink _ ih =>
      obtain ⟨previousFp, hframe, hnext⟩ := frameCells_eq_some_iff.mp hlink
      split_ifs at hnext with hle
      cases hnext
      exact .frame hframe (UInt64.not_le.mp hle) ih

theorem frameCells_up (order : Order) (strip : UInt64 → UInt64) (memory : ℕ → TargetMemory)
    (clock : ℕ) (fp returnAddress previousFp : UInt64)
    (h : frameCells order strip memory clock fp = some (returnAddress, some previousFp)) :
    fp < previousFp := by
  obtain ⟨saved, -, hnext⟩ := frameCells_eq_some_iff.mp h
  split_ifs at hnext with hle
  cases hnext
  exact UInt64.not_le.mp hle

theorem addresses_wf : WellFounded fun later fp : UInt64 => fp < later := by
  refine Subrelation.wf (fun {later fp} h => ?_) (measure fun fp : UInt64 => 2 ^ 64 - fp.toNat).wf
  have hlater := later.toNat_lt
  rw [UInt64.lt_iff_toNat_lt] at h
  change 2 ^ 64 - later.toNat < 2 ^ 64 - fp.toNat
  omega

/-- Whatever the memory holds and however it changes on the way, even where frame pointers lead
back, one chain of frames starts at a frame pointer. Its frames ascend, and a walk adds the return
addresses of the first 256. -/
theorem walkFrames_callChain (order : Order) (strip : UInt64 → UInt64)
    (memory : ℕ → TargetMemory) (clock : ℕ) (fp : UInt64) (stack : List UInt64) :
    ∃ frames, (∀ other, CallChain order strip memory clock fp other ↔ other = frames) ∧
      (frames.Pairwise fun frame outer => frame.1 < outer.1) ∧
      walkFrames order strip memory maxDepth clock fp stack =
        stack ++ (frames.map Prod.snd).take maxDepth := by
  have : IsTrans UInt64 (· < ·) := ⟨fun _ _ _ => UInt64.lt_trans⟩
  have hup := frameCells_up order strip memory
  obtain ⟨frames, hchain⟩ := exists_chain hup addresses_wf clock fp
  refine ⟨frames, fun other => ⟨fun h => hchain.unique (callChain_iff.mp h), ?_⟩,
    hchain.ascending hup, ?_⟩
  · rintro rfl
    exact callChain_iff.mpr hchain
  · rw [walkFrames_eq, hchain.walk_eq]

end Walk

/-- On both platforms a sample is the program counter and the return addresses of the first 256
frames of the only chain that starts at the frame pointer. -/
theorem stacks_callChain (order : Order) (arch : Macos.Arch) (memory : ℕ → TargetMemory)
    (clock : ℕ) (pc fp : UInt64) :
    (∃ frames, (∀ other, CallChain order id memory clock fp other ↔ other = frames) ∧
      (frames.Pairwise fun frame outer => frame.1 < outer.1) ∧
      Linux.sampleThread order memory clock (some (pc, fp)) =
        some (pc :: (frames.map Prod.snd).take maxDepth)) ∧
    ∃ frames, (∀ other, CallChain .little arch.stripPac memory clock (arch.stripPac fp) other ↔
        other = frames) ∧
      (frames.Pairwise fun frame outer => frame.1 < outer.1) ∧
      Macos.readThreadStack arch memory clock (some (pc, fp)) =
        some (arch.stripPac pc :: (frames.map Prod.snd).take maxDepth) := by
  obtain ⟨frames, hlinux, hup, hwalk⟩ := walkFrames_callChain order id memory clock fp [pc]
  obtain ⟨addresses, hmacos, hmacosUp, hmacosWalk⟩ := walkFrames_callChain .little arch.stripPac
    memory clock (arch.stripPac fp) [arch.stripPac pc]
  exact ⟨⟨frames, hlinux, hup, congrArg some hwalk⟩,
    ⟨addresses, hmacos, hmacosUp, congrArg some hmacosWalk⟩⟩

/-- A frame of compiled code: where it lies, and the return address as it is saved. -/
structure CallFrame where
  place : UInt64
  saved : UInt64
  nonnull : place ≠ 0
  aligned : 8 ∣ place.toNat
  fits : place.toNat + 16 ≤ 2 ^ 64

/-- The frame pointer of the innermost frame; the outermost saves a null pointer. -/
def framePointer : List CallFrame → UInt64
  | [] => 0
  | frame :: _ => frame.place

def frameBytes (order : Order) (frame : CallFrame) (outer : List CallFrame) : List UInt8 :=
  order.write 8 (framePointer outer).toNat ++ order.write 8 frame.saved.toNat

theorem length_frameBytes (order : Order) (frame : CallFrame) (outer : List CallFrame) :
    (frameBytes order frame outer).length = 16 := by
  rw [frameBytes, List.length_append, order.length_write, order.length_write]

/-- The memory after the frames have been written, innermost last. -/
def layFrames (order : Order) : List CallFrame → TargetMemory → TargetMemory
  | [], memory => memory
  | frame :: outer, memory =>
    (layFrames order outer memory).store frame.place.toNat (frameBytes order frame outer)
      (by rw [length_frameBytes]; exact frame.fits)

/-- Every frame lies below the ones outside it and apart from them. -/
def Stacked (frames : List CallFrame) : Prop :=
  frames.Pairwise fun frame outer => frame.place.toNat + 16 ≤ outer.place.toNat

/-- The memory has the frames where they lie. -/
def Holds (order : Order) (memory : TargetMemory) : List CallFrame → Prop
  | [] => True
  | frame :: outer =>
    memory.read frame.place 16 = some (frameBytes order frame outer) ∧ Holds order memory outer

theorem Holds.store {order : Order} {memory : TargetMemory} {frames : List CallFrame} {address : ℕ}
    {bytes : List UInt8} {h : address + bytes.length ≤ 2 ^ 64} (hholds : Holds order memory frames)
    (hapart : ∀ frame ∈ frames, address + bytes.length ≤ frame.place.toNat ∨
      frame.place.toNat + 16 ≤ address) : Holds order (memory.store address bytes h) frames := by
  induction frames with
  | nil => trivial
  | cons frame outer ih =>
    rw [List.forall_mem_cons] at hapart
    refine ⟨?_, ih hholds.2 hapart.2⟩
    rw [← hholds.1]
    exact Memory.read_store_of_disjoint memory.bytes hapart.1.symm

theorem holds_layFrames (order : Order) {frames : List CallFrame} (h : Stacked frames)
    (memory : TargetMemory) : Holds order (layFrames order frames memory) frames := by
  induction frames with
  | nil => trivial
  | cons frame outer ih =>
    obtain ⟨hfirst, hrest⟩ := List.pairwise_cons.mp h
    constructor
    · have hread := Memory.read_store (layFrames order outer memory).bytes frame.place.toNat
        (frameBytes order frame outer)
      rw [length_frameBytes] at hread
      exact hread
    · refine (ih hrest).store fun other hother => Or.inl ?_
      rw [length_frameBytes]
      exact hfirst other hother

theorem Holds.callChain {order : Order} {strip : UInt64 → UInt64} {memory : ℕ → TargetMemory}
    {frames : List CallFrame} (hholds : ∀ clock, Holds order (memory clock) frames)
    (h : Stacked frames) (hreturn : ∀ frame ∈ frames, strip frame.saved ≠ 0) (clock : ℕ) :
    CallChain order strip memory clock (framePointer frames)
      (frames.map fun frame => (frame.place, strip frame.saved)) := by
  induction frames generalizing clock with
  | nil => exact .missing fun previousFp returnAddress hframe => hframe.1 rfl
  | cons frame outer ih =>
    rw [List.forall_mem_cons] at hreturn
    have hframe : FrameAt order strip (memory clock) frame.place (framePointer outer)
        (strip frame.saved) :=
      ⟨frame.nonnull, frame.aligned, hreturn.1, frame.saved, rfl, (hholds clock).1⟩
    obtain ⟨hfirst, hrest⟩ := List.pairwise_cons.mp h
    have hchain := ih (fun clock => (hholds clock).2) hrest hreturn.2 (clock + 1)
    cases outer with
    | nil => exact .outermost hframe (UInt64.le_iff_toNat_le.mpr (Nat.zero_le _))
    | cons next outer =>
      have habove := hfirst next List.mem_cons_self
      refine .frame hframe ?_ hchain
      change frame.place < next.place
      rw [UInt64.lt_iff_toNat_lt]
      omega

/-- A walk of the frames of a call stack finds its return addresses, whatever else the memory
holds and however that changes. -/
theorem walkFrames_layFrames (order : Order) {strip : UInt64 → UInt64} {frames : List CallFrame}
    (h : Stacked frames)
    (hreturn : ∀ frame ∈ frames, strip frame.saved ≠ 0) (memory : ℕ → TargetMemory) (clock : ℕ)
    (stack : List UInt64) :
    walkFrames order strip (fun clock => layFrames order frames (memory clock)) maxDepth clock
        (framePointer frames) stack =
      stack ++ (frames.map fun frame => strip frame.saved).take maxDepth := by
  obtain ⟨chain, hunique, -, hwalk⟩ := walkFrames_callChain order strip
    (fun clock => layFrames order frames (memory clock)) clock (framePointer frames) stack
  have hchain := Holds.callChain (fun clock => holds_layFrames order h (memory clock)) h hreturn
    clock
  rw [hwalk, ← (hunique _).mp hchain, List.map_map]
  rfl

/-- Sampling a thread whose frames are in memory yields its call stack, on either platform. The
saved words may be signed on macOS. -/
theorem stacks_layFrames (order : Order) (arch : Macos.Arch) {frames : List CallFrame}
    (h : Stacked frames) (hlinux : ∀ frame ∈ frames, frame.saved ≠ 0)
    (hmacos : ∀ frame ∈ frames, arch.stripPac frame.saved ≠ 0) {fp : UInt64}
    (hfp : arch.stripPac fp = framePointer frames) (memory : ℕ → TargetMemory) (clock : ℕ)
    (pc : UInt64) :
    Linux.sampleThread order (fun clock => layFrames order frames (memory clock)) clock
        (some (pc, framePointer frames)) =
      some (pc :: (frames.map CallFrame.saved).take maxDepth) ∧
    Macos.readThreadStack arch (fun clock => layFrames .little frames (memory clock)) clock
        (some (pc, fp)) =
      some (arch.stripPac pc :: (frames.map fun frame =>
        arch.stripPac frame.saved).take maxDepth) := by
  refine ⟨congrArg some (@walkFrames_layFrames order id frames h hlinux memory clock [pc]), ?_⟩
  have hwalk := walkFrames_layFrames .little h hmacos memory clock [arch.stripPac pc]
  rw [← hfp] at hwalk
  exact congrArg some hwalk

def signedFrames : List CallFrame :=
  [⟨0x16F000100, 0x0012000100004000, by decide, by decide, by decide⟩,
    ⟨0x16F000140, 0x0034000100005080, by decide, by decide, by decide⟩]

def noMemory : TargetMemory := ⟨fun _ => none, fun _ _ => rfl⟩

theorem stacks_layFrames_signed :
    Linux.sampleThread .little (fun _ => layFrames .little signedFrames noMemory) 0
        (some (0x100003F00, 0x16F000100)) =
      some [0x100003F00, 0x0012000100004000, 0x0034000100005080] ∧
    Macos.readThreadStack .aarch64 (fun _ => layFrames .little signedFrames noMemory) 0
        (some (0x0000000100003F00, 0x16F000100)) =
      some [0x100003F00, 0x100004000, 0x100005080] := by
  have h : Stacked signedFrames := by
    unfold Stacked
    decide
  exact @stacks_layFrames .little .aarch64 signedFrames h (by decide) (by decide) 0x16F000100 rfl
    (fun _ => noMemory) 0 0x100003F00

end PProfessor.Capture
