import PProfessor.Fallible
import PProfessor.HeapAccounting

set_option autoImplicit false

/-!
# The native allocation log

The records of `src/heap/recorder.c`, and how `LogReader::snapshot` of
`src/heap/linux.rs` replays them into the tracker.
-/
namespace PProfessor.Heap
open KeyedSum

/-- `struct event`; `pcs` has 64 words. -/
structure Event where
  kind : UInt64
  address : UInt64
  oldAddress : UInt64
  size : UInt64
  depth : UInt64
  pcs : List UInt64
  deriving DecidableEq, Repr

inductive LogError where
  | execReplaced
  | lostEvents
  | invalidStatus
  | corruptDepth
  | unknownRecord
  | tracker (error : HeapError)
  deriving DecidableEq, Repr

def LogError.message : LogError → String
  | .execReplaced => "target exec replaced the allocation recorder; " ++
      "profile the final executable directly"
  | .lostEvents => "native heap recorder lost events due to an I/O failure"
  | .invalidStatus => "invalid native heap recorder status"
  | .corruptDepth => "corrupt allocation stack depth"
  | .unknownRecord => "unknown native allocation record"
  | .tracker error => error.message

def Event.frames (e : Event) : Stack :=
  let stack := (e.pcs.take e.depth.toNat).map fun pc => { (default : HeapFrame) with address := pc }
  if stack = [] then
    [{ (default : HeapFrame) with function := "[unavailable allocation stack]" }]
  else stack

structure LogReader where
  tracker : NativeHeapTracker
  initialFrees : ℕ

namespace LogReader

def opened : LogReader := ⟨.new "native", 0⟩

/-- A release that fails is counted. -/
def release (r : LogReader) (address : UInt64) : LogReader :=
  match NativeHeapTracker.release address r.tracker with
  | .ok _ tracker => { r with tracker := tracker }
  | .error _ tracker => ⟨tracker, r.initialFrees + 1⟩

def allocate (r : LogReader) (e : Event) : Except LogError LogReader :=
  match NativeHeapTracker.allocate e.address e.size e.frames r.tracker with
  | .ok _ tracker => .ok { r with tracker := tracker }
  | .error error _ => .error (.tracker error)

/-- The first half of a turn: what the record frees. -/
def replayRelease (r : LogReader) (e : Event) : LogReader :=
  if e.kind = 2 ∨ e.kind = 3 ∧ e.oldAddress ≠ 0 then
    r.release (if e.kind = 2 then e.address else e.oldAddress)
  else r

/-- The second half: what the record allocates. -/
def replayAllocate (r : LogReader) (e : Event) : Except LogError LogReader :=
  if (e.kind = 1 ∨ e.kind = 3) ∧ e.address ≠ 0 then r.allocate e else .ok r

def replayEvent (r : LogReader) (e : Event) : Except LogError LogReader := do
  if 64 < e.depth then
    throw .corruptDepth
  let r ← (r.replayRelease e).replayAllocate e
  if ¬(1 ≤ e.kind ∧ e.kind ≤ 3) then
    throw .unknownRecord
  pure r

/-- The checks of the status word, then the loop over the records. -/
def replay (r : LogReader) (status : UInt64) (events : List Event) : Except LogError LogReader := do
  if status = 3 then
    throw .execReplaced
  if status = 1 then
    throw .lostEvents
  if ¬(status = 0 ∨ status = 2) then
    throw .invalidStatus
  events.foldlM replayEvent r

/-- The size of the live allocation at an address. -/
def live (r : LogReader) (address : UInt64) : Option UInt64 :=
  (r.tracker.live[address]?).map Prod.fst

end LogReader

def Event.blocks (e : Event) : List Block :=
  if (e.kind = 1 ∨ e.kind = 3) ∧ e.address ≠ 0 then [⟨e.address, e.size, e.frames⟩] else []

def Event.released (e : Event) : UInt64 :=
  if e.kind = 2 then e.address else if e.kind = 3 then e.oldAddress else 0

structure Event.Known (e : Event) : Prop where
  kind : 1 ≤ e.kind ∧ e.kind ≤ 3
  depth : e.depth ≤ 64

namespace LogReader

/-- The tracker accounts for the given blocks. -/
def Knows (r : LogReader) (blocks : List Block) : Prop :=
  ∃ done, Accounts r.tracker done ∧ allocations done = blocks

variable {r r' : LogReader} {blocks live : List Block}

/-- The tracker accounts for the given blocks, and for those of them that are in use. -/
def Holds (r : LogReader) (blocks live : List Block) : Prop :=
  ∃ done, Accounts r.tracker done ∧ allocations done = blocks ∧ unreleased done = live

theorem Holds.address_ne_zero (h : r.Holds blocks live) : ∀ b ∈ live, b.address ≠ 0 := by
  obtain ⟨done, haccounts, -, rfl⟩ := h
  exact fun b hb => haccounts.address_ne_zero b ((unreleased_sublist done).subset hb)

theorem Holds.release (h : r.Holds blocks live) (address : UInt64) :
    (r.release address).Holds blocks (live.filter fun b => b.address ≠ address) := by
  obtain ⟨done, haccounts, rfl, rfl⟩ := h
  have hblocks : allocations (done ++ [.release address]) = allocations done := by
    rw [allocations_append]
    exact List.append_nil _
  have hlive := unreleased_concat_release done address
  unfold LogReader.release
  cases hr : NativeHeapTracker.release address r.tracker with
  | ok u tracker => exact ⟨_, haccounts.release hr, hblocks, hlive⟩
  | error e tracker => exact ⟨_, haccounts.release_unknown hr, hblocks, hlive⟩

theorem Holds.replayRelease (h : r.Holds blocks live) (e : Event) :
    (r.replayRelease e).Holds blocks (live.filter fun b => b.address ≠ e.released) := by
  have hnothing : live.filter (fun b => b.address ≠ 0) = live :=
    List.filter_eq_self.mpr fun b hb => decide_eq_true (h.address_ne_zero b hb)
  unfold LogReader.replayRelease Event.released
  by_cases h2 : e.kind = 2
  · rw [if_pos (.inl h2), if_pos h2, if_pos h2]
    exact h.release _
  by_cases h3 : e.kind = 3
  · by_cases hold : e.oldAddress = 0
    · rw [if_neg (by simp [h2, hold]), if_neg h2, if_pos h3, hold, hnothing]
      exact h
    · rw [if_pos (.inr ⟨h3, hold⟩), if_neg h2, if_neg h2, if_pos h3]
      exact h.release _
  · rw [if_neg (by simp [h2, h3]), if_neg h2, if_neg h3, hnothing]
    exact h

theorem Holds.allocate (h : r.Holds blocks live) {e : Event} (hok : r.allocate e = .ok r') :
    r'.Holds (blocks ++ [⟨e.address, e.size, e.frames⟩])
      (live ++ [⟨e.address, e.size, e.frames⟩]) := by
  obtain ⟨done, haccounts, rfl, rfl⟩ := h
  unfold LogReader.allocate at hok
  cases ht : NativeHeapTracker.allocate e.address e.size e.frames r.tracker with
  | error error t' =>
    rw [ht] at hok
    cases hok
  | ok u t' =>
    rw [ht] at hok
    cases hok
    exact ⟨_, haccounts.call (c := .allocate e.address e.size e.frames) ht,
      allocations_append _ _, unreleased_concat_allocate ..⟩

theorem Holds.replayEvent (h : r.Holds blocks live) {e : Event} (hok : r.replayEvent e = .ok r') :
    r'.Holds (blocks ++ e.blocks) ((live.filter fun b => b.address ≠ e.released) ++ e.blocks) := by
  have hfreed := h.replayRelease e
  unfold LogReader.replayEvent at hok
  by_cases hdepth : 64 < e.depth
  · rw [if_pos hdepth] at hok
    cases hok
  rw [if_neg hdepth] at hok
  obtain ⟨r₁, hr₁, hok⟩ := Fallible.bind_eq_ok.mp hok
  have hheld : r₁.Holds (blocks ++ e.blocks)
      ((live.filter fun b => b.address ≠ e.released) ++ e.blocks) := by
    unfold LogReader.replayAllocate at hr₁
    unfold Event.blocks
    split_ifs at hr₁ with hblock
    · rw [if_pos hblock]
      exact hfreed.allocate hr₁
    · cases hr₁
      rw [if_neg hblock, List.append_nil, List.append_nil]
      exact hfreed
  by_cases hkind : 1 ≤ e.kind ∧ e.kind ≤ 3
  · rw [if_neg (not_not.mpr hkind)] at hok
    cases hok
    exact hheld
  · rw [if_pos hkind] at hok
    cases hok

theorem Holds.knows (h : r.Holds blocks live) : r.Knows blocks := by
  obtain ⟨done, haccounts, hblocks, -⟩ := h
  exact ⟨done, haccounts, hblocks⟩

theorem Knows.holds (h : r.Knows blocks) : ∃ live, r.Holds blocks live := by
  obtain ⟨done, haccounts, hblocks⟩ := h
  exact ⟨_, done, haccounts, hblocks, rfl⟩

theorem opened_knows : opened.Knows [] := ⟨[], accounts_new _, rfl⟩

theorem opened_live (address : UInt64) : opened.live address = none := by
  simp [live, opened, NativeHeapTracker.new]

theorem Knows.live_zero (h : r.Knows blocks) : r.live 0 = none := by
  obtain ⟨done, haccounts, -⟩ := h
  unfold live
  cases hl : r.tracker.live[(0 : UInt64)]? with
  | none => rfl
  | some entry =>
    obtain ⟨size, id⟩ := entry
    obtain ⟨b, hb, haddress, -⟩ := (haccounts.live 0 size id).mp hl
    exact absurd haddress
      (haccounts.address_ne_zero b ((unreleased_sublist done).subset hb))

theorem Knows.release (h : r.Knows blocks) (address : UInt64) :
    (r.release address).Knows blocks := by
  obtain ⟨live, hholds⟩ := h.holds
  exact (hholds.release address).knows

theorem Knows.live_release (h : r.Knows blocks) (address a : UInt64) :
    (r.release address).live a = if address = a then none else r.live a := by
  have hzero := h.live_zero
  unfold LogReader.release live at *
  rw [NativeHeapTracker.release_run]
  by_cases ha : address = 0
  · rw [if_pos ha]
    split_ifs with haa
    · rw [← haa, ha]
      exact hzero
    · rfl
  · rw [if_neg ha]
    have herase : ((r.tracker.live.erase address)[a]?).map Prod.fst =
        if address = a then none else (r.tracker.live[a]?).map Prod.fst := by
      rw [Std.ExtHashMap.getElem?_erase]
      by_cases haa : address = a
      · rw [if_pos (by simpa using haa), if_pos haa]
        rfl
      · rw [if_neg (by simpa using haa), if_neg haa]
    by_cases hl : r.tracker.live[address]? = none
    · rw [if_pos hl]
      exact herase
    · rw [if_neg hl]
      exact herase

theorem frames_ne_nil (e : Event) : e.frames ≠ [] := by
  unfold Event.frames
  dsimp only
  split_ifs with h
  · exact List.cons_ne_nil _ _
  · exact h

/-- The blocks and the live sizes after an accepted record, or the refused sum. -/
def Allocated (r : LogReader) (blocks : List Block) (e : Event) : Prop :=
  (∃ r', r.allocate e = .ok r' ∧ r'.Knows (blocks ++ [⟨e.address, e.size, e.frames⟩]) ∧
    (∀ a, r'.live a = if e.address = a then some e.size else r.live a) ∧
    total Block.stack Block.allocCost (blocks ++ [⟨e.address, e.size, e.frames⟩]) e.frames ≤
      costLimit) ∨
  (r.allocate e = .error (.tracker .valueRange) ∧
    ¬total Block.stack Block.allocCost (blocks ++ [⟨e.address, e.size, e.frames⟩]) e.frames ≤
      costLimit)

theorem Knows.allocate (h : r.Knows blocks) {e : Event} (haddress : e.address ≠ 0)
    (hdead : r.live e.address = none) : r.Allocated blocks e := by
  obtain ⟨done, haccounts, rfl⟩ := h
  obtain ⟨v, grown, id, hv, hgrown, hrun⟩ := haccounts.allocate_dead e.size haddress
    (frames_ne_nil e) (Option.map_eq_none_iff.mp hdead)
  unfold Allocated LogReader.allocate
  rw [Accounts.total_allocate hv]
  cases hsum : v.checkedAdd (NativeHeapTracker.objectCost e.size) with
  | ok sum =>
    obtain ⟨hadd, hle⟩ := HeapValues.checkedAdd_ok hsum
    rw [hsum] at hrun
    have hcall := haccounts.call (c := .allocate e.address e.size e.frames) hrun
    rw [hrun, ← hadd]
    refine .inl ⟨_, rfl, ⟨_, hcall, allocations_append _ _⟩, fun a => ?_, hle⟩
    unfold live NativeHeapTracker.withLive
    dsimp only
    rw [hgrown, Std.ExtHashMap.getElem?_insert]
    by_cases ha : e.address = a
    · rw [if_pos (by simpa using ha), if_pos ha]
      rfl
    · rw [if_neg (by simpa using ha), if_neg ha]
  | error error =>
    rw [hsum] at hrun
    rw [hrun, HeapValues.checkedAdd_error hsum]
    refine .inr ⟨rfl, fun hle => ?_⟩
    obtain ⟨sum, hok, -⟩ := HeapValues.checkedAdd_of_le hle
    rw [hsum] at hok
    cases hok

end LogReader

def Event.liveAfter (e : Event) (live : UInt64 → Option UInt64) (a : UInt64) : Option UInt64 :=
  if e.blocks ≠ [] ∧ e.address = a then some e.size
  else if e.released = a then none else live a

/-- On every stack the objects and bytes stay within `i64::MAX`. -/
def Fits (blocks : List Block) : Prop :=
  ∀ stack, total Block.stack Block.allocCost blocks stack ≤ costLimit

namespace LogReader
variable {r : LogReader} {blocks : List Block}

theorem replayEvent_of_known {e : Event} (h : e.Known) :
    r.replayEvent e = (r.replayRelease e).replayAllocate e := by
  have hdepth : ¬64 < e.depth := UInt64.not_lt.mpr h.depth
  unfold replayEvent
  rw [if_neg hdepth]
  cases hr : (r.replayRelease e).replayAllocate e with
  | error error => rfl
  | ok r' =>
    change (if ¬(1 ≤ e.kind ∧ e.kind ≤ 3) then throw LogError.unknownRecord else pure r') = _
    rw [if_neg (not_not.mpr h.kind)]
    rfl

theorem Knows.replayRelease (h : r.Knows blocks) (e : Event) :
    (r.replayRelease e).Knows blocks ∧
      ∀ a, (r.replayRelease e).live a = if e.released = a then none else r.live a := by
  have hnothing : ∀ a, r.live a = if 0 = a then none else r.live a := by
    intro a
    split_ifs with ha
    · rw [← ha, h.live_zero]
    · rfl
  unfold LogReader.replayRelease Event.released
  by_cases h2 : e.kind = 2
  · rw [if_pos (.inl h2), if_pos h2, if_pos h2]
    exact ⟨h.release _, h.live_release _⟩
  by_cases h3 : e.kind = 3
  · by_cases hold : e.oldAddress = 0
    · rw [if_neg (by simp [h2, hold]), if_neg h2, if_pos h3, hold]
      exact ⟨h, hnothing⟩
    · rw [if_pos (.inr ⟨h3, hold⟩), if_neg h2, if_neg h2, if_pos h3]
      exact ⟨h.release _, h.live_release _⟩
  · rw [if_neg (by simp [h2, h3]), if_neg h2, if_neg h3]
    exact ⟨h, hnothing⟩

/-- A record of an allocation at an address that is dead, or that the record
itself releases, is replayed unless its stack exceeds the limit. -/
theorem Knows.replayEvent (h : r.Knows blocks) {e : Event} (hknown : e.Known)
    (hdead : e.blocks ≠ [] → e.released = e.address ∨ r.live e.address = none) :
    (∃ r', r.replayEvent e = .ok r' ∧ r'.Knows (blocks ++ e.blocks) ∧
      r'.live = e.liveAfter r.live ∧
      (e.blocks ≠ [] → total Block.stack Block.allocCost (blocks ++ e.blocks) e.frames ≤
        costLimit)) ∨
    (r.replayEvent e = .error (.tracker .valueRange) ∧
      ¬total Block.stack Block.allocCost (blocks ++ e.blocks) e.frames ≤ costLimit) := by
  obtain ⟨hfreed, hlive⟩ := h.replayRelease e
  rw [replayEvent_of_known hknown]
  unfold LogReader.replayAllocate
  by_cases hblock : (e.kind = 1 ∨ e.kind = 3) ∧ e.address ≠ 0
  · have hblocks : e.blocks = [⟨e.address, e.size, e.frames⟩] := if_pos hblock
    have hne : e.blocks ≠ [] := hblocks ▸ List.cons_ne_nil _ _
    have hfree : (r.replayRelease e).live e.address = none := by
      rw [hlive]
      split_ifs with hsame
      · rfl
      · exact (hdead hne).resolve_left hsame
    rw [if_pos hblock, hblocks]
    rcases hfreed.allocate hblock.2 hfree with ⟨r', hok, hknows, hlive', hle⟩ | hrefused
    · refine .inl ⟨r', hok, hknows, funext fun a => ?_, fun _ => hle⟩
      unfold Event.liveAfter
      rw [hlive', hlive]
      simp only [hne, ne_eq, not_false_eq_true, true_and]
    · exact .inr hrefused
  · have hblocks : e.blocks = [] := if_neg hblock
    rw [if_neg hblock, hblocks, List.append_nil]
    refine .inl ⟨_, rfl, hfreed, funext fun a => ?_, fun hne => absurd rfl hne⟩
    have hnothing : ¬(e.blocks ≠ [] ∧ e.address = a) := fun h => h.1 hblocks
    unfold Event.liveAfter
    rw [hlive, if_neg hnothing]

end LogReader

/-- What the records of a log allocate. -/
def allocated (events : List Event) : List Block :=
  events.flatMap Event.blocks

theorem allocated_concat (events : List Event) (e : Event) :
    allocated (events ++ [e]) = allocated events ++ e.blocks := by
  simp [allocated]

/-- The blocks of a log that no later record releases. -/
def outstanding (events : List Event) : List Block :=
  events.foldl (fun blocks e => (blocks.filter fun b => b.address ≠ e.released) ++ e.blocks) []

theorem outstanding_concat (events : List Event) (e : Event) :
    outstanding (events ++ [e]) =
      ((outstanding events).filter fun b => b.address ≠ e.released) ++ e.blocks := by
  rw [outstanding, List.foldl_append]
  rfl

theorem holds_replay {events : List Event} {r : LogReader}
    (h : LogReader.opened.replay 0 events = .ok r) :
    r.Holds (allocated events) (outstanding events) :=
  Fallible.foldlM_invariant (fun done r => r.Holds (allocated done) (outstanding done)) events
    ⟨[], accounts_new _, rfl, rfl⟩
    (fun done e _ _ hheld _ hstep => by
      rw [allocated_concat, outstanding_concat]
      exact hheld.replayEvent hstep) h

theorem Fits.of_append {blocks more : List Block} (h : Fits (blocks ++ more)) : Fits blocks := by
  intro stack
  have hstack := h stack
  rw [total_append] at hstack
  exact le_self_add.trans hstack

/-- The first record that exceeds the limit of its stack ends the replay. Up to
there the reader knows the blocks of the log, and `P` holds of the live sizes. -/
def Replayed (events : List Event) (P : (UInt64 → Option UInt64) → Prop) : Prop :=
  (∃ r, LogReader.opened.replay 0 events = .ok r ∧ r.Knows (allocated events) ∧ P r.live ∧
    Fits (allocated events)) ∨
  (LogReader.opened.replay 0 events = .error (.tracker .valueRange) ∧ ¬Fits (allocated events))

theorem LogReader.replay_zero (r : LogReader) (events : List Event) :
    r.replay 0 events = events.foldlM replayEvent r := rfl

theorem Replayed.imp {events : List Event} {P Q : (UInt64 → Option UInt64) → Prop}
    (h : Replayed events P) (hpq : ∀ live, live 0 = none → P live → Q live) :
    Replayed events Q := by
  refine h.imp_left ?_
  rintro ⟨r, hr, hknows, hp, hfits⟩
  exact ⟨r, hr, hknows, hpq _ hknows.live_zero hp, hfits⟩

theorem replayed_nil {P : (UInt64 → Option UInt64) → Prop} (h : P fun _ => none) :
    Replayed [] P := by
  have hlive : LogReader.opened.live = fun _ => none := funext LogReader.opened_live
  refine .inl ⟨_, rfl, LogReader.opened_knows, hlive ▸ h, fun stack => ?_⟩
  exact zero_le

theorem Replayed.concat {events : List Event} {P Q : (UInt64 → Option UInt64) → Prop}
    (h : Replayed events P) {e : Event} (hknown : e.Known)
    (hdead : e.blocks ≠ [] → ∀ live, P live → e.released = e.address ∨ live e.address = none)
    (hpq : ∀ live, P live → Q (e.liveAfter live)) : Replayed (events ++ [e]) Q := by
  have hfold : ∀ r, LogReader.opened.replay 0 events = r →
      LogReader.opened.replay 0 (events ++ [e]) = r >>= fun r => r.replayEvent e := by
    rintro r rfl
    rw [LogReader.replay_zero, LogReader.replay_zero, List.foldlM_append]
    simp
  unfold Replayed
  rw [allocated_concat]
  rcases h with ⟨r, hr, hknows, hp, hfits⟩ | ⟨hr, hfits⟩
  · rw [hfold _ hr]
    change (∃ r', r.replayEvent e = .ok r' ∧ _) ∨ (r.replayEvent e = _ ∧ _)
    rcases hknows.replayEvent hknown fun hne => hdead hne _ hp with
      ⟨r', hok, hknows', hlive, hle⟩ | ⟨herror, hnot⟩
    · refine .inl ⟨r', hok, hknows', hlive ▸ hpq _ hp, fun stack => ?_⟩
      by_cases hstack : ∃ b ∈ e.blocks, b.stack = stack
      · obtain ⟨b, hb, rfl⟩ := hstack
        have hframes : b.stack = e.frames := by
          unfold Event.blocks at hb
          split_ifs at hb
          · rw [List.mem_singleton.mp hb]
          · cases hb
        rw [hframes]
        exact hle (List.ne_nil_of_mem hb)
      · have hnone : total Block.stack Block.allocCost e.blocks stack = 0 :=
          total_eq_zero _ _ fun b hb hs => hstack ⟨b, hb, hs⟩
        rw [total_append, hnone, add_zero]
        exact hfits stack
    · exact .inr ⟨herror, fun h => hnot (h _)⟩
  · rw [hfold _ hr]
    exact .inr ⟨rfl, fun h => hfits h.of_append⟩

end PProfessor.Heap
