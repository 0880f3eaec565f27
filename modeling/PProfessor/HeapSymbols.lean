import PProfessor.HeapHistoryReplay
import PProfessor.HeapLogFile
import PProfessor.ImageResolution

set_option autoImplicit false

/-!
# Symbols on heap stacks

The samples of a heap profile are collected again under stacks whose frames have got their
mappings and symbols. Frames keep their addresses, and no two stacks of a tracker become one.
-/
namespace PProfessor.Heap
open ByteOrder Capture KeyedSum

/-- What `snapshot` of `LogReader` makes of a frame. -/
def attachSymbols (mappings : List HeapMapping) (symbolizeFrame : UInt64 → Option SymbolInfo)
    (frame : HeapFrame) : HeapFrame :=
  let frame := { frame with
    mapping := mappings.find? fun m =>
      m.memoryStart ≤ frame.address ∧ frame.address < m.memoryLimit }
  match symbolizeFrame frame.address with
  | none => frame
  | some info =>
    { frame with function := info.function, file := info.file, line := .ofNat info.line.toNat }

theorem attachSymbols_address (mappings : List HeapMapping)
    (symbolizeFrame : UInt64 → Option SymbolInfo) (frame : HeapFrame) :
    (attachSymbols mappings symbolizeFrame frame).address = frame.address := by
  unfold attachSymbols
  dsimp only
  split <;> rfl

/-- The program counters that the record announces are not null. -/
def Event.PcsRecorded (e : Event) : Prop := ∀ pc ∈ e.pcs.take e.depth.toNat, pc ≠ 0

def Recorded (stack : Stack) : Prop := ∃ e : Event, e.PcsRecorded ∧ stack = e.frames

theorem map_address_frames (e : Event) : e.frames.map HeapFrame.address =
    if e.pcs.take e.depth.toNat = [] then [0] else e.pcs.take e.depth.toNat := by
  unfold Event.frames
  simp only [List.map_eq_nil_iff]
  split_ifs
  · rfl
  · rw [List.map_map]
    exact List.map_id _

theorem Recorded.eq_of_addresses {stack stack' : Stack} (h : Recorded stack)
    (h' : Recorded stack')
    (heq : stack.map HeapFrame.address = stack'.map HeapFrame.address) : stack = stack' := by
  obtain ⟨e, he, rfl⟩ := h
  obtain ⟨e', he', rfl⟩ := h'
  rw [map_address_frames, map_address_frames] at heq
  have hzero {pcs : List UInt64} (hpcs : ∀ pc ∈ pcs, pc ≠ 0) : [0] ≠ pcs := by
    rintro rfl
    exact hpcs 0 List.mem_cons_self rfl
  have hsame : e.pcs.take e.depth.toNat = e'.pcs.take e'.depth.toNat := by
    split_ifs at heq with hnil hnil' hnil'
    · rw [hnil, hnil']
    · exact absurd heq (hzero he')
    · exact absurd heq.symm (hzero he)
    · exact heq
  unfold Event.frames
  rw [hsame]

theorem apart_of_recorded {rewrite : HeapFrame → HeapFrame}
    (haddresses : ∀ frame, (rewrite frame).address = frame.address) {stack stack' : Stack}
    (h : Recorded stack) (h' : Recorded stack')
    (heq : stack.map rewrite = stack'.map rewrite) : stack = stack' := by
  refine h.eq_of_addresses h' ?_
  have hmap (s : Stack) : (s.map rewrite).map HeapFrame.address = s.map HeapFrame.address := by
    rw [List.map_map]
    exact List.map_congr_left fun frame _ => haddresses frame
  rw [← hmap, heq, hmap]

theorem recorded_allocated {events : List Event} (h : ∀ e ∈ events, e.PcsRecorded) :
    ∀ b ∈ allocated events, Recorded b.stack := by
  intro b hb
  obtain ⟨e, he, hb⟩ := List.mem_flatMap.mp hb
  unfold Event.blocks at hb
  split_ifs at hb
  · rw [List.mem_singleton.mp hb]
    exact ⟨e, h e he, rfl⟩
  · cases hb

theorem keeps_replayed {events : List Event} (hevents : ∀ e ∈ events, e.PcsRecorded)
    {r : LogReader} (hreplay : LogReader.opened.replay 0 events = .ok r)
    {order : List (UInt64 × UInt64 × ℕ)} (ho : Enumerates order r.tracker.live) (now : ℤ)
    {rewrite : HeapFrame → HeapFrame}
    (haddresses : ∀ frame, (rewrite frame).address = frame.address) :
    ∃ tracked, r.tracker.snapshot order now = .ok tracked ∧
      KeepsSamples rewrite tracked.samples (rekey rewrite tracked.samples) := by
  obtain ⟨done, haccounts, hblocks, -⟩ := holds_replay hreplay
  obtain ⟨tracked, hok, -, hsamples⟩ := haccounts.snapshot ho now
  have hkey (s : Stack) (hs : s ∈ tracked.samples) : Recorded s := by
    rw [Std.ExtTreeMap.mem_iff_isSome_getElem?] at hs
    obtain ⟨v, hv⟩ := Option.isSome_iff_exists.mp hs
    obtain ⟨⟨b, hb, rfl⟩, -⟩ := (hsamples s v).mp hv
    exact recorded_allocated hevents b (hblocks ▸ hb)
  exact ⟨tracked, hok, rekey_keeps
    (fun s s' hs hs' heq => apart_of_recorded haddresses (hkey s hs) (hkey s' hs') heq) haddresses⟩

namespace OpenLog
variable {file : ℕ → List UInt8} {s s' : OpenLog} {call : SnapshotCall} {profile : HeapProfile}

theorem snapshot_profile (h : s.snapshot file call = .ok (profile, s')) :
    s'.reader.profile call = .ok profile := by
  unfold OpenLog.snapshot at h
  obtain ⟨status, -, h⟩ := Fallible.bind_eq_ok.mp h
  obtain ⟨u, -, h⟩ := Fallible.bind_eq_ok.mp h
  dsimp only at h
  split_ifs at h
  · cases h
  · obtain ⟨s₁, -, h⟩ := Fallible.bind_eq_ok.mp h
    obtain ⟨profile₁, hprofile, h⟩ := Fallible.bind_eq_ok.mp h
    cases h
    exact hprofile

end OpenLog

theorem LogReader.profile_samples {r : LogReader} {call : SnapshotCall} {profile : HeapProfile}
    {name : HeapFrame → HeapFrame} (hname : call.name = some name)
    (h : r.profile call = .ok profile) : ∃ tracked,
      r.tracker.snapshot call.order call.now = .ok tracked ∧
        profile.samples = rekey name tracked.samples := by
  unfold LogReader.profile at h
  obtain ⟨tracked, htracked, h⟩ := Fallible.bind_eq_ok.mp h
  rw [hname] at h
  cases h
  cases hsnapshot : r.tracker.snapshot call.order call.now with
  | error error =>
    rw [hsnapshot] at htracked
    cases htracked
  | ok found =>
    rw [hsnapshot] at htracked
    cases htracked
    exact ⟨_, rfl, rfl⟩

/-- Attaching symbols loses no measurement: a call of `snapshot` on a log whose program counters
are not null, and the reader of an allocation history, return the samples of the tracker's
snapshot under stacks that stay apart. -/
theorem attaching_keeps_samples :
    (∀ (file : ℕ → List UInt8) (pid : UInt32) (isPrivate : Bool) (start s s' : OpenLog)
      (calls : List SnapshotCall) (call : SnapshotCall) (mappings : List HeapMapping)
      (symbolizeFrame : UInt64 → Option SymbolInfo) (profile : HeapProfile),
      (∀ t, Grows (file t) (file (t + 1))) → openLog file pid isPrivate = .ok start →
      start.snapshots file calls = .ok s → s.snapshot file call = .ok (profile, s') →
      call.name = some (attachSymbols mappings symbolizeFrame) →
      (∀ e ∈ records (file (s.clock + 1)), e.PcsRecorded) →
      Enumerates call.order s'.reader.tracker.live →
      ∃ tracked, s'.reader.tracker.snapshot call.order call.now = .ok tracked ∧
        KeepsSamples (attachSymbols mappings symbolizeFrame) tracked.samples profile.samples) ∧
    ∀ (order : Std.ExtHashMap UInt64 (UInt64 × ℕ) → List (UInt64 × UInt64 × ℕ)) (now : ℤ)
      (text : List Char) (profile : HeapProfile), (∀ live, Enumerates (order live) live) →
      parseHistory order now text = .ok profile → ∃ events images calls tracked,
        Report (lines text) events images ∧ EventLines events calls ∧
        (replayed calls).snapshot (order (replayed calls).live) now = .ok tracked ∧
        KeepsSamples (attachImage (HistoryReader.atEnd calls images).images) tracked.samples
          profile.samples := by
  constructor
  · intro file pid isPrivate start s s' calls call mappings symbolizeFrame profile hgrows hopen
      hrun hcall hname hevents horder
    obtain ⟨hstart, -⟩ := OpenLog.at_open hopen
    obtain ⟨n, hat⟩ := (hstart.grows (grows_of_le hgrows (Nat.zero_le _))).snapshots hgrows hrun
    obtain ⟨hread, -, -⟩ := hat.snapshot hgrows hcall
    obtain ⟨tracked, htracked, hsamples⟩ :=
      LogReader.profile_samples hname (OpenLog.snapshot_profile hcall)
    obtain ⟨found, hfound, hkeeps⟩ := keeps_replayed hevents hread.replayed horder
      call.now (attachSymbols_address mappings symbolizeFrame)
    cases hfound.symm.trans htracked
    rw [hsamples]
    exact ⟨tracked, htracked, hkeeps⟩
  · intro order now text profile horder hok
    obtain ⟨events, images, calls, hreport, hcalls, hfit, tracked, htracked, rfl⟩ :=
      (parseReader_eq_ok_iff (lines text) profile).mp hok
    obtain ⟨found, hfound, -, hkeeps⟩ :=
      @snapshot_replayed order now horder events calls hcalls hfit
    cases hfound.symm.trans htracked
    exact ⟨events, images, calls, tracked, hreport, hcalls, htracked, hkeeps _⟩

theorem oneBlock_pcsRecorded : oneBlock.PcsRecorded := by
  intro pc hpc
  rw [List.mem_singleton.mp hpc]
  decide

theorem shortReport_accepted : ∃ order now profile,
    (∀ live, Enumerates (order live) live) ∧ parseHistory order now shortReport = .ok profile := by
  have hfits : CallsFit [] shortCalls := ⟨⟨by decide, by simp [unreleased], by decide⟩, trivial⟩
  let order (live : Std.ExtHashMap UInt64 (UInt64 × ℕ)) : List (UInt64 × UInt64 × ℕ) :=
    Classical.choose (Enumerates.exists_order live)
  have horder (live : Std.ExtHashMap UInt64 (UInt64 × ℕ)) : Enumerates (order live) live :=
    Classical.choose_spec (Enumerates.exists_order live)
  obtain ⟨tracked, htracked, -⟩ :=
    @snapshot_replayed order 0 horder _ shortCalls shortReport_calls hfits
  exact ⟨order, 0, _, horder, (parseReader_eq_ok_iff (lines shortReport) _).mpr
    ⟨_, _, _, shortReport_report, shortReport_calls, hfits, tracked, htracked, rfl⟩⟩

/-- The torn log at its first call, and a history of one event. -/
theorem attaching_keeps_samples_growingLog :
    (∃ (call : SnapshotCall) (profile : HeapProfile) (s' : OpenLog) (tracked : HeapProfile),
      (⟨headerSize, .opened, 1⟩ : OpenLog).snapshot growingLog call = .ok (profile, s') ∧
      LogReader.opened.replay 0 [oneBlock] = .ok s'.reader ∧
      s'.reader.tracker.snapshot call.order call.now = .ok tracked ∧
      KeepsSamples (attachSymbols [] fun _ => some ⟨"main", "a.c", 7⟩) tracked.samples
        profile.samples) ∧
    ∃ order now profile tracked images, parseHistory order now shortReport = .ok profile ∧
      KeepsSamples (attachImage images) tracked profile.samples := by
  constructor
  · have hat : OpenLog.At (growingLog (OpenLog.mk headerSize .opened 1).clock) 0
        ⟨headerSize, .opened, 1⟩ :=
      (OpenLog.at_open growingLog_opens).1.grows (growingLog_grows 0)
    have hfound : records (growingLog ((OpenLog.mk headerSize .opened 1).clock + 1)) =
        [oneBlock] := growingLog_one (Nat.le_refl 2) (by decide)
    obtain ⟨r, -, hr, hknows, -, -⟩ := growingLog_replays
    obtain ⟨order, horder⟩ := Enumerates.exists_order r.tracker.live
    obtain ⟨profile, hprofile⟩ := hknows.profile_returns horder false 0
      (attachSymbols [] fun _ => some ⟨"main", "a.c", 7⟩)
    obtain ⟨s', -, hreader, hcall⟩ := hat.snapshot_returns growingLog_grows
      (.inl (growingLog_status _)) (fun h => Bool.false_ne_true h.1)
      ((congrArg _ hfound).trans hr) hprofile
    obtain ⟨tracked, htracked, hkeeps⟩ := attaching_keeps_samples.1 growingLog 7 true _ _ s' []
      _ _ _ profile growingLog_grows growingLog_opens rfl hcall rfl (fun e he => by
        rw [hfound] at he
        rw [List.mem_singleton.mp he]
        exact oneBlock_pcsRecorded) (hreader ▸ horder)
    exact ⟨_, profile, s', tracked, hcall, hr.trans (hreader ▸ rfl), htracked, hkeeps⟩
  · obtain ⟨order, now, profile, horder, hok⟩ := shortReport_accepted
    obtain ⟨_, _, _, tracked, -, -, -, hkeeps⟩ := attaching_keeps_samples.2 order now shortReport
      profile horder hok
    exact ⟨order, now, profile, tracked.samples, _, hok, hkeeps⟩

end PProfessor.Heap
