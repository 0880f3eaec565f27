import PProfessor.HeapExport
import PProfessor.HeapSamples
import PProfessor.HeapSymbols

set_option autoImplicit false

/-!
# Watching the log of a target

`run` and `attach` of `src/heap/linux.rs` and `done` of `src/heap/capture.rs`: the loops that read
the log again and again and hand a profile to `checkpoint` each time. What a turn finds outside
(the clock, the stop flag, the target, its mappings) is an argument. Launching the target and
sleeping are left out.
-/
namespace PProfessor.Heap
open ByteOrder Capture KeyedSum Pprof

inductive CaptureError where
  | zeroInterval
  | notInitialized
  | unsupportedTarget
  | log (error : SnapshotError)
  | pprof (error : ExportError)
  deriving DecidableEq, Repr

def CaptureError.message : CaptureError → String
  | .zeroInterval => "heap checkpoint interval must be positive"
  | .notInitialized => "native heap recorder did not initialize; capture requires an " ++
      "instrumentable glibc target"
  | .unsupportedTarget => "heap recorder did not initialize: target must be a dynamically " ++
      "linked glibc executable of the profiler's architecture; static, secure-execution and " ++
      "custom-allocator targets are not supported"
  | .log error => error.message
  | .pprof error => error.message

structure CaptureOptions where
  interval : ℕ
  duration : Option ℕ
  deriving DecidableEq, Repr

instance : Inhabited CaptureOptions := ⟨⟨2000000000, none⟩⟩

structure Reading where
  stopped : Bool
  now : ℕ
  deriving DecidableEq, Repr

def done (start : ℕ) (options : CaptureOptions) (reading : Reading) : Bool :=
  reading.stopped || options.duration.any (· ≤ reading.now - start)

/-- What one turn finds, in the order in which it looks. The mappings are `none` where neither the
process nor the recorder has any. -/
structure Poll where
  exited : Bool
  isPrivate : Bool
  openedAt : ℕ
  waiting : Reading
  due : Reading
  dueAt : ℕ
  collectedAt : ℤ
  mappings : Option (List HeapMapping)
  symbolizeFrame : UInt64 → Option SymbolInfo
  finished : Reading
  nextFrom : ℕ

def Poll.call (poll : Poll) (order : List (UInt64 × UInt64 × ℕ)) : SnapshotCall where
  finalRead := poll.exited
  order := order
  now := poll.collectedAt
  name := poll.mappings.map fun mappings => attachSymbols mappings poll.symbolizeFrame

section
variable (order : Std.ExtHashMap UInt64 (UInt64 × ℕ) → List (UInt64 × UInt64 × ℕ))
  (file : ℕ → List UInt8)

/-- `reader.snapshot(exited)?.to_pprof()?`. The map of the live allocations hands out its entries in
the given order. -/
def OpenLog.checkpoint (poll : Poll) (s : OpenLog) :
    Except CaptureError (PprofProfile × OpenLog) := do
  let s ← (s.advance file poll.exited).mapError .log
  let profile ← (s.reader.profile (poll.call (order s.reader.tracker.live))).mapError .log
  let p ← profile.toPprof.mapError .pprof
  return (p, s)

/-- The variables of the loop of `run`. `clock` counts the looks at the file before it is opened. -/
structure CaptureState where
  clock : ℕ
  reader : Option OpenLog
  start : ℕ
  next : ℕ

/-- What a loop has handed to `checkpoint`, and what it returns. -/
structure CaptureRun where
  checkpoints : List PprofProfile
  result : Option (Except CaptureError PprofProfile)

variable (pid : UInt32) (options : CaptureOptions)

def CaptureState.openReader (poll : Poll) (s : CaptureState) : Except CaptureError CaptureState :=
  match s.reader with
  | some _ => .ok s
  | none =>
    if headerSize ≤ (file s.clock).length then do
      let log ← (openLog (fun t => file (s.clock + 1 + t)) pid poll.isPrivate).mapError .log
      return {
        clock := s.clock
        reader := some { log with clock := s.clock + 1 + log.clock }
        start := poll.openedAt
        next := poll.openedAt + options.interval }
    else .ok { s with clock := s.clock + 1 }

/-- `spawned.elapsed() > Duration::from_secs(10) || stop` -/
def tooLate (spawned : ℕ) (reading : Reading) : Bool :=
  reading.stopped || decide (10000000000 < reading.now - spawned)

/-- What a turn hands to `checkpoint`, and how the loop goes on or ends. -/
def CaptureState.act (spawned : ℕ) (poll : Poll) (s : CaptureState) :
    Option PprofProfile × (CaptureState ⊕ Except CaptureError PprofProfile) :=
  if s.reader.isNone && tooLate spawned poll.waiting then (none, .inr (.error .notInitialized))
  else if poll.exited || (s.reader.isSome && done s.start options poll.due) ||
      decide (s.next ≤ poll.dueAt) then
    match s.reader with
    | some log =>
      match log.checkpoint order file poll with
      | .error e => (none, .inr (.error e))
      | .ok (p, log) =>
        if poll.exited || done s.start options poll.finished then (some p, .inr (.ok p))
        else (some p, .inl { s with
          reader := some log
          next := poll.nextFrom + options.interval })
    | none =>
      if poll.exited || done s.start options poll.finished then
        (none, .inr (.error .unsupportedTarget))
      else (none, .inl { s with next := poll.nextFrom + options.interval })
  else (none, .inl s)

def CaptureState.turn (spawned : ℕ) (poll : Poll) (s : CaptureState) :
    Option PprofProfile × (CaptureState ⊕ Except CaptureError PprofProfile) :=
  match s.openReader file pid options poll with
  | .error e => (none, .inr (.error e))
  | .ok s => s.act order file options spawned poll

/-- The loop of `run`, for as many turns as are given. -/
def CaptureState.run (spawned : ℕ) : List Poll → CaptureState → CaptureRun
  | [], _ => ⟨[], none⟩
  | poll :: polls, s =>
    match s.turn order file pid options spawned poll with
    | (checkpoint, .inr result) => ⟨checkpoint.toList, some result⟩
    | (checkpoint, .inl s) =>
      let rest := run spawned polls s
      ⟨checkpoint.toList ++ rest.checkpoints, rest.result⟩

/-- The loop of `attach`. -/
def OpenLog.attachLoop (start : ℕ) : List Poll → OpenLog → CaptureRun
  | [], _ => ⟨[], none⟩
  | poll :: polls, s =>
    match s.checkpoint order file poll with
    | .error e => ⟨[], some (.error e)⟩
    | .ok (p, s) =>
      if poll.exited || done start options poll.finished then ⟨[p], some (.ok p)⟩
      else
        let rest := attachLoop start polls s
        ⟨p :: rest.checkpoints, rest.result⟩

/-- `run`, from where the target has been spawned. -/
def run (spawned firstNext : ℕ) (polls : List Poll) : CaptureRun :=
  if options.interval = 0 then ⟨[], some (.error .zeroInterval)⟩
  else CaptureState.run order file pid options spawned polls ⟨0, none, spawned, firstNext⟩

def attach (isPrivate : Bool) (start : ℕ) (polls : List Poll) : CaptureRun :=
  if options.interval = 0 then ⟨[], some (.error .zeroInterval)⟩
  else
    match openLog file pid isPrivate with
    | .error e => ⟨[], some (.error (.log e))⟩
    | .ok s => s.attachLoop order file options start polls

end

/-! ## Checkpoints -/

/-- A checkpoint with the instant at which its status was read; the length was read at the next.
`poll` is what its turn found. -/
structure Checkpoint where
  instant : ℕ
  poll : Poll
  profile : PprofProfile

section
variable (order : Std.ExtHashMap UInt64 (UInt64 × ℕ) → List (UInt64 × UInt64 × ℕ))
  (file : ℕ → List UInt8)

/-- The checkpoints that a reader makes one after the other, and where they leave it. Only the
last one is a final read. -/
inductive Makes : OpenLog → List Checkpoint → OpenLog → Prop where
  | nil (s : OpenLog) : Makes s [] s
  | last {s s' : OpenLog} (poll : Poll) {p : PprofProfile} :
      s.checkpoint order file poll = .ok (p, s') → Makes s [⟨s.clock, poll, p⟩] s'
  | cons {s s' last : OpenLog} (poll : Poll) {p : PprofProfile} {checkpoints : List Checkpoint} :
      s.checkpoint order file poll = .ok (p, s') → poll.exited = false →
      Makes s' checkpoints last → Makes s (⟨s.clock, poll, p⟩ :: checkpoints) last

/-- What a checkpoint is: the export of one pass over the complete records of the file. -/
structure Checkpoint.Reads (c : Checkpoint) : Prop where
  header : headerSize ≤ (file c.instant).length
  status : word (file c.instant) 24 = 0 ∨ word (file c.instant) 24 = 2
  whole : c.poll.exited = true → ¬Torn (file (c.instant + 1))
  exported : ∃ (r : LogReader) (profile : HeapProfile),
    LogReader.opened.replay 0 (records (file (c.instant + 1))) = .ok r ∧
      r.profile (c.poll.call (order r.tracker.live)) = .ok profile ∧
      profile.toPprof = .ok c.profile

variable (loop : List Poll → CaptureRun) (polls : List Poll)

def Returns (checkpoints : List Checkpoint) (p : PprofProfile) : Prop :=
  ∃ before c after, polls = before ++ c.poll :: after ∧ (loop before).result = none ∧
    (loop (before ++ [c.poll])).result = some (.ok p) ∧ checkpoints.getLast? = some c ∧
    c.profile = p

/-- The checkpoints of a loop, and what it returns: the last of them, or why the next one fails. -/
structure Shows (last : OpenLog) (checkpoints : List Checkpoint) : Prop where
  profiles : (loop polls).checkpoints = checkpoints.map Checkpoint.profile
  turns : (checkpoints.map Checkpoint.poll).Sublist polls
  result : ∀ p, (loop polls).result = some (.ok p) → Returns loop polls checkpoints p
  failure : ∀ e, (loop polls).result = some (.error e) →
    ∃ poll ∈ polls, last.checkpoint order file poll = .error e

end

variable {order : Std.ExtHashMap UInt64 (UInt64 × ℕ) → List (UInt64 × UInt64 × ℕ)}
  {file : ℕ → List UInt8} {pid : UInt32} {options : CaptureOptions}

namespace Shows
variable {loop loop' : List Poll → CaptureRun} {poll : Poll} {polls : List Poll} {last : OpenLog}
  {checkpoints : List Checkpoint}

theorem cons {c : Checkpoint} (h : Shows order file loop' polls last checkpoints)
    (hturn : ∀ polls, loop (c.poll :: polls) =
      ⟨c.profile :: (loop' polls).checkpoints, (loop' polls).result⟩) :
    Shows order file loop (c.poll :: polls) last (c :: checkpoints) where
  profiles := by rw [hturn, h.profiles, List.map_cons]
  turns := h.turns.cons_cons c.poll
  result := by
    intro p hp
    rw [hturn] at hp
    obtain ⟨before, last, after, rfl, hnone, hends, hlast, hprofile⟩ := h.result p hp
    refine ⟨c.poll :: before, last, after, rfl, ?_, ?_, ?_, hprofile⟩
    · rw [hturn, hnone]
    · rw [List.cons_append, hturn, hends]
    · rw [List.getLast?_cons, hlast]
      rfl
  failure := by
    intro e he
    rw [hturn] at he
    obtain ⟨poll', hmem, hfails⟩ := h.failure e he
    exact ⟨poll', List.mem_cons_of_mem _ hmem, hfails⟩

theorem wait (h : Shows order file loop' polls last checkpoints)
    (hturn : ∀ polls, loop (poll :: polls) = loop' polls) :
    Shows order file loop (poll :: polls) last checkpoints where
  profiles := by rw [hturn, h.profiles]
  turns := h.turns.cons poll
  result := by
    intro p hp
    rw [hturn] at hp
    obtain ⟨before, c, after, rfl, hnone, hends, hlast⟩ := h.result p hp
    refine ⟨poll :: before, c, after, rfl, ?_, ?_, hlast⟩
    · rw [hturn, hnone]
    · rw [List.cons_append, hturn, hends]
  failure := by
    intro e he
    rw [hturn] at he
    obtain ⟨poll', hmem, hfails⟩ := h.failure e he
    exact ⟨poll', List.mem_cons_of_mem _ hmem, hfails⟩

theorem congr (h : Shows order file loop' polls last checkpoints)
    (hsame : ∀ before after, polls = before ++ after → loop before = loop' before) :
    Shows order file loop polls last checkpoints := by
  have hpolls := hsame polls [] (List.append_nil polls).symm
  refine ⟨hpolls ▸ h.profiles, h.turns, fun p hp => ?_, fun e he => h.failure e (hpolls ▸ he)⟩
  obtain ⟨before, c, after, heq, hnone, hends, hlast⟩ := h.result p (hpolls ▸ hp)
  have hnext : polls = (before ++ [c.poll]) ++ after := by
    rw [List.append_assoc, heq]
    rfl
  exact ⟨before, c, after, heq, (hsame _ _ heq) ▸ hnone, (hsame _ _ hnext) ▸ hends, hlast⟩

theorem ended (c : Checkpoint) (last : OpenLog) (hstart : (loop []).result = none)
    (hturn : ∀ polls, loop (c.poll :: polls) = ⟨[c.profile], some (.ok c.profile)⟩) :
    Shows order file loop (c.poll :: polls) last [c] where
  profiles := by
    rw [hturn]
    rfl
  turns := (List.nil_sublist polls).cons_cons c.poll
  result := by
    intro p hp
    rw [hturn] at hp
    cases hp
    refine ⟨[], c, polls, rfl, hstart, ?_, rfl, rfl⟩
    rw [List.nil_append, hturn]
  failure := by
    intro e he
    rw [hturn] at he
    cases he

theorem failed {e : CaptureError} (hmem : poll ∈ polls)
    (hfails : last.checkpoint order file poll = .error e)
    (hturn : loop polls = ⟨[], some (.error e)⟩) : Shows order file loop polls last [] where
  profiles := by
    rw [hturn]
    rfl
  turns := List.nil_sublist _
  result := by
    intro p hp
    rw [hturn] at hp
    cases hp
  failure := by
    intro e' he
    rw [hturn] at he
    cases he
    exact ⟨poll, hmem, hfails⟩

theorem nothing (hturn : loop polls = ⟨[], none⟩) : Shows order file loop polls last [] where
  profiles := by
    rw [hturn]
    rfl
  turns := List.nil_sublist _
  result := by
    intro p hp
    rw [hturn] at hp
    cases hp
  failure := by
    intro e he
    rw [hturn] at he
    cases he

end Shows

theorem OpenLog.attachLoop_makes (start : ℕ) (polls : List Poll) (s : OpenLog) :
    ∃ checkpoints last, Makes order file s checkpoints last ∧
      Shows order file (fun polls => s.attachLoop order file options start polls) polls last
        checkpoints := by
  induction polls generalizing s with
  | nil => exact ⟨[], s, .nil s, .nothing rfl⟩
  | cons poll polls ih =>
    cases hcheckpoint : s.checkpoint order file poll with
    | error e =>
      refine ⟨[], s, .nil s, .failed List.mem_cons_self hcheckpoint ?_⟩
      rw [attachLoop, hcheckpoint]
    | ok made =>
      obtain ⟨p, s'⟩ := made
      by_cases hends : (poll.exited || done start options poll.finished) = true
      · refine ⟨_, s', .last poll hcheckpoint, .ended ⟨s.clock, poll, p⟩ s' rfl fun polls => ?_⟩
        dsimp only
        rw [attachLoop, hcheckpoint]
        exact if_pos hends
      · have hexited : poll.exited = false :=
          (Bool.or_eq_false_iff.mp (Bool.eq_false_iff.mpr hends)).1
        obtain ⟨checkpoints, last, hmakes, hshows⟩ := ih s'
        refine ⟨_, last, .cons poll hcheckpoint hexited hmakes,
          hshows.cons (c := ⟨s.clock, poll, p⟩) fun polls => ?_⟩
        dsimp only
        rw [attachLoop, hcheckpoint]
        exact if_neg hends

theorem CaptureState.act_some {s : CaptureState} {log : OpenLog} (hreader : s.reader = some log)
    (spawned : ℕ) (poll : Poll) :
    (∃ e, log.checkpoint order file poll = .error e ∧
      s.act order file options spawned poll = (none, .inr (.error e))) ∨
    poll.exited = false ∧ s.act order file options spawned poll = (none, .inl s) ∨
    ∃ p log', log.checkpoint order file poll = .ok (p, log') ∧
      (s.act order file options spawned poll = (some p, .inr (.ok p)) ∨
        poll.exited = false ∧ ∃ s', s'.reader = some log' ∧
          s.act order file options spawned poll = (some p, .inl s')) := by
  unfold act
  rw [hreader]
  simp only [Option.isNone_some, Bool.false_and, Bool.false_eq_true, if_false]
  by_cases hdue : (poll.exited || (some log).isSome && done s.start options poll.due ||
      decide (s.next ≤ poll.dueAt)) = true
  · rw [if_pos hdue]
    cases hcheckpoint : log.checkpoint order file poll with
    | error e => exact .inl ⟨e, rfl, rfl⟩
    | ok made =>
      obtain ⟨p, log'⟩ := made
      refine .inr (.inr ⟨p, log', rfl, ?_⟩)
      dsimp only
      split_ifs with hends
      · exact .inl rfl
      · exact .inr ⟨(Bool.or_eq_false_iff.mp (Bool.eq_false_iff.mpr hends)).1, _, rfl, rfl⟩
  · rw [if_neg hdue]
    have hnot := (Bool.or_eq_false_iff.mp (Bool.eq_false_iff.mpr hdue)).1
    exact .inr (.inl ⟨(Bool.or_eq_false_iff.mp hnot).1, rfl⟩)

/-- Why `run` ends without having opened the log: a turn that found no header waits no longer or
finds the target gone, or the header is refused. -/
inductive Unopened (file : ℕ → List UInt8) (pid : UInt32) (options : CaptureOptions)
    (spawned : ℕ) (polls : List Poll) : CaptureError → Prop where
  | zeroInterval : options.interval = 0 → Unopened file pid options spawned polls .zeroInterval
  | notInitialized (poll : Poll) (instant : ℕ) : poll ∈ polls →
      (file instant).length < headerSize → tooLate spawned poll.waiting = true →
      Unopened file pid options spawned polls .notInitialized
  | unsupportedTarget (poll : Poll) (instant : ℕ) : poll ∈ polls →
      (file instant).length < headerSize →
      poll.exited = true ∨ done spawned options poll.finished = true →
      Unopened file pid options spawned polls .unsupportedTarget
  | refused (poll : Poll) (instant : ℕ) (e : SnapshotError) : poll ∈ polls →
      headerSize ≤ (file instant).length →
      openLog (fun t => file (instant + 1 + t)) pid poll.isPrivate = .error e →
      Unopened file pid options spawned polls (.log e)

theorem Unopened.cons {spawned : ℕ} {polls : List Poll} {e : CaptureError}
    (h : Unopened file pid options spawned polls e) (poll : Poll) :
    Unopened file pid options spawned (poll :: polls) e := by
  cases h with
  | zeroInterval hzero => exact .zeroInterval hzero
  | notInitialized poll' instant hmem hshort hlate =>
    exact .notInitialized poll' instant (List.mem_cons_of_mem _ hmem) hshort hlate
  | unsupportedTarget poll' instant hmem hshort hends =>
    exact .unsupportedTarget poll' instant (List.mem_cons_of_mem _ hmem) hshort hends
  | refused poll' instant e hmem hlong hopen =>
    exact .refused poll' instant e (List.mem_cons_of_mem _ hmem) hlong hopen

/-- Why `attach` does. -/
inductive Unattached (file : ℕ → List UInt8) (pid : UInt32) (options : CaptureOptions)
    (isPrivate : Bool) : CaptureError → Prop where
  | zeroInterval : options.interval = 0 → Unattached file pid options isPrivate .zeroInterval
  | refused (e : SnapshotError) : openLog file pid isPrivate = .error e →
      Unattached file pid options isPrivate (.log e)

theorem CaptureState.act_none {s : CaptureState} (hreader : s.reader = none) {spawned : ℕ}
    (hstart : s.start = spawned) {poll : Poll} {polls : List Poll} (hmem : poll ∈ polls)
    {instant : ℕ} (hshort : (file instant).length < headerSize) :
    (∃ e, Unopened file pid options spawned polls e ∧
      s.act order file options spawned poll = (none, .inr (.error e))) ∨
    poll.exited = false ∧ ∃ s', s'.reader = none ∧ s'.start = spawned ∧
      s.act order file options spawned poll = (none, .inl s') := by
  subst hstart
  unfold act
  rw [hreader]
  by_cases hlate : ((none : Option OpenLog).isNone && tooLate s.start poll.waiting) = true
  · rw [if_pos hlate]
    exact .inl ⟨_, .notInitialized poll instant hmem hshort hlate, rfl⟩
  rw [if_neg hlate]
  by_cases hdue : (poll.exited || (none : Option OpenLog).isSome &&
      done s.start options poll.due || decide (s.next ≤ poll.dueAt)) = true
  · rw [if_pos hdue]
    dsimp only
    by_cases hends : (poll.exited || done s.start options poll.finished) = true
    · rw [if_pos hends]
      exact .inl ⟨_, .unsupportedTarget poll instant hmem hshort (Bool.or_eq_true _ _ ▸ hends), rfl⟩
    · rw [if_neg hends]
      exact .inr ⟨(Bool.or_eq_false_iff.mp (Bool.eq_false_iff.mpr hends)).1,
        ⟨s.clock, none, s.start, poll.nextFrom + options.interval⟩, rfl, rfl, rfl⟩
  · rw [if_neg hdue]
    have hnot := (Bool.or_eq_false_iff.mp (Bool.eq_false_iff.mpr hdue)).1
    exact .inr ⟨(Bool.or_eq_false_iff.mp hnot).1, s, hreader, rfl, rfl⟩

theorem CaptureState.openReader_some {s : CaptureState} {log : OpenLog}
    (hreader : s.reader = some log) (poll : Poll) :
    s.openReader file pid options poll = .ok s := by
  unfold openReader
  rw [hreader]

theorem CaptureState.openReader_none {s : CaptureState} (hreader : s.reader = none) {poll : Poll}
    {polls : List Poll} (hmem : poll ∈ polls) (spawned : ℕ) :
    (∃ e, Unopened file pid options spawned polls e ∧
      s.openReader file pid options poll = .error e) ∨
    ∃ s', s.openReader file pid options poll = .ok s' ∧
      ((s'.reader = none ∧ s'.start = s.start ∧ (file s.clock).length < headerSize) ∨
        ∃ instant log, openLog (fun t => file (instant + t)) pid poll.isPrivate = .ok log ∧
          s'.reader = some { log with clock := instant + log.clock }) := by
  unfold openReader
  rw [hreader]
  dsimp only
  split_ifs with hlong
  · cases hopen : openLog (fun t => file (s.clock + 1 + t)) pid poll.isPrivate with
    | error e => exact .inl ⟨_, .refused poll s.clock e hmem hlong hopen, rfl⟩
    | ok log => exact .inr ⟨_, rfl, .inr ⟨s.clock + 1, log, hopen, rfl⟩⟩
  · exact .inr ⟨_, rfl, .inl ⟨rfl, rfl, Nat.lt_of_not_le hlong⟩⟩

theorem CaptureState.run_some (spawned : ℕ) (polls : List Poll) {s : CaptureState} {log : OpenLog}
    (hreader : s.reader = some log) :
    ∃ checkpoints last, Makes order file log checkpoints last ∧
      Shows order file (fun polls => CaptureState.run order file pid options spawned polls s) polls
        last checkpoints := by
  induction polls generalizing s log with
  | nil => exact ⟨[], log, .nil log, .nothing rfl⟩
  | cons poll polls ih =>
    have hturn : s.turn order file pid options spawned poll =
        s.act order file options spawned poll := by
      rw [turn, openReader_some hreader]
    rcases act_some hreader spawned poll with
      ⟨e, hcheckpoint, he⟩ | ⟨hexited, hwait⟩ | ⟨p, log', hcheckpoint, hact⟩
    · refine ⟨[], log, .nil log, .failed List.mem_cons_self hcheckpoint ?_⟩
      rw [CaptureState.run, hturn, he]
      rfl
    · obtain ⟨checkpoints, last, hmakes, hshows⟩ := ih hreader
      refine ⟨checkpoints, last, hmakes, hshows.wait fun polls => ?_⟩
      rw [CaptureState.run, hturn, hwait]
      rfl
    · rcases hact with hends | ⟨hexited, s', hs', hgoes⟩
      · refine ⟨_, log', .last poll hcheckpoint,
          .ended ⟨log.clock, poll, p⟩ log' rfl fun polls => ?_⟩
        dsimp only
        rw [CaptureState.run, hturn, hends]
        rfl
      · obtain ⟨checkpoints, last, hmakes, hshows⟩ := ih hs'
        refine ⟨_, last, .cons poll hcheckpoint hexited hmakes,
          hshows.cons (c := ⟨log.clock, poll, p⟩) fun polls => ?_⟩
        dsimp only
        rw [CaptureState.run, hturn, hgoes]
        rfl

/-- Without one it makes none before it has opened the log. -/
theorem CaptureState.run_none (spawned : ℕ) (polls : List Poll) {s : CaptureState}
    (hreader : s.reader = none) (hstart : s.start = spawned) :
    ((CaptureState.run order file pid options spawned polls s).checkpoints = [] ∧
      ∀ result, (CaptureState.run order file pid options spawned polls s).result = some result →
        ∃ e, Unopened file pid options spawned polls e ∧ result = .error e) ∨
    ∃ instant log isPrivate checkpoints last,
      openLog (fun t => file (instant + t)) pid isPrivate = .ok log ∧
      Makes order file { log with clock := instant + log.clock } checkpoints last ∧
      Shows order file (fun polls => CaptureState.run order file pid options spawned polls s) polls
        last checkpoints := by
  induction polls generalizing s with
  | nil => exact .inl ⟨rfl, fun result hr => by cases hr⟩
  | cons poll polls ih =>
    have hmem : poll ∈ poll :: polls := List.mem_cons_self
    rcases @openReader_none file pid options s hreader poll _ hmem spawned with
      ⟨e, he, hopen⟩ | ⟨s₁, hopen, hs₁⟩
    · unfold CaptureState.run turn
      rw [hopen]
      exact .inl ⟨rfl, fun result hr => ⟨e, he, (Option.some.inj hr).symm⟩⟩
    have hturn : s.turn order file pid options spawned poll =
        s₁.act order file options spawned poll := by
      rw [turn, hopen]
    rcases hs₁ with ⟨hnone, hstart₁, hshort⟩ | ⟨instant, log, hlog, hsome⟩
    · rcases @act_none order file pid options s₁ hnone spawned (hstart₁.trans hstart) poll _ hmem
        _ hshort with ⟨e, he, hact⟩ | ⟨hexited, s₂, hs₂, hstart₂, hgoes⟩
      · unfold CaptureState.run
        rw [hturn, hact]
        exact .inl ⟨rfl, fun result hr => ⟨e, he, (Option.some.inj hr).symm⟩⟩
      · have hrun (polls : List Poll) :
            CaptureState.run order file pid options spawned (poll :: polls) s =
              CaptureState.run order file pid options spawned polls s₂ := by
          rw [CaptureState.run, hturn, hgoes]
          rfl
        rw [hrun]
        rcases ih hs₂ hstart₂ with ⟨hempty, hresult⟩ |
          ⟨instant, log, isPrivate, checkpoints, last, hlog, hmakes, hshows⟩
        · refine .inl ⟨hempty, fun result hr => ?_⟩
          obtain ⟨e, he, heq⟩ := hresult result hr
          exact ⟨e, he.cons poll, heq⟩
        · exact .inr ⟨instant, log, isPrivate, checkpoints, last, hlog, hmakes, hshows.wait hrun⟩
    · have hsame (polls : List Poll) :
          CaptureState.run order file pid options spawned (poll :: polls) s =
            CaptureState.run order file pid options spawned (poll :: polls) s₁ := by
        rw [CaptureState.run, CaptureState.run, hturn, turn, openReader_some hsome]
      obtain ⟨checkpoints, last, hmakes, hshows⟩ :=
        @run_some order file pid options spawned (poll :: polls) _ _ hsome
      refine .inr ⟨instant, log, poll.isPrivate, checkpoints, last, hlog, hmakes,
        hshows.congr fun before after heq => ?_⟩
      cases before with
      | nil => rfl
      | cons first before =>
        obtain ⟨rfl, -⟩ := List.cons.inj heq
        exact hsame before

theorem addSamples_header {entries : List (Stack × HeapValues)} {profile profile' : HeapProfile}
    (h : NativeHeapTracker.addSamples profile entries = .ok profile') :
    profile'.domain = profile.domain ∧ profile'.collectedAt = profile.collectedAt := by
  induction entries generalizing profile with
  | nil =>
    cases h
    exact ⟨rfl, rfl⟩
  | cons entry entries ih =>
    unfold NativeHeapTracker.addSamples at h
    obtain ⟨next, hnext, h⟩ := Fallible.bind_eq_ok.mp h
    obtain ⟨-, sum, -, -, rfl⟩ := HeapProfile.addSample_ok hnext
    obtain ⟨hdomain, hcollected⟩ := ih h
    exact ⟨hdomain, hcollected⟩

theorem snapshot_header {t : NativeHeapTracker} {order : List (UInt64 × UInt64 × ℕ)} {now : ℤ}
    {profile : HeapProfile} (h : t.snapshot order now = .ok profile) :
    profile.domain = t.domain ∧ profile.collectedAt = now := by
  unfold NativeHeapTracker.snapshot at h
  obtain ⟨values, -, h⟩ := Fallible.bind_eq_ok.mp h
  exact addSamples_header h

theorem release_domain (r : LogReader) (address : UInt64) :
    (r.release address).tracker.domain = r.tracker.domain := by
  unfold LogReader.release
  rw [NativeHeapTracker.release_run]
  split_ifs
  · rfl
  · rfl
  · rfl

theorem allocate_domain {r r' : LogReader} {e : Event} (h : r.allocate e = .ok r') :
    r'.tracker.domain = r.tracker.domain := by
  unfold LogReader.allocate at h
  cases hrun : NativeHeapTracker.allocate e.address e.size e.frames r.tracker with
  | error error t =>
    rw [hrun] at h
    cases h
  | ok u t =>
    rw [hrun] at h
    cases h
    obtain ⟨-, -, -, ⟨_, _, _, -, -, -, rfl⟩ | ⟨_, -, -, rfl⟩⟩ := NativeHeapTracker.allocate_ok hrun
    · rfl
    · rfl

theorem replayEvent_domain {r r' : LogReader} {e : Event} (h : r.replayEvent e = .ok r') :
    r'.tracker.domain = r.tracker.domain := by
  have hreleased : (r.replayRelease e).tracker.domain = r.tracker.domain := by
    unfold LogReader.replayRelease
    split_ifs
    · exact release_domain r _
    · exact release_domain r _
    · rfl
  unfold LogReader.replayEvent at h
  by_cases hdepth : 64 < e.depth
  · rw [if_pos hdepth] at h
    cases h
  rw [if_neg hdepth] at h
  obtain ⟨r₁, hr₁, h⟩ := Fallible.bind_eq_ok.mp h
  have hkept : r₁.tracker.domain = r.tracker.domain := by
    unfold LogReader.replayAllocate at hr₁
    split_ifs at hr₁
    · exact (allocate_domain hr₁).trans hreleased
    · cases hr₁
      exact hreleased
  by_cases hkind : 1 ≤ e.kind ∧ e.kind ≤ 3
  · rw [if_neg (not_not.mpr hkind)] at h
    cases h
    exact hkept
  · rw [if_pos hkind] at h
    cases h

theorem replay_domain {events : List Event} {r : LogReader}
    (h : LogReader.opened.replay 0 events = .ok r) : r.tracker.domain = "native" :=
  Fallible.foldlM_invariant (fun _ r => r.tracker.domain = "native") events rfl
    (fun _ _ _ _ hdomain _ hstep => (replayEvent_domain hstep).trans hdomain) h

theorem toPprof_error {profile : HeapProfile} {e : ExportError} (h : profile.toPprof = .error e)
    (hdomain : profile.domain = "native") :
    (e = .beforeEpoch ∧ profile.collectedAt < 0) ∨
      (e = .timeRange ∧ 2 ^ 63 ≤ profile.collectedAt) := by
  unfold HeapProfile.toPprof at h
  rw [if_neg (by rw [hdomain]; decide)] at h
  by_cases hepoch : profile.collectedAt < 0
  · rw [if_pos hepoch] at h
    cases h
    exact .inl ⟨rfl, hepoch⟩
  rw [if_neg hepoch] at h
  by_cases hrange : 2 ^ 63 ≤ profile.collectedAt
  · rw [if_pos hrange] at h
    cases h
    exact .inr ⟨rfl, hrange⟩
  · rw [if_neg hrange] at h
    cases h

theorem profile_header {reader : LogReader} {call : SnapshotCall} {profile : HeapProfile}
    (h : reader.profile call = .ok profile) :
    profile.domain = reader.tracker.domain ∧ profile.collectedAt = call.now := by
  unfold LogReader.profile at h
  obtain ⟨tracked, htracked, h⟩ := Fallible.bind_eq_ok.mp h
  have hheader := snapshot_header (mapError_eq_ok htracked)
  cases hname : call.name with
  | none =>
    rw [hname] at h
    cases h
  | some name =>
    rw [hname] at h
    cases h
    exact hheader

/-! ## What a checkpoint reads -/

theorem OpenLog.At.checkpoint {s s' : OpenLog} {n : ℕ} {poll : Poll} {p : PprofProfile}
    (hgrows : ∀ t, Grows (file t) (file (t + 1))) (h : s.At (file s.clock) n)
    (hcheckpoint : s.checkpoint order file poll = .ok (p, s')) :
    (⟨s.clock, poll, p⟩ : Checkpoint).Reads order file ∧
      (∃ n', s'.At (file s'.clock) n') ∧ s.clock + 2 ≤ s'.clock := by
  unfold OpenLog.checkpoint at hcheckpoint
  obtain ⟨s₁, hadvance, hcheckpoint⟩ := Fallible.bind_eq_ok.mp hcheckpoint
  obtain ⟨profile, hprofile, hcheckpoint⟩ := Fallible.bind_eq_ok.mp hcheckpoint
  obtain ⟨p₁, hpprof, hcheckpoint⟩ := Fallible.bind_eq_ok.mp hcheckpoint
  cases hcheckpoint
  have hread := mapError_eq_ok hadvance
  have hmade := mapError_eq_ok hprofile
  have hcall : s.snapshot file (poll.call (order s'.reader.tracker.live)) = .ok (profile, s') := by
    rw [snapshot_eq]
    change (s.advance file poll.exited >>= _) = _
    rw [hread, Fallible.ok_bind, hmade]
    rfl
  obtain ⟨hat, hclock, hwhole⟩ := h.snapshot hgrows hcall
  have hheader : headerSize ≤ (file s.clock).length := le_trans (Nat.le_add_right _ _) h.inside
  refine ⟨⟨hheader, advance_status hread hheader, hwhole, s'.reader, profile, hat.replayed,
    hmade, mapError_eq_ok hpprof⟩, ?_, hclock⟩
  exact ⟨_, hat.grows (grows_of_le hgrows (by omega))⟩

theorem Makes.reads {s last : OpenLog} {n : ℕ} {checkpoints : List Checkpoint}
    (hgrows : ∀ t, Grows (file t) (file (t + 1))) (hat : s.At (file s.clock) n)
    (h : Makes order file s checkpoints last) :
    (∀ c ∈ checkpoints, c.Reads order file ∧ s.clock ≤ c.instant) ∧
      (checkpoints.Pairwise fun c c' => c.instant + 2 ≤ c'.instant ∧ c.poll.exited = false) ∧
      ∃ n', last.At (file last.clock) n' := by
  induction h generalizing n with
  | nil s => exact ⟨List.forall_mem_nil _, .nil, n, hat⟩
  | @last s s' poll p hcheckpoint =>
    obtain ⟨hreads, hlast, -⟩ := hat.checkpoint hgrows hcheckpoint
    refine ⟨fun c hc => ?_, List.pairwise_singleton _ _, hlast⟩
    rw [List.mem_singleton.mp hc]
    exact ⟨hreads, Nat.le_refl _⟩
  | @cons s s' last poll p checkpoints hcheckpoint hexited hmakes ih =>
    obtain ⟨hreads, ⟨n', hat'⟩, hclock⟩ := hat.checkpoint hgrows hcheckpoint
    obtain ⟨hrest, hpairs, hlast⟩ := ih hat'
    refine ⟨fun c hc => ?_, List.pairwise_cons.mpr ⟨fun c hc => ?_, hpairs⟩, hlast⟩
    · rcases List.mem_cons.mp hc with rfl | hc
      · exact ⟨hreads, Nat.le_refl _⟩
      · obtain ⟨hreads', hle⟩ := hrest c hc
        exact ⟨hreads', by omega⟩
    · obtain ⟨-, hle⟩ := hrest c hc
      exact ⟨hclock.trans hle, hexited⟩

theorem CaptureState.act_exited {s : CaptureState} (spawned : ℕ) {poll : Poll}
    (hexited : poll.exited = true) :
    ∃ result, (s.act order file options spawned poll).2 = .inr result := by
  unfold act
  rw [hexited]
  simp only [Bool.true_or, if_true]
  split_ifs
  · exact ⟨_, rfl⟩
  · cases hreader : s.reader with
    | none => exact ⟨_, rfl⟩
    | some log =>
      cases hcheckpoint : log.checkpoint order file poll with
      | error e => exact ⟨_, by dsimp only; rw [hcheckpoint]⟩
      | ok made => exact ⟨.ok made.1, by dsimp only; rw [hcheckpoint]⟩

theorem CaptureState.turn_exited (s : CaptureState) (spawned : ℕ) {poll : Poll}
    (hexited : poll.exited = true) :
    ∃ checkpoint result,
      s.turn order file pid options spawned poll = (checkpoint, .inr result) := by
  unfold turn
  cases s.openReader file pid options poll with
  | error e => exact ⟨none, .error e, rfl⟩
  | ok s₁ =>
    obtain ⟨result, hresult⟩ := @act_exited order file options s₁ spawned poll hexited
    exact ⟨_, result, Prod.ext rfl hresult⟩

/-- A loop that has ended takes no further turn, and one that finds the target gone ends it. -/
structure Ends (loop : List Poll → CaptureRun) : Prop where
  stops : ∀ before after, (loop before).result ≠ none → loop (before ++ after) = loop before
  gone : ∀ before poll, poll.exited = true → (loop (before ++ [poll])).result ≠ none

theorem ends_const {loop : List Poll → CaptureRun} {run : CaptureRun} (hresult : run.result ≠ none)
    (hloop : ∀ polls, loop polls = run) : Ends loop where
  stops := by
    intro before after _
    rw [hloop, hloop]
  gone := by
    intro before poll _
    rw [hloop]
    exact hresult

/-- A turn ends the loop, whatever comes after it, or the loop goes on from another state; it does
so only while the target is there. -/
theorem ends_of_turns {σ : Type} {loop : σ → List Poll → CaptureRun}
    (hstart : ∀ s, (loop s []).result = none)
    (hturn : ∀ s poll, (∃ run : CaptureRun, run.result ≠ none ∧
        ∀ polls, loop s (poll :: polls) = run) ∨
      poll.exited = false ∧ ∃ s' made, ∀ polls, loop s (poll :: polls) =
        ⟨made ++ (loop s' polls).checkpoints, (loop s' polls).result⟩) (s : σ) :
    Ends (loop s) where
  stops := by
    intro before after hresult
    induction before generalizing s with
    | nil => exact absurd (hstart s) hresult
    | cons first before ih =>
      rw [List.cons_append]
      rcases hturn s first with ⟨run, -, hrun⟩ | ⟨-, s', made, hgoes⟩
      · rw [hrun, hrun]
      · rw [hgoes] at hresult
        rw [hgoes, hgoes, ih s' hresult]
  gone := by
    intro before poll hexited
    induction before generalizing s with
    | nil =>
      rw [List.nil_append]
      rcases hturn s poll with ⟨run, hresult, hrun⟩ | ⟨hthere, -⟩
      · rw [hrun]
        exact hresult
      · rw [hexited] at hthere
        cases hthere
    | cons first before ih =>
      rw [List.cons_append]
      rcases hturn s first with ⟨run, hresult, hrun⟩ | ⟨-, s', made, hgoes⟩
      · rw [hrun]
        exact hresult
      · rw [hgoes]
        exact ih s'

theorem CaptureState.run_ends (spawned : ℕ) (s : CaptureState) :
    Ends fun polls => CaptureState.run order file pid options spawned polls s := by
  refine @ends_of_turns _ (fun s polls => CaptureState.run order file pid options spawned polls s)
    (fun _ => rfl) (fun s poll => ?_) s
  cases hturn : s.turn order file pid options spawned poll with
  | mk checkpoint next =>
    cases next with
    | inr result =>
      refine .inl ⟨⟨checkpoint.toList, some result⟩, Option.some_ne_none _, fun polls => ?_⟩
      rw [CaptureState.run, hturn]
    | inl s' =>
      refine .inr ⟨?_, s', checkpoint.toList, fun polls => by rw [CaptureState.run, hturn]⟩
      by_contra hexited
      obtain ⟨made, result, hends⟩ := @CaptureState.turn_exited order file pid options s spawned
        poll (Bool.eq_true_of_not_eq_false hexited)
      rw [hturn] at hends
      cases hends

theorem OpenLog.attachLoop_ends (start : ℕ) (s : OpenLog) :
    Ends fun polls => s.attachLoop order file options start polls := by
  refine @ends_of_turns _ (fun s polls => OpenLog.attachLoop order file options start polls s)
    (fun _ => rfl) (fun s poll => ?_) s
  cases hcheckpoint : s.checkpoint order file poll with
  | error e =>
    refine .inl ⟨⟨[], some (.error e)⟩, Option.some_ne_none _, fun polls => ?_⟩
    rw [attachLoop, hcheckpoint]
  | ok made =>
    obtain ⟨p, s'⟩ := made
    by_cases hends : (poll.exited || done start options poll.finished) = true
    · refine .inl ⟨⟨[p], some (.ok p)⟩, Option.some_ne_none _, fun polls => ?_⟩
      rw [attachLoop, hcheckpoint]
      exact if_pos hends
    · refine .inr ⟨(Bool.or_eq_false_iff.mp (Bool.eq_false_iff.mpr hends)).1, s', [p],
        fun polls => ?_⟩
      rw [attachLoop, hcheckpoint]
      exact if_neg hends

theorem run_ends (spawned firstNext : ℕ) :
    Ends (run order file pid options spawned firstNext) := by
  by_cases hzero : options.interval = 0
  · exact ends_const (Option.some_ne_none _) fun polls => if_pos hzero
  · have hloop : run order file pid options spawned firstNext = fun polls =>
        CaptureState.run order file pid options spawned polls ⟨0, none, spawned, firstNext⟩ :=
      funext fun polls => if_neg hzero
    rw [hloop]
    exact CaptureState.run_ends spawned _

theorem attach_ends (isPrivate : Bool) (start : ℕ) :
    Ends (attach order file pid options isPrivate start) := by
  by_cases hzero : options.interval = 0
  · exact ends_const (Option.some_ne_none _) fun polls => if_pos hzero
  cases hopen : openLog file pid isPrivate with
  | error e =>
    have hrun : ∀ polls, attach order file pid options isPrivate start polls =
        ⟨[], some (.error (.log e))⟩ := by
      intro polls
      rw [attach, if_neg hzero, hopen]
    exact ends_const (Option.some_ne_none _) hrun
  | ok log =>
    have hloop : attach order file pid options isPrivate start = fun polls =>
        log.attachLoop order file options start polls := by
      funext polls
      rw [attach, if_neg hzero, hopen]
    rw [hloop]
    exact OpenLog.attachLoop_ends start log

/-- If the turn that finds the target gone is reached and the loop returns, that turn has made the
last checkpoint. -/
theorem Returns.gone {loop : List Poll → CaptureRun} (hends : Ends loop) {polls : List Poll}
    {checkpoints : List Checkpoint} {p : PprofProfile} (h : Returns loop polls checkpoints p)
    {before after : List Poll} {poll : Poll} (hpolls : polls = before ++ poll :: after)
    (hexited : poll.exited = true) (hreached : (loop before).result = none) :
    ∃ c, checkpoints.getLast? = some c ∧ c.poll = poll ∧ c.profile = p := by
  obtain ⟨before', c, after', heq, hnone, hended, hlast, hprofile⟩ := h
  refine ⟨c, hlast, ?_, hprofile⟩
  rcases List.append_eq_append_iff.mp (hpolls.symm.trans heq) with
    ⟨between, rfl, hrest⟩ | ⟨between, rfl, hrest⟩
  · cases between with
    | nil => exact (List.cons.inj hrest).1.symm
    | cons first between =>
      obtain ⟨rfl, -⟩ := List.cons.inj hrest
      have hgone := hends.gone before poll hexited
      have hsame := hends.stops (before ++ [poll]) between hgone
      rw [List.append_assoc, List.singleton_append] at hsame
      rw [← hsame, hnone] at hgone
      exact absurd rfl hgone
  · cases between with
    | nil => exact (List.cons.inj hrest).1
    | cons first between =>
      obtain ⟨rfl, -⟩ := List.cons.inj hrest
      have hsame := hends.stops (before' ++ [c.poll]) between (hended ▸ Option.some_ne_none _)
      rw [List.append_assoc, List.singleton_append] at hsame
      rw [← hsame, hreached] at hended
      cases hended

/-- What the checkpoints of a capture are, what it returns, and how it fails. -/
structure Captures (order : Std.ExtHashMap UInt64 (UInt64 × ℕ) → List (UInt64 × UInt64 × ℕ))
    (file : ℕ → List UInt8) (loop : List Poll → CaptureRun) (polls : List Poll)
    (unopened : CaptureError → Prop) (checkpoints : List Checkpoint) : Prop where
  profiles : (loop polls).checkpoints = checkpoints.map Checkpoint.profile
  turns : (checkpoints.map Checkpoint.poll).Sublist polls
  reads : ∀ c ∈ checkpoints, c.Reads order file
  ascending : checkpoints.Pairwise fun c c' => c.instant + 2 ≤ c'.instant ∧ c.poll.exited = false
  result : ∀ p, (loop polls).result = some (.ok p) → Returns loop polls checkpoints p
  gone : ∀ before poll after p, polls = before ++ poll :: after → poll.exited = true →
    (loop before).result = none → (loop polls).result = some (.ok p) →
      ∃ c, checkpoints.getLast? = some c ∧ c.poll = poll ∧ c.profile = p
  failure : ∀ e, (loop polls).result = some (.error e) → unopened e ∨
    ∃ poll ∈ polls, ∃ (s : OpenLog) (n : ℕ), s.At (file s.clock) n ∧
      s.checkpoint order file poll = .error e

variable {unopened : CaptureError → Prop} {loop : List Poll → CaptureRun}

theorem captures_of_makes (hgrows : ∀ t, Grows (file t) (file (t + 1))) (hends : Ends loop)
    {polls : List Poll} {last : OpenLog} {checkpoints : List Checkpoint}
    (hshows : Shows order file loop polls last checkpoints) {instant : ℕ} {log : OpenLog}
    {isPrivate : Bool} (hopen : openLog (fun t => file (instant + t)) pid isPrivate = .ok log)
    (hmakes : Makes order file { log with clock := instant + log.clock } checkpoints last) :
    Captures order file loop polls unopened checkpoints := by
  obtain ⟨hat, hclock⟩ := OpenLog.at_open hopen
  have hlater := hat.grows (grows_of_le hgrows (Nat.add_le_add_left (Nat.zero_le log.clock) _))
  have hstart : OpenLog.At (file (instant + log.clock)) 0
      { log with clock := instant + log.clock } :=
    ⟨hlater.position, hlater.inside, hlater.replayed⟩
  obtain ⟨hreads, hpairs, n, hlast⟩ := hmakes.reads hgrows hstart
  refine ⟨hshows.profiles, hshows.turns, fun c hc => (hreads c hc).1, hpairs, hshows.result, ?_,
    fun e he => ?_⟩
  · intro before poll after p hpolls hexited hreached hp
    exact (hshows.result p hp).gone hends hpolls hexited hreached
  · obtain ⟨poll, hmem, hfails⟩ := hshows.failure e he
    exact .inr ⟨poll, hmem, last, n, hlast, hfails⟩

theorem captures_nothing {polls : List Poll} (hnone : (loop polls).checkpoints = [])
    (hresult : ∀ result, (loop polls).result = some result → ∃ e, unopened e ∧ result = .error e) :
    Captures order file loop polls unopened [] where
  profiles := hnone
  turns := List.nil_sublist _
  reads := List.forall_mem_nil _
  ascending := .nil
  result := by
    intro p hp
    obtain ⟨e, -, he⟩ := hresult _ hp
    cases he
  gone := by
    intro before poll after p hpolls hexited hreached hp
    obtain ⟨e, -, he⟩ := hresult _ hp
    cases he
  failure := by
    intro e he
    obtain ⟨e', hcause, hsame⟩ := hresult _ he
    cases hsame
    exact .inl hcause

theorem run_captures (hgrows : ∀ t, Grows (file t) (file (t + 1))) (spawned firstNext : ℕ)
    (polls : List Poll) : ∃ checkpoints,
      Captures order file (run order file pid options spawned firstNext) polls
        (Unopened file pid options spawned polls) checkpoints := by
  by_cases hzero : options.interval = 0
  · have hloop : run order file pid options spawned firstNext polls =
        ⟨[], some (.error .zeroInterval)⟩ := if_pos hzero
    refine ⟨[], captures_nothing (hloop ▸ rfl) fun result hr => ?_⟩
    rw [hloop] at hr
    exact ⟨_, .zeroInterval hzero, (Option.some.inj hr).symm⟩
  · have hloop (polls : List Poll) : run order file pid options spawned firstNext polls =
        CaptureState.run order file pid options spawned polls ⟨0, none, spawned, firstNext⟩ :=
      if_neg hzero
    rcases @CaptureState.run_none order file pid options spawned polls
      ⟨0, none, spawned, firstNext⟩ rfl rfl with ⟨hnone, hresult⟩ |
      ⟨instant, log, isPrivate, checkpoints, last, hopen, hmakes, hshows⟩
    · rw [← hloop] at hnone hresult
      exact ⟨[], captures_nothing hnone hresult⟩
    · exact ⟨checkpoints, captures_of_makes hgrows (run_ends spawned firstNext)
        (hshows.congr fun before after _ => hloop before) hopen hmakes⟩

theorem attach_captures (hgrows : ∀ t, Grows (file t) (file (t + 1))) (isPrivate : Bool)
    (start : ℕ) (polls : List Poll) : ∃ checkpoints,
      Captures order file (attach order file pid options isPrivate start) polls
        (Unattached file pid options isPrivate) checkpoints := by
  by_cases hzero : options.interval = 0
  · have hloop : attach order file pid options isPrivate start polls =
        ⟨[], some (.error .zeroInterval)⟩ := if_pos hzero
    refine ⟨[], captures_nothing (hloop ▸ rfl) fun result hr => ?_⟩
    rw [hloop] at hr
    exact ⟨_, .zeroInterval hzero, (Option.some.inj hr).symm⟩
  cases hopen : openLog file pid isPrivate with
  | error e =>
    have hloop : attach order file pid options isPrivate start polls =
        ⟨[], some (.error (.log e))⟩ := by
      rw [attach, if_neg hzero, hopen]
    refine ⟨[], captures_nothing (hloop ▸ rfl) fun result hr => ?_⟩
    rw [hloop] at hr
    exact ⟨_, .refused e hopen, (Option.some.inj hr).symm⟩
  | ok log =>
    have hloop (polls : List Poll) : attach order file pid options isPrivate start polls =
        log.attachLoop order file options start polls := by
      rw [attach, if_neg hzero, hopen]
    have hsame : (fun t => file (0 + t)) = file := funext fun t => congrArg file (Nat.zero_add t)
    obtain ⟨checkpoints, last, hmakes, hshows⟩ :=
      @OpenLog.attachLoop_makes order file options start polls log
    refine ⟨checkpoints, @captures_of_makes order file pid _ _ hgrows (attach_ends isPrivate start)
      polls last _ (hshows.congr fun before after _ => hloop before) 0 log isPrivate
      (by rw [hsame, hopen]) ?_⟩
    rw [Nat.zero_add]
    exact hmakes

/-- The loops of `run` and of `attach`, on any log that grows: every checkpoint is the export of
one pass over the complete records that the file held at some instant, under a status that admits
them; each reads the file anew, later than the one before; what a loop returns is its last
checkpoint, made by the turn that ends it; and a turn that finds the target gone ends it, with a
read that no torn record passes. -/
theorem capture_checkpoints (hgrows : ∀ t, Grows (file t) (file (t + 1)))
    (order : Std.ExtHashMap UInt64 (UInt64 × ℕ) → List (UInt64 × UInt64 × ℕ)) (pid : UInt32)
    (options : CaptureOptions) (polls : List Poll) (spawned firstNext start : ℕ)
    (isPrivate : Bool) :
    (∃ checkpoints, Captures order file (run order file pid options spawned firstNext) polls
      (Unopened file pid options spawned polls) checkpoints) ∧
    (∃ checkpoints, Captures order file (attach order file pid options isPrivate start) polls
      (Unattached file pid options isPrivate) checkpoints) ∧
    ∀ before poll after, polls = before ++ poll :: after → poll.exited = true →
      (run order file pid options spawned firstNext polls =
          run order file pid options spawned firstNext (before ++ [poll]) ∧
        (run order file pid options spawned firstNext polls).result ≠ none) ∧
      attach order file pid options isPrivate start polls =
          attach order file pid options isPrivate start (before ++ [poll]) ∧
        (attach order file pid options isPrivate start polls).result ≠ none := by
  refine ⟨run_captures hgrows spawned firstNext polls, attach_captures hgrows isPrivate start polls,
    ?_⟩
  rintro before poll after rfl hexited
  have hturns {loop : List Poll → CaptureRun} (hends : Ends loop) :
      loop (before ++ poll :: after) = loop (before ++ [poll]) ∧
        (loop (before ++ poll :: after)).result ≠ none := by
    have hgone := hends.gone before poll hexited
    have hsame := hends.stops (before ++ [poll]) after hgone
    rw [List.append_assoc, List.singleton_append] at hsame
    exact ⟨hsame, hsame ▸ hgone⟩
  exact ⟨hturns (run_ends spawned firstNext), hturns (attach_ends isPrivate start)⟩

def dueTurn (exited : Bool) (mappings : Option (List HeapMapping)) : Poll where
  exited := exited
  isPrivate := true
  openedAt := 0
  waiting := ⟨false, 0⟩
  due := ⟨false, 0⟩
  dueAt := 2000000000
  collectedAt := 0
  mappings := mappings
  symbolizeFrame := fun _ => none
  finished := ⟨false, 0⟩
  nextFrom := 0

theorem exists_orders : ∃ order : Std.ExtHashMap UInt64 (UInt64 × ℕ) → List (UInt64 × UInt64 × ℕ),
    ∀ live, Enumerates (order live) live := by
  choose order horder using fun live : Std.ExtHashMap UInt64 (UInt64 × ℕ) =>
    Enumerates.exists_order live
  exact ⟨order, horder⟩

/-- A checkpoint whose records replay, at a time that can be exported. -/
theorem OpenLog.At.checkpoint_returns {s : OpenLog} {n : ℕ}
    (hgrows : ∀ t, Grows (file t) (file (t + 1))) (h : s.At (file s.clock) n)
    (hstatus : word (file s.clock) 24 = 0 ∨ word (file s.clock) 24 = 2)
    (horder : ∀ live, Enumerates (order live) live) (exited : Bool)
    (hwhole : ¬(exited = true ∧ Torn (file (s.clock + 1)))) {r : LogReader}
    (hreplay : LogReader.opened.replay 0 (records (file (s.clock + 1))) = .ok r) :
    ∃ profile p s', r.profile ((dueTurn exited (some [])).call (order r.tracker.live)) =
        .ok profile ∧ profile.toPprof = .ok p ∧
      s.checkpoint order file (dueTurn exited (some [])) = .ok (p, s') ∧
      s'.At (file (s.clock + 1)) (recordCount (file (s.clock + 1))) ∧ s.clock + 2 ≤ s'.clock := by
  obtain ⟨profile, hprofile⟩ := (holds_replay hreplay).knows.profile_returns
    (horder r.tracker.live) exited 0 (attachSymbols [] fun _ => none)
  obtain ⟨s', hadvance, rfl, hcall⟩ := h.snapshot_returns hgrows hstatus hwhole hreplay hprofile
  obtain ⟨hdomain, hcollected⟩ := profile_header hprofile
  rw [replay_domain hreplay] at hdomain
  obtain ⟨p, hp⟩ : ∃ p, profile.toPprof = .ok p := by
    cases hpprof : profile.toPprof with
    | ok p => exact ⟨p, rfl⟩
    | error e =>
      rcases toPprof_error hpprof hdomain with ⟨-, hwhen⟩ | ⟨-, hwhen⟩
      · rw [hcollected] at hwhen
        exact absurd hwhen (Int.lt_irrefl 0)
      · rw [hcollected] at hwhen
        exact absurd hwhen (Int.not_le.mpr (by norm_num : (0 : ℤ) < 2 ^ 63))
  obtain ⟨hat, hclock, -⟩ := h.snapshot hgrows hcall
  refine ⟨profile, p, s', hprofile, hp, ?_, hat, hclock⟩
  unfold OpenLog.checkpoint
  have hturn : (dueTurn exited (some [])).exited = exited := rfl
  rw [hturn, hadvance]
  simp only [Except.mapError, Fallible.ok_bind]
  have hmade : s'.reader.profile ((dueTurn exited (some [])).call
      (order s'.reader.tracker.live)) = .ok profile := hprofile
  rw [hmade]
  simp only [Fallible.ok_bind, hp]
  rfl

/-- Two turns: the first one finds one record and a part of the other, the last one both. -/
theorem capture_checkpoints_growingLog : ∃ order checkpoints r r' profile profile' p p',
    Captures order growingLog (attach order growingLog 7 default true 0)
      [dueTurn false (some []), dueTurn true (some [])] (Unattached growingLog 7 default true)
      checkpoints ∧
    LogReader.opened.replay 0 [oneBlock] = .ok r ∧
    LogReader.opened.replay 0 [oneBlock, blockFreed] = .ok r' ∧
    r.profile ((dueTurn false (some [])).call (order r.tracker.live)) = .ok profile ∧
    r'.profile ((dueTurn true (some [])).call (order r'.tracker.live)) = .ok profile' ∧
    profile.toPprof = .ok p ∧ profile'.toPprof = .ok p' ∧
    attach order growingLog 7 default true 0 [dueTurn false (some []), dueTurn true (some [])] =
      ⟨[p, p'], some (.ok p')⟩ := by
  obtain ⟨order, horder⟩ := exists_orders
  have hgrows := growingLog_grows
  have hstatus (t : ℕ) : word (growingLog t) 24 = 0 ∨ word (growingLog t) 24 = 2 :=
    .inl (growingLog_status t)
  obtain ⟨r, r', hr, -, hr', -⟩ := growingLog_replays
  have hat : OpenLog.At (growingLog (OpenLog.mk headerSize .opened 1).clock) 0
      ⟨headerSize, .opened, 1⟩ := (OpenLog.at_open growingLog_opens).1.grows (hgrows 0)
  have hfirst : records (growingLog ((OpenLog.mk headerSize .opened 1).clock + 1)) = [oneBlock] :=
    growingLog_one (Nat.le_refl 2) (by decide)
  obtain ⟨profile, p, s, hprofile, hp, hcheckpoint, hnext, hclock⟩ := hat.checkpoint_returns hgrows
    (hstatus _) horder false (fun h => Bool.false_ne_true h.1)
    ((congrArg _ hfirst).trans hr)
  have hsecond := growingLog_both (t := s.clock + 1) (Nat.succ_le_succ hclock)
  obtain ⟨profile', p', s', hprofile', hp', hcheckpoint', -⟩ := (hnext.grows (grows_of_le hgrows
      ((Nat.le_succ _).trans hclock))).checkpoint_returns hgrows (hstatus _) horder true
    (fun h => growingLog_whole (Nat.succ_le_succ hclock) h.2) ((congrArg _ hsecond).trans hr')
  have hattach : attach order growingLog 7 default true 0
      [dueTurn false (some []), dueTurn true (some [])] = ⟨[p, p'], some (.ok p')⟩ := by
    rw [attach, if_neg (by decide), growingLog_opens]
    dsimp only
    rw [OpenLog.attachLoop, hcheckpoint]
    dsimp only
    rw [if_neg (by decide), OpenLog.attachLoop, hcheckpoint']
    rfl
  obtain ⟨-, ⟨checkpoints, hcaptures⟩, -⟩ := capture_checkpoints hgrows order 7 default
    [dueTurn false (some []), dueTurn true (some [])] 0 0 0 true
  exact ⟨order, checkpoints, r, r', profile, profile', p, p', hcaptures, hr, hr', hprofile,
    hprofile', hp, hp', hattach⟩

end PProfessor.Heap
