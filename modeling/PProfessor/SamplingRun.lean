import PProfessor.SamplingLoop

set_option autoImplicit false

/-!
# A capture is a log of samples

What a sampling loop has shared at any time is the log of the samples that it has taken: under
every thread and stack the timestamps in order, and for every thread the last name it had. What
another thread sees later extends what it has seen before.
-/
namespace PProfessor.Capture
open ByteOrder CheckedArith Perf

/-- The timestamps of the samples with the given thread and stack, in order. -/
def sampledAt (log : List ThreadSample) (key : StackKey) : List UInt64 :=
  (log.filter fun sample => sample.key = key).map ThreadSample.timestampNanos

def lastName (log : List ThreadSample) (threadId : UInt64) : Option String :=
  ((log.filter fun sample => sample.threadId = threadId ∧ sample.threadName ≠ "").getLast?).map
    ThreadSample.threadName

/-- The series of the given observations; the count stops at the largest number. -/
def seriesOf : List UInt64 → Option RawSampleSeries
  | [] => none
  | first :: rest =>
    some ⟨.ofNat (min (first :: rest).length (2 ^ 64 - 1)), some (first :: rest)⟩

/-- The profile holds what the log says. -/
structure Represents (profile : RawProfile) (log : List ThreadSample) : Prop where
  series : ∀ key, profile.stackSeries[key]? = seriesOf (sampledAt log key)
  names : ∀ threadId, profile.threadNames[threadId]? = lastName log threadId

theorem sampledAt_append (log more : List ThreadSample) (key : StackKey) :
    sampledAt (log ++ more) key = sampledAt log key ++ sampledAt more key := by
  rw [sampledAt, List.filter_append, List.map_append]
  rfl

theorem sampledAt_singleton (sample : ThreadSample) (key : StackKey) :
    sampledAt [sample] key = if sample.key = key then [sample.timestampNanos] else [] := by
  unfold sampledAt
  by_cases h : sample.key = key
  · rw [if_pos h, List.filter_cons_of_pos (by simpa using h)]
    rfl
  · rw [if_neg h, List.filter_cons_of_neg (by simpa using h)]
    rfl

theorem lastName_concat (log : List ThreadSample) (sample : ThreadSample) (threadId : UInt64) :
    lastName (log ++ [sample]) threadId =
      if sample.threadId = threadId ∧ sample.threadName ≠ "" then some sample.threadName
      else lastName log threadId := by
  unfold lastName
  rw [List.filter_append]
  by_cases h : sample.threadId = threadId ∧ sample.threadName ≠ ""
  · rw [if_pos h, List.filter_cons_of_pos (by simpa using h), List.filter_nil,
      List.getLast?_concat]
    rfl
  · rw [if_neg h, List.filter_cons_of_neg (by simpa using h), List.filter_nil, List.append_nil]

theorem toNat_saturatingAddU64 (a b : UInt64) :
    (saturatingAddU64 a b).toNat = min (a.toNat + b.toNat) (2 ^ 64 - 1) := by
  unfold saturatingAddU64 addU64
  split_ifs with h
  · rw [Option.getD_some, UInt64.toNat_add, Nat.mod_eq_of_lt h]
    omega
  · rw [Option.getD_none]
    change 2 ^ 64 - 1 = _
    omega

theorem seriesOf_push (timestamps : List UInt64) (timestampNanos : UInt64) :
    seriesOf (timestamps ++ [timestampNanos]) =
      some (((seriesOf timestamps).getD (.timed [])).pushTimestamp timestampNanos) := by
  have hcount (n : ℕ) : UInt64.ofNat (min (n + 1) (2 ^ 64 - 1)) =
      saturatingAddU64 (.ofNat (min n (2 ^ 64 - 1))) 1 := by
    rw [← UInt64.toNat_inj, toNat_saturatingAddU64, UInt64.toNat_ofNat_of_lt' (by
      change _ < 2 ^ 64; omega), UInt64.toNat_ofNat_of_lt' (by change _ < 2 ^ 64; omega)]
    change _ = min (_ + 1) _
    omega
  cases timestamps with
  | nil => rfl
  | cons first rest =>
    rw [List.cons_append, seriesOf, seriesOf, Option.getD_some, RawSampleSeries.pushTimestamp,
      ← List.cons_append, List.length_append, List.length_singleton, hcount, Option.getD_some]

theorem seriesOf_eq_some_iff {timestamps : List UInt64} {series : RawSampleSeries} :
    seriesOf timestamps = some series ↔ timestamps ≠ [] ∧
      series = ⟨.ofNat (min timestamps.length (2 ^ 64 - 1)), some timestamps⟩ := by
  cases timestamps with
  | nil => simp [seriesOf]
  | cons first rest =>
    rw [seriesOf, Option.some_inj]
    exact ⟨fun h => ⟨List.cons_ne_nil _ _, h.symm⟩, fun h => h.2.symm⟩

namespace Represents

variable {profile : RawProfile} {log : List ThreadSample}

theorem empty {profile : RawProfile} (hseries : profile.stackSeries = ∅)
    (hnames : profile.threadNames = ∅) : Represents profile [] :=
  ⟨fun key => by rw [hseries, Std.ExtHashMap.getElem?_empty]; rfl,
    fun threadId => by rw [hnames, Std.ExtHashMap.getElem?_empty]; rfl⟩

theorem of_eq (h : Represents profile log) {other : RawProfile}
    (hseries : other.stackSeries = profile.stackSeries)
    (hnames : other.threadNames = profile.threadNames) : Represents other log :=
  ⟨fun key => by rw [hseries, h.series key], fun threadId => by rw [hnames, h.names threadId]⟩

theorem record (h : Represents profile log) (sample : ThreadSample) :
    Represents (profile.record sample) (log ++ [sample]) := by
  constructor
  · intro key
    rw [sampledAt_append, sampledAt_singleton]
    unfold RawProfile.record
    dsimp only
    rw [Std.ExtHashMap.getElem?_insert]
    by_cases hkey : sample.key = key
    · subst hkey
      rw [if_pos (by simp), if_pos rfl, seriesOf_push, h.series]
    · rw [if_neg (by simpa using hkey), if_neg hkey, List.append_nil, h.series]
  · intro threadId
    rw [lastName_concat]
    unfold RawProfile.record
    dsimp only
    by_cases hname : sample.threadName = ""
    · rw [if_pos hname, if_neg fun hand => hand.2 hname, h.names]
    · rw [if_neg hname, Std.ExtHashMap.getElem?_insert]
      by_cases hthread : sample.threadId = threadId
      · rw [if_pos (by simpa using hthread), if_pos ⟨hthread, hname⟩]
      · rw [if_neg (by simpa using hthread), if_neg fun hand => hthread hand.1, h.names]

theorem foldl_record (h : Represents profile log) (round : List ThreadSample) :
    Represents (round.foldl RawProfile.record profile) (log ++ round) := by
  induction round generalizing profile log with
  | nil => rwa [List.append_nil]
  | cons sample round ih =>
    rw [List.append_cons]
    exact ih (h.record sample)

theorem observations (h : Represents profile log) (key : StackKey) :
    profile.observations key = (sampledAt log key).map some := by
  unfold RawProfile.observations observationsIn
  rw [h.series]
  cases sampledAt log key <;> rfl

theorem regular (h : Represents profile log) (hstack : ∀ sample ∈ log, sample.stack ≠ [])
    (hlength : log.length < 2 ^ 64) : profile.Regular := by
  constructor
  · intro key series hs
    rw [h.series, seriesOf_eq_some_iff] at hs
    obtain ⟨timestamp, hmem⟩ := List.exists_mem_of_ne_nil _ hs.1
    obtain ⟨sample, hsample, -⟩ := List.mem_map.mp hmem
    obtain ⟨hlog, hkey⟩ := List.mem_filter.mp hsample
    rw [← of_decide_eq_true hkey]
    exact hstack sample hlog
  · intro key series hs timestamps hts
    rw [h.series, seriesOf_eq_some_iff] at hs
    obtain ⟨-, rfl⟩ := hs
    cases hts
    have hle : (sampledAt log key).length ≤ log.length := by
      rw [sampledAt, List.length_map]
      exact List.length_filter_le _ _
    rw [UInt64.toNat_ofNat_of_lt' (by change _ < 2 ^ 64; omega)]
    omega

theorem grows (h : Represents profile log) {later : RawProfile} {more : List ThreadSample}
    (hlater : Represents later (log ++ more)) : later.Grows profile.observations := by
  intro key
  rw [h.observations, hlater.observations, sampledAt_append, List.map_append]
  exact List.prefix_append _ _

end Represents

namespace Access

def perfSamples (event : DrainedEvent) (timestampNanos : UInt64) : List ThreadSample :=
  (event.samples.filter fun sample => sample.stack ≠ []).map fun sample =>
    ⟨(if sample.threadId = 0 then event.configuredTid else sample.threadId).toUInt64, event.name,
      sample.stack, timestampNanos⟩

/-- The samples that an access records. -/
def samples : Access → List ThreadSample
  | refresh _ => []
  | ptraceRound round _ => round
  | machRound round _ => round.filter fun sample => sample.stack ≠ []
  | drain events timestampNanos _ => events.flatMap fun event => perfSamples event timestampNanos
  | finish _ _ => []

theorem foldl_nonempty (round : List ThreadSample) (current : RawProfile) :
    round.foldl (fun current sample =>
        if sample.stack = [] then current else current.record sample) current =
      (round.filter fun sample => sample.stack ≠ []).foldl RawProfile.record current := by
  induction round generalizing current with
  | nil => rfl
  | cons sample round ih =>
    rw [List.foldl_cons, List.filter_cons]
    by_cases h : sample.stack = []
    · rw [if_pos h, if_neg (by simpa using h), ih]
    · rw [if_neg h, if_pos (by simpa using h), List.foldl_cons, ih]

theorem foldl_recordPerf (event : DrainedEvent) (timestampNanos : UInt64) (current : RawProfile) :
    event.samples.foldl (recordPerf event timestampNanos) current =
      (perfSamples event timestampNanos).foldl RawProfile.record current := by
  unfold perfSamples
  rw [List.foldl_map]
  induction event.samples generalizing current with
  | nil => rfl
  | cons sample rest ih =>
    rw [List.foldl_cons, List.filter_cons, ih]
    by_cases h : sample.stack = []
    · rw [if_neg (by simpa using h), recordPerf, if_pos h]
    · rw [if_pos (by simpa using h), List.foldl_cons, recordPerf, if_neg h]

theorem apply_eq (current : RawProfile) (access : Access) :
    (apply current access).stackSeries =
      (access.samples.foldl RawProfile.record current).stackSeries ∧
    (apply current access).threadNames =
      (access.samples.foldl RawProfile.record current).threadNames := by
  cases access with
  | refresh images => exact ⟨rfl, rfl⟩
  | ptraceRound round now => exact ⟨rfl, rfl⟩
  | machRound round now =>
    have hround := foldl_nonempty round current
    constructor
    · exact congrArg (·.stackSeries) hround
    · exact congrArg (·.threadNames) hround
  | drain events timestampNanos now =>
    have hdrain : events.foldl (fun current event =>
          event.samples.foldl (recordPerf event timestampNanos) current) current =
        (events.flatMap fun event => perfSamples event timestampNanos).foldl
          RawProfile.record current := by
      rw [List.foldl_flatMap]
      simp only [foldl_recordPerf]
    constructor
    · exact congrArg (·.stackSeries) hdrain
    · exact congrArg (·.threadNames) hdrain
  | finish images now => exact ⟨rfl, rfl⟩

end Access

namespace Represents

variable {profile : RawProfile} {log : List ThreadSample}

theorem apply (h : Represents profile log) (access : Access) :
    Represents (access.apply profile) (log ++ access.samples) :=
  (h.foldl_record access.samples).of_eq (Access.apply_eq profile access).1
    (Access.apply_eq profile access).2

theorem run (h : Represents profile log) (accesses : List Access) :
    Represents (accesses.foldl Access.apply profile)
      (log ++ accesses.flatMap Access.samples) := by
  induction accesses generalizing profile log with
  | nil => rwa [List.flatMap_nil, List.append_nil]
  | cons access accesses ih =>
    rw [List.foldl_cons, List.flatMap_cons, ← List.append_assoc]
    exact ih (h.apply access)

end Represents

theorem sampleThread_ne_nil {order : Order} {memory : ℕ → TargetMemory} {clock : ℕ}
    {registers : Option (UInt64 × UInt64)} {stack : List UInt64}
    (h : Linux.sampleThread order memory clock registers = some stack) : stack ≠ [] := by
  obtain ⟨registers, -, hstack⟩ := Option.bind_eq_some_iff.mp h
  obtain ⟨frames, -, -, hwalk⟩ := walkFrames_callChain order id memory clock registers.2
    [registers.1]
  rw [← Option.some.inj hstack]
  intro hnil
  rw [Linux.walkFramePointers, hwalk] at hnil
  exact List.cons_ne_nil _ _ hnil

theorem LinuxSampler.sampleOnce_ne_nil (s : LinuxSampler) (order : Order) (target : LinuxTarget)
    (startTime : ℕ) : ∀ sample ∈ s.sampleOnce order target startTime, sample.stack ≠ [] := by
  intro sample hsample
  unfold LinuxSampler.sampleOnce at hsample
  cases hthreads : s.selectedThreads target.files none with
  | error e =>
    rw [hthreads] at hsample
    cases hsample
  | ok threads =>
    rw [hthreads] at hsample
    obtain ⟨thread, -, hthread⟩ := List.mem_filterMap.mp hsample
    obtain ⟨stack, hstack, rfl⟩ := Option.map_eq_some_iff.mp hthread
    exact sampleThread_ne_nil hstack

def loopOf {τ σ : Type} (breaks : τ → Bool) (act : τ → σ → List Access × σ)
    (last : List Access) : List τ → σ → LoopRun
  | [], _ => ⟨[], false⟩
  | turn :: turns, state =>
    if breaks turn then ⟨last, true⟩
    else
      let made := act turn state
      let rest := loopOf breaks act last turns made.2
      ⟨made.1 ++ rest.accesses, rest.ended⟩

theorem loopOf_spec {τ σ : Type} {breaks : τ → Bool} {act : τ → σ → List Access × σ}
    (sampled : τ → List ThreadSample)
    (hact : ∀ turn state, (act turn state).1.flatMap Access.samples = sampled turn)
    (last : List Access) (turns : List τ) (state : σ) :
    (loopOf breaks act last turns state).accesses.flatMap Access.samples =
        (turns.takeWhile fun turn => !breaks turn).flatMap sampled ++
          (if turns.any breaks then last.flatMap Access.samples else []) ∧
      (loopOf breaks act last turns state).ended = turns.any breaks := by
  induction turns generalizing state with
  | nil => exact ⟨rfl, rfl⟩
  | cons turn turns ih =>
    rw [loopOf, List.takeWhile_cons, List.any_cons]
    cases hbreaks : breaks turn with
    | true => exact ⟨rfl, rfl⟩
    | false =>
      obtain ⟨hsamples, hended⟩ := ih (act turn state).2
      refine ⟨?_, hended⟩
      simp only [Bool.false_eq_true, if_false, Bool.not_false, if_true, List.flatMap_append,
        List.flatMap_cons, hact, hsamples, Bool.false_or, List.append_assoc]

/-- What one of the loops finds, turn by turn. -/
inductive PlatformLoop where
  | ptrace (s : LinuxSampler) (order : Order) (nextImageRefresh : ℕ)
      (turns : List (Turn × ImageRefresh × LinuxTarget))
  | perf (last : List DrainedEvent × ℕ × ℕ) (turns : List (Turn × List DrainedEvent × ℕ))
  | mach (s : MacosSampler) (skipThread : Option UInt32) (nextImageRefresh : ℕ)
      (turns : List (Turn × ImageRefresh × Option (List MachThread)))

namespace PlatformLoop

variable (deadline : Option ℕ) (startTime : ℕ) (final : List LoadedImage × ℕ)

def run : PlatformLoop → LoopRun
  | ptrace s order nextImageRefresh turns =>
    s.runPtraceSamplingLoop order deadline startTime final turns nextImageRefresh
  | perf last turns => LinuxSampler.runPerfSamplingLoop deadline startTime last final turns
  | mach s skipThread nextImageRefresh turns =>
    s.runSamplingLoop skipThread deadline startTime final turns nextImageRefresh

def perfBreaks (turn : Turn) : Bool := turn.stopped || deadline.any (· ≤ turn.checkedAt)

/-- Whether one of the turns ends the loop. -/
def ends : PlatformLoop → Bool
  | ptrace _ _ _ turns => turns.any fun turn => turn.1.breaks deadline
  | perf _ turns => turns.any fun turn => perfBreaks deadline turn.1
  | mach _ _ _ turns => turns.any fun turn => turn.1.breaks deadline

def drainSamples (events : List DrainedEvent) (drainedAt : ℕ) : List ThreadSample :=
  events.flatMap fun event => Access.perfSamples event (nanosSince drainedAt startTime)

/-- The samples of the turns before the first at which the loop ends. The rings are drained once
more behind it. -/
def samples : PlatformLoop → List ThreadSample
  | ptrace s order _ turns =>
    (turns.takeWhile fun turn => !turn.1.breaks deadline).flatMap fun turn =>
      s.sampleOnce order turn.2.2 startTime
  | perf last turns =>
    ((turns.takeWhile fun turn => !perfBreaks deadline turn.1).flatMap fun turn =>
      drainSamples startTime turn.2.1 turn.2.2) ++
    if turns.any fun turn => perfBreaks deadline turn.1 then
      drainSamples startTime last.1 last.2.1 else []
  | mach s skipThread _ turns =>
    (turns.takeWhile fun turn => !turn.1.breaks deadline).flatMap fun turn =>
      (s.sampleOnce skipThread startTime turn.2.2).filter fun sample => sample.stack ≠ []

variable {deadline startTime final}

theorem ptrace_eq_loopOf (s : LinuxSampler) (order : Order)
    (turns : List (Turn × ImageRefresh × LinuxTarget)) (nextImageRefresh : ℕ) :
    s.runPtraceSamplingLoop order deadline startTime final turns nextImageRefresh =
      loopOf (fun turn => turn.1.breaks deadline) (fun turn next =>
        ((LinuxSampler.refreshImages turn.2.1 next).1 ++
          [.ptraceRound (s.sampleOnce order turn.2.2 startTime) turn.1.endedAt],
          (LinuxSampler.refreshImages turn.2.1 next).2)) [.finish final.1 final.2] turns
        nextImageRefresh := by
  induction turns generalizing nextImageRefresh with
  | nil => rfl
  | cons turn turns ih =>
    rw [LinuxSampler.runPtraceSamplingLoop, loopOf]
    simp only [ih, List.append_assoc, List.singleton_append]

theorem perf_eq_loopOf (last : List DrainedEvent × ℕ × ℕ)
    (turns : List (Turn × List DrainedEvent × ℕ)) :
    LinuxSampler.runPerfSamplingLoop deadline startTime last final turns =
      loopOf (fun turn => perfBreaks deadline turn.1) (fun turn _ =>
        ([.drain turn.2.1 (nanosSince turn.2.2 startTime) turn.1.endedAt], ()))
        [.drain last.1 (nanosSince last.2.1 startTime) last.2.2, .finish final.1 final.2] turns
        () := by
  induction turns with
  | nil => rfl
  | cons turn turns ih =>
    rw [LinuxSampler.runPerfSamplingLoop, loopOf, ih]
    rfl

theorem mach_eq_loopOf (s : MacosSampler) (skipThread : Option UInt32)
    (turns : List (Turn × ImageRefresh × Option (List MachThread))) (nextImageRefresh : ℕ) :
    s.runSamplingLoop skipThread deadline startTime final turns nextImageRefresh =
      loopOf (fun turn => turn.1.breaks deadline) (fun turn next =>
        ((MacosSampler.refreshImages turn.2.1 next).1 ++
          [.machRound (s.sampleOnce skipThread startTime turn.2.2) turn.1.endedAt],
          (MacosSampler.refreshImages turn.2.1 next).2)) [.finish final.1 final.2] turns
        nextImageRefresh := by
  induction turns generalizing nextImageRefresh with
  | nil => rfl
  | cons turn turns ih =>
    rw [MacosSampler.runSamplingLoop, loopOf]
    simp only [ih, List.append_assoc, List.singleton_append]

theorem samples_refresh (refresh : ImageRefresh) (nextImageRefresh : ℕ) :
    (LinuxSampler.refreshImages refresh nextImageRefresh).1.flatMap Access.samples = [] ∧
      (MacosSampler.refreshImages refresh nextImageRefresh).1.flatMap Access.samples = [] := by
  unfold LinuxSampler.refreshImages MacosSampler.refreshImages
  split_ifs
  · refine ⟨?_, rfl⟩
    cases refresh.images with
    | error e => rfl
    | ok images =>
      dsimp only
      split_ifs <;> rfl
  · exact ⟨rfl, rfl⟩

theorem run_spec (loop : PlatformLoop) :
    (loop.run deadline startTime final).accesses.flatMap Access.samples =
        loop.samples deadline startTime ∧
      (loop.run deadline startTime final).ended = loop.ends deadline := by
  cases loop with
  | ptrace s order nextImageRefresh turns =>
    rw [run, ptrace_eq_loopOf]
    refine (loopOf_spec (fun turn => s.sampleOnce order turn.2.2 startTime) (fun turn next => ?_) _
      turns nextImageRefresh).imp_left fun hsamples => hsamples.trans ?_
    · rw [List.flatMap_append, (samples_refresh turn.2.1 next).1]
      exact List.append_nil _
    · split_ifs <;> exact List.append_nil _
  | perf last turns =>
    rw [run, perf_eq_loopOf]
    refine (loopOf_spec (fun turn => drainSamples startTime turn.2.1 turn.2.2)
      (fun _ _ => List.append_nil _) _ turns ()).imp_left fun hsamples => hsamples.trans ?_
    rw [samples]
    split_ifs
    · exact congrArg _ (List.append_nil _)
    · rfl
  | mach s skipThread nextImageRefresh turns =>
    rw [run, mach_eq_loopOf]
    refine (loopOf_spec (fun turn => (s.sampleOnce skipThread startTime turn.2.2).filter
      fun sample => sample.stack ≠ []) (fun turn next => ?_) _
      turns nextImageRefresh).imp_left fun hsamples => hsamples.trans ?_
    · rw [List.flatMap_append, (samples_refresh turn.2.1 next).2]
      exact List.append_nil _
    · split_ifs <;> exact List.append_nil _

theorem drainSamples_ne_nil (startTime : ℕ) (events : List DrainedEvent) (drainedAt : ℕ) :
    ∀ sample ∈ drainSamples startTime events drainedAt, sample.stack ≠ [] := by
  intro sample hsample
  obtain ⟨event, -, hevent⟩ := List.mem_flatMap.mp hsample
  obtain ⟨perf, hperf, rfl⟩ := List.mem_map.mp hevent
  exact of_decide_eq_true (List.mem_filter.mp hperf).2

theorem samples_ne_nil (loop : PlatformLoop) :
    ∀ sample ∈ loop.samples deadline startTime, sample.stack ≠ [] := by
  intro sample hsample
  cases loop with
  | ptrace s order nextImageRefresh turns =>
    obtain ⟨turn, -, hturn⟩ := List.mem_flatMap.mp hsample
    exact s.sampleOnce_ne_nil order turn.2.2 startTime sample hturn
  | perf last turns =>
    rcases List.mem_append.mp hsample with hturns | hlast
    · obtain ⟨turn, -, hturn⟩ := List.mem_flatMap.mp hturns
      exact drainSamples_ne_nil startTime _ _ sample hturn
    · split_ifs at hlast
      · exact drainSamples_ne_nil startTime _ _ sample hlast
      · cases hlast
  | mach s skipThread nextImageRefresh turns =>
    obtain ⟨turn, -, hturn⟩ := List.mem_flatMap.mp hsample
    exact of_decide_eq_true (List.mem_filter.mp hturn).2

theorem result_represents (loop : PlatformLoop) {live profile : RawProfile}
    (hlive : Represents live [])
    (hprofile : (loop.run deadline startTime final).result live = some profile) :
    Represents profile (loop.samples deadline startTime) := by
  unfold LoopRun.result at hprofile
  split_ifs at hprofile
  have hall := hlive.run (loop.run deadline startTime final).accesses
  rw [List.nil_append, (@run_spec deadline startTime final loop).1] at hall
  rw [← Option.some.inj hprofile]
  exact hall

/-- At any access the shared profile represents the samples taken so far, it is regular, and what
is seen of it later extends it. A loop ends when one of its turns says so, and then returns what
represents all of its samples. -/
theorem shared_profile (loop : PlatformLoop) {live : RawProfile} (hlive : Represents live [])
    (hlength : (loop.samples deadline startTime).length < 2 ^ 64) :
    (∀ before middle after,
      (loop.run deadline startTime final).accesses = before ++ middle ++ after →
      Represents (before.foldl Access.apply live) (before.flatMap Access.samples) ∧
        (before.foldl Access.apply live).Regular ∧
        ((before ++ middle).foldl Access.apply live).Grows
          (before.foldl Access.apply live).observations) ∧
      (loop.run deadline startTime final).ended = loop.ends deadline ∧
      ∀ profile ∈ (loop.run deadline startTime final).result live,
        Represents profile (loop.samples deadline startTime) := by
  obtain ⟨hsamples, hended⟩ := @run_spec deadline startTime final loop
  refine ⟨fun before middle after haccesses => ?_, hended,
    fun _ hprofile => loop.result_represents hlive (Option.mem_def.mp hprofile)⟩
  have hbefore := hlive.run before
  have hlater := hlive.run (before ++ middle)
  rw [List.nil_append] at hbefore
  rw [List.nil_append, List.flatMap_append] at hlater
  have hsampled : before.flatMap Access.samples <+: loop.samples deadline startTime := by
    rw [← hsamples, haccesses, List.append_assoc, List.flatMap_append]
    exact List.prefix_append _ _
  refine ⟨hbefore, hbefore.regular (fun sample hsample => ?_) ?_, hbefore.grows hlater⟩
  · exact samples_ne_nil loop sample (hsampled.subset hsample)
  · exact lt_of_le_of_lt hsampled.length_le hlength

end PlatformLoop

def emptyLive : RawProfile := ⟨∅, ∅, 0, 0, [⟨0x1000, "app"⟩]⟩

def firstEvent : DrainedEvent := ⟨7, "worker", [⟨7, [0x1000]⟩, ⟨7, [0x1020, 0x1000]⟩]⟩

def secondEvent : DrainedEvent := ⟨7, "worker", [⟨7, [0x1000]⟩]⟩

/-- The first turn drains two stacks, the second one of them again, and the third ends the loop. -/
def appLoop : PlatformLoop :=
  .perf ([], 20, 21) [(⟨false, false, 1, 6⟩, [firstEvent], 5),
    (⟨false, false, 11, 13⟩, [secondEvent], 12), (⟨true, false, 14, 15⟩, [], 14)]

def firstDrain : Access := .drain [firstEvent] 5 6

def secondDrain : Access := .drain [secondEvent] 12 13

theorem appLoop_samples : appLoop.samples none 0 = [⟨7, "worker", [0x1000], 5⟩,
    ⟨7, "worker", [0x1020, 0x1000], 5⟩, ⟨7, "worker", [0x1000], 12⟩] := by decide

theorem appLoop_accesses : (appLoop.run none 0 ([], 30)).accesses =
    [firstDrain, secondDrain, .drain [] 20 21, .finish [] 30] := by decide

theorem shared_profile_app :
    (Access.apply emptyLive firstDrain).Regular ∧
      Represents (Access.apply emptyLive firstDrain)
        [⟨7, "worker", [0x1000], 5⟩, ⟨7, "worker", [0x1020, 0x1000], 5⟩] ∧
      (appLoop.run none 0 ([], 30)).ended = true ∧
      ∀ profile ∈ (appLoop.run none 0 ([], 30)).result emptyLive,
        profile.stackSeries[((7 : UInt64), [(0x1000 : UInt64)])]? = some ⟨2, some [5, 12]⟩ ∧
        profile.stackSeries[((7 : UInt64), [(0x1020 : UInt64), 0x1000])]? =
          some ⟨1, some [5]⟩ := by
  obtain ⟨hshared, hended, hresult⟩ := @PlatformLoop.shared_profile none 0 ([], 30) appLoop
    emptyLive (.empty rfl rfl) (by rw [appLoop_samples]; decide)
  obtain ⟨hfirst, hregular, -⟩ := hshared [firstDrain] [] _ appLoop_accesses
  refine ⟨hregular, hfirst, hended.trans (by decide), fun profile hprofile => ?_⟩
  have hlog := hresult profile hprofile
  rw [appLoop_samples] at hlog
  exact ⟨hlog.series _, hlog.series _⟩

end PProfessor.Capture
