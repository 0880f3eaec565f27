import PProfessor.CheckedArith
import PProfessor.FrameWalk
import PProfessor.PerfRing
import PProfessor.ThreadSelection

set_option autoImplicit false

/-!
# The sampling loops

`run_sampling_loop` of `src/sampler/linux.rs` and of `src/sampler/macos.rs`, and what they call.
The profile that a loop shares with the other threads changes only under its lock: a loop is
modelled by its accesses, one for each time it takes the lock. What the loop finds outside (the
clock, the stop flag, the target) is the argument of a turn. Sleeping is left out.
-/
namespace PProfessor.Capture
open ByteOrder CheckedArith Perf

/-- A single stack sample with the thread identity that produced it. -/
structure ThreadSample where
  threadId : UInt64
  threadName : String
  stack : List UInt64
  timestampNanos : UInt64
  deriving DecidableEq, Repr

def ThreadSample.key (sample : ThreadSample) : StackKey := (sample.threadId, sample.stack)

namespace RawSampleSeries

def timed (timestampsNanos : List UInt64) : RawSampleSeries :=
  ⟨.ofNat timestampsNanos.length, some timestampsNanos⟩

def pushTimestamp (series : RawSampleSeries) (timestampNanos : UInt64) : RawSampleSeries :=
  ⟨saturatingAddU64 series.count 1, some (series.timestampsNanos.getD [] ++ [timestampNanos])⟩

end RawSampleSeries

def nanosSince (now startTime : ℕ) : UInt64 := .ofNat (now - startTime)

namespace RawProfile

def record (current : RawProfile) (sample : ThreadSample) : RawProfile :=
  let series := ((current.stackSeries[sample.key]?).getD (.timed [])).pushTimestamp
    sample.timestampNanos
  { current with
    stackSeries := current.stackSeries.insert sample.key series
    threadNames :=
      if sample.threadName = "" then current.threadNames
      else current.threadNames.insert sample.threadId sample.threadName }

end RawProfile

/-- An empty refresh keeps the images. -/
def preferLoadedImages (existing refreshed : List LoadedImage) : List LoadedImage :=
  if refreshed = [] then existing else refreshed

structure DrainedEvent where
  configuredTid : UInt32
  name : String
  samples : List PerfSample
  deriving DecidableEq, Repr

/-- What a loop does to the shared profile under its lock. -/
inductive Access where
  | refresh (images : List LoadedImage)
  | ptraceRound (round : List ThreadSample) (now : ℕ)
  | machRound (round : List ThreadSample) (now : ℕ)
  | drain (events : List DrainedEvent) (timestampNanos : UInt64) (now : ℕ)
  | finish (images : List LoadedImage) (now : ℕ)
  deriving DecidableEq, Repr

namespace Access

def recordPerf (event : DrainedEvent) (timestampNanos : UInt64) (current : RawProfile)
    (sample : PerfSample) : RawProfile :=
  let tid := if sample.threadId = 0 then event.configuredTid else sample.threadId
  if sample.stack = [] then current
  else current.record ⟨tid.toUInt64, event.name, sample.stack, timestampNanos⟩

def apply (current : RawProfile) : Access → RawProfile
  | refresh images => { current with images := preferLoadedImages current.images images }
  | ptraceRound round now => { round.foldl RawProfile.record current with endTime := now }
  | machRound round now =>
    { round.foldl (fun current sample =>
        if sample.stack = [] then current else current.record sample) current with endTime := now }
  | drain events timestampNanos now =>
    { events.foldl (fun current event =>
        event.samples.foldl (recordPerf event timestampNanos) current) current with endTime := now }
  | finish images now =>
    { current with endTime := now, images := preferLoadedImages current.images images }

end Access

/-- What a turn finds of the target on Linux: the registers of a thread are `none` where ptrace
fails. -/
structure LinuxTarget where
  files : ThreadFiles
  registers : UInt32 → Option (UInt64 × UInt64)
  memory : UInt32 → ℕ → TargetMemory
  now : UInt32 → ℕ

def LinuxSampler.sampleOnce (s : LinuxSampler) (order : Order) (target : LinuxTarget)
    (startTime : ℕ) : List ThreadSample :=
  match s.selectedThreads target.files none with
  | .error _ => []
  | .ok threads => threads.filterMap fun (tid, name) =>
    (Linux.sampleThread order (target.memory tid) 0 (target.registers tid)).map fun stack =>
      ⟨tid.toUInt64, name, stack, nanosSince (target.now tid) startTime⟩

/-- A thread in the array of `task_threads`. The state is `none` where `thread_get_state` fails. -/
structure MachThread where
  port : UInt32
  suspends : Bool
  /-- The id of `thread_info`, where that succeeds. -/
  info : Option UInt64
  /-- Names are only readable in-process. -/
  name : String
  state : Option (UInt64 × UInt64)
  memory : ℕ → TargetMemory
  now : ℕ

/-- The fallback is the port number. -/
def MachThread.identity (thread : MachThread) : UInt64 :=
  match thread.info with
  | some threadId => if threadId ≠ 0 then threadId else thread.port.toUInt64
  | none => thread.port.toUInt64

structure MacosSampler where
  arch : Macos.Arch
  executablePath : Option String
  threadFilter : ThreadFilter
  deriving DecidableEq, Repr

namespace MacosSampler

def threadMatchesFilter (s : MacosSampler) (port : UInt32) (threadId : UInt64) (name : String)
    (index : ℕ) : Bool :=
  match s.threadFilter with
  | .all => true
  | .mainThread => index = 0
  | .byName expected => expected.toList <:+: name.toList
  | .byId expected => threadId = expected
  | .byMachThread expected => port = expected

def sampleStep (s : MacosSampler) (skipThread : Option UInt32) (startTime : ℕ)
    (state : List ThreadSample × ℕ) (thread : MachThread) : List ThreadSample × ℕ :=
  if skipThread = some thread.port then state
  else if thread.suspends ∧
      s.threadMatchesFilter thread.port thread.identity thread.name state.2 then
    match Macos.readThreadStack s.arch thread.memory 0 thread.state with
    | some stack => (state.1 ++ [⟨thread.identity, thread.name, stack,
        nanosSince thread.now startTime⟩], state.2 + 1)
    | none => (state.1, state.2 + 1)
  else (state.1, state.2 + 1)

/-- The threads are `none` where `task_threads` fails. -/
def sampleOnce (s : MacosSampler) (skipThread : Option UInt32) (startTime : ℕ)
    (threads : Option (List MachThread)) : List ThreadSample :=
  match threads with
  | none => []
  | some threads => (threads.foldl (s.sampleStep skipThread startTime) ([], 0)).1

end MacosSampler

/-- What every turn reads first, and the clock at its end. The check of the child is `false` where
there is none. -/
structure Turn where
  stopped : Bool
  childExited : Bool
  checkedAt : ℕ
  endedAt : ℕ

def Turn.breaks (turn : Turn) (deadline : Option ℕ) : Bool :=
  turn.stopped || turn.childExited || deadline.any (· ≤ turn.checkedAt)

structure ImageRefresh where
  refreshAt : ℕ
  images : Except String (List LoadedImage)
  nextImageRefresh : ℕ

structure LoopRun where
  accesses : List Access
  ended : Bool
  deriving DecidableEq, Repr

def LoopRun.result (run : LoopRun) (live : RawProfile) : Option RawProfile :=
  if run.ended then some (run.accesses.foldl Access.apply live) else none

namespace LinuxSampler

/-- A refresh that is due stores images unless there are none. -/
def refreshImages (refresh : ImageRefresh) (nextImageRefresh : ℕ) : List Access × ℕ :=
  if nextImageRefresh ≤ refresh.refreshAt then
    match refresh.images with
    | .ok images =>
      (if images ≠ [] then [.refresh images] else [], refresh.nextImageRefresh)
    | .error _ => ([], refresh.nextImageRefresh)
  else ([], nextImageRefresh)

/-- `run_ptrace_sampling_loop`, for as many turns as are given. `final` are the images that are
read once the loop has ended, and the clock then. -/
def runPtraceSamplingLoop (s : LinuxSampler) (order : Order) (deadline : Option ℕ) (startTime : ℕ)
    (final : List LoadedImage × ℕ) : List (Turn × ImageRefresh × LinuxTarget) → ℕ → LoopRun
  | [], _ => ⟨[], false⟩
  | (turn, refresh, target) :: turns, nextImageRefresh =>
    if turn.breaks deadline then ⟨[.finish final.1 final.2], true⟩
    else
      let refreshed := refreshImages refresh nextImageRefresh
      let rest := runPtraceSamplingLoop s order deadline startTime final turns refreshed.2
      ⟨refreshed.1 ++ .ptraceRound (s.sampleOnce order target startTime) turn.endedAt ::
        rest.accesses, rest.ended⟩

/-- `run_perf_sampling_loop`, from where the events have been enabled: `drained` is what a drain
finds, with its clock. No child is checked, and the rings are drained once more at the end. -/
def runPerfSamplingLoop (deadline : Option ℕ) (startTime : ℕ) (last : List DrainedEvent × ℕ × ℕ)
    (final : List LoadedImage × ℕ) : List (Turn × List DrainedEvent × ℕ) → LoopRun
  | [] => ⟨[], false⟩
  | (turn, drained, drainedAt) :: turns =>
    if turn.stopped || deadline.any (· ≤ turn.checkedAt) then
      ⟨[.drain last.1 (nanosSince last.2.1 startTime) last.2.2, .finish final.1 final.2], true⟩
    else
      let rest := runPerfSamplingLoop deadline startTime last final turns
      ⟨.drain drained (nanosSince drainedAt startTime) turn.endedAt :: rest.accesses, rest.ended⟩

end LinuxSampler

namespace MacosSampler

/-- Any refresh that is due prefers what has been loaded. -/
def refreshImages (refresh : ImageRefresh) (nextImageRefresh : ℕ) : List Access × ℕ :=
  if nextImageRefresh ≤ refresh.refreshAt then
    ([.refresh (refresh.images.toOption.getD [])], refresh.nextImageRefresh)
  else ([], nextImageRefresh)

def runSamplingLoop (s : MacosSampler) (skipThread : Option UInt32) (deadline : Option ℕ)
    (startTime : ℕ) (final : List LoadedImage × ℕ) :
    List (Turn × ImageRefresh × Option (List MachThread)) → ℕ → LoopRun
  | [], _ => ⟨[], false⟩
  | (turn, refresh, threads) :: turns, nextImageRefresh =>
    if turn.breaks deadline then ⟨[.finish final.1 final.2], true⟩
    else
      let refreshed := refreshImages refresh nextImageRefresh
      let rest := runSamplingLoop s skipThread deadline startTime final turns refreshed.2
      ⟨refreshed.1 ++ .machRound (s.sampleOnce skipThread startTime threads) turn.endedAt ::
        rest.accesses, rest.ended⟩

end MacosSampler

end PProfessor.Capture
