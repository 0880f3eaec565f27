import PProfessor.PprofModel

set_option autoImplicit false

/-!
# The last checkpoint on macOS

`run_macos` of `src/heap/capture.rs` and the finalizer of `src/heap/finalizer.c`, which it loads
into its target. The target tells over a socket that it has started and that it ends, and at its end
waits for the profiler, which takes a last snapshot first. Both sides go on at any time; forked
children have no part in it.
-/
namespace PProfessor.Handshake
open Pprof

/-- Where a thread of the target stands: in `finish` from `sending` on. -/
inductive ThreadPc where
  | running
  | sending
  | waiting
  | leaving
  deriving DecidableEq, Repr

structure Target (ThreadId History : Type) where
  history : History
  begun : Bool
  channel : Bool
  finishing : Bool
  pc : ThreadId → ThreadPc
  exited : Bool

inductive Signal where
  /-- `S` -/
  | started
  | finished
  deriving DecidableEq, Repr

/-- What `run_macos` returns. -/
inductive Outcome where
  | failed
  | final (p : PprofProfile)
  | stopped (p : PprofProfile)
  | exitedEarly (p : PprofProfile)

inductive ProfilerPc where
  | polling
  | finalizing
  | acking (p : Option PprofProfile)
  | draining (p : PprofProfile)
  | checking
  | deciding
  | ended (outcome : Outcome)

structure Profiler where
  pc : ProfilerPc
  ready : Bool
  last : Option PprofProfile
  checkpoints : List PprofProfile

def Profiler.Ended (profiler : Profiler) : Prop := ∃ outcome, profiler.pc = .ended outcome

/-- The two processes and what is under way between them. The last five fields only remember what
has happened: what was sent and received, how many replies were written, the target as the last
snapshot found it, and how often it was replaced. -/
structure System (ThreadId History : Type) where
  target : Target ThreadId History
  profiler : Profiler
  toProfiler : List Signal
  replies : ℕ
  sent : List Signal
  received : List Signal
  acked : ℕ
  taken : Option (Target ThreadId History)
  execs : ℕ

/-- The comment on a checkpoint that is not the last one. -/
def addComment (status : String) (p : PprofProfile) : PprofProfile :=
  let (id, strings) := p.strings.intern ("Target exited with " ++ status ++
    " before finalization; this is the last successfully collected checkpoint.")
  { p with strings := strings, comments := p.comments ++ [id] }

section
variable {ThreadId History : Type} [DecidableEq ThreadId]

def Target.goto (target : Target ThreadId History) (t : ThreadId) (pc : ThreadPc) :
    Target ThreadId History :=
  { target with pc := Function.update target.pc t pc }

namespace System

def goto (s : System ThreadId History) (t : ThreadId) (pc : ThreadPc) : System ThreadId History :=
  { s with target := s.target.goto t pc }

omit [DecidableEq ThreadId] in
def send (s : System ThreadId History) (signal : Signal) : System ThreadId History :=
  { s with toProfiler := s.toProfiler ++ [signal], sent := s.sent ++ [signal] }

omit [DecidableEq ThreadId] in
def proceed (s : System ThreadId History) (pc : ProfilerPc) : System ThreadId History :=
  { s with profiler := { s.profiler with pc := pc } }

omit [DecidableEq ThreadId] in
def checkpoint (s : System ThreadId History) (p : PprofProfile) : System ThreadId History :=
  { s with profiler := { s.profiler with checkpoints := s.profiler.checkpoints ++ [p] } }

inductive TargetStep : System ThreadId History → System ThreadId History → Prop where
  | start {s : System ThreadId History} (t : ThreadId) :
      s.target.exited = false → s.target.pc t = .running → s.target.begun = false →
      s.target.channel = true →
      TargetStep s ({ s with target := { s.target with begun := true } }.send Signal.started)
  | startUnheard {s : System ThreadId History} (t : ThreadId) :
      s.target.exited = false → s.target.pc t = .running → s.target.begun = false →
      s.target.channel = false →
      TargetStep s { s with target := { s.target with begun := true } }
  | work {s : System ThreadId History} (t : ThreadId) (history : History) :
      s.target.exited = false → s.target.pc t = .running →
      TargetStep s { s with target := { s.target with history := history } }
  /-- The first thread that enters `finish`. -/
  | finish {s : System ThreadId History} (t : ThreadId) :
      s.target.exited = false → s.target.pc t = .running → s.target.begun = true →
      s.target.finishing = false →
      TargetStep s { s with target := { s.target with finishing := true }.goto t .sending }
  | finishAgain {s : System ThreadId History} (t : ThreadId) :
      s.target.exited = false → s.target.pc t = .running →
      s.target.begun = false ∨ s.target.finishing = true → TargetStep s (s.goto t .leaving)
  | send {s : System ThreadId History} (t : ThreadId) :
      s.target.exited = false → s.target.pc t = .sending → s.target.channel = true →
      ¬s.profiler.Ended → TargetStep s ((s.send Signal.finished).goto t .waiting)
  | sendFails {s : System ThreadId History} (t : ThreadId) :
      s.target.exited = false → s.target.pc t = .sending →
      s.target.channel = false ∨ s.profiler.Ended → TargetStep s (s.goto t .leaving)
  | released {s : System ThreadId History} (t : ThreadId) (replies : ℕ) :
      s.target.exited = false → s.target.pc t = .waiting → s.replies = replies + 1 →
      TargetStep s { s with
        target := { s.target with channel := false }.goto t .leaving
        replies := replies }
  | abandoned {s : System ThreadId History} (t : ThreadId) :
      s.target.exited = false → s.target.pc t = .waiting → s.replies = 0 → s.profiler.Ended →
      TargetStep s { s with target := { s.target with channel := false }.goto t .leaving }
  | exit {s : System ThreadId History} (t : ThreadId) :
      s.target.exited = false → s.target.pc t = .leaving →
      TargetStep s { s with target := { s.target with exited := true } }
  | killed {s : System ThreadId History} :
      s.target.exited = false → TargetStep s { s with target := { s.target with exited := true } }
  /-- The process goes on with another program, which loads the finalizer again. -/
  | exec {s : System ThreadId History} (history : History) :
      s.target.exited = false →
      TargetStep s { s with
        target := { s.target with
          history := history
          begun := false
          finishing := false
          pc := fun _ => .running }
        execs := s.execs + 1 }

/-- One step of the profiler. `Yields history p` is what `malloc_history` and the conversion may
make of a process that has the history; both may fail. -/
inductive ProfilerStep (Yields : History → PprofProfile → Prop) :
    System ThreadId History → System ThreadId History → Prop where
  | readStarted {s : System ThreadId History} (rest : List Signal) :
      s.profiler.pc = .polling → s.toProfiler = .started :: rest → s.profiler.ready = false →
      ProfilerStep Yields s { s with
        toProfiler := rest
        received := s.received ++ [Signal.started]
        profiler := { s.profiler with ready := true, pc := .checking } }
  | readStartedAgain {s : System ThreadId History} (rest : List Signal) :
      s.profiler.pc = .polling → s.toProfiler = .started :: rest → s.profiler.ready = true →
      ProfilerStep Yields s ({ s with
        toProfiler := rest
        received := s.received ++ [Signal.started] }.proceed (.ended .failed))
  | readFinished {s : System ThreadId History} (rest : List Signal) :
      s.profiler.pc = .polling → s.toProfiler = .finished :: rest →
      ProfilerStep Yields s ({ s with
        toProfiler := rest
        received := s.received ++ [Signal.finished] }.proceed .finalizing)
  | readNothing {s : System ThreadId History} :
      s.profiler.pc = .polling → ProfilerStep Yields s (s.proceed .checking)
  | readFails {s : System ThreadId History} :
      s.profiler.pc = .polling → ProfilerStep Yields s (s.proceed (.ended .failed))
  | snapshotFinal {s : System ThreadId History} (p : PprofProfile) :
      s.profiler.pc = .finalizing → s.target.exited = false → Yields s.target.history p →
      ProfilerStep Yields s ({ s with taken := some s.target }.proceed (.acking (some p)))
  | snapshotFinalFails {s : System ThreadId History} :
      s.profiler.pc = .finalizing → ProfilerStep Yields s (s.proceed (.acking none))
  | ack {s : System ThreadId History} (p : PprofProfile) :
      s.profiler.pc = .acking (some p) →
      ProfilerStep Yields s ({ s with
        replies := s.replies + 1
        acked := s.acked + 1 }.checkpoint p |>.proceed (.draining p))
  /-- The target is released even where there is no snapshot. -/
  | ackFailed {s : System ThreadId History} :
      s.profiler.pc = .acking none →
      ProfilerStep Yields s ({ s with
        replies := s.replies + 1
        acked := s.acked + 1 }.proceed (.ended .failed))
  | drained {s : System ThreadId History} (p : PprofProfile) :
      s.profiler.pc = .draining p → s.target.exited = true →
      ProfilerStep Yields s (s.proceed (.ended (.final p)))
  | exitedEarly {s : System ThreadId History} (p : PprofProfile) (status : String) :
      s.profiler.pc = .checking → s.target.exited = true → s.profiler.last = some p →
      ProfilerStep Yields s (s.proceed (.ended (.exitedEarly (addComment status p))))
  | exitedUnseen {s : System ThreadId History} :
      s.profiler.pc = .checking → s.target.exited = true → s.profiler.last = none →
      ProfilerStep Yields s (s.proceed (.ended .failed))
  | alive {s : System ThreadId History} :
      s.profiler.pc = .checking → s.target.exited = false →
      ProfilerStep Yields s (s.proceed .deciding)
  | sleep {s : System ThreadId History} :
      s.profiler.pc = .deciding → ProfilerStep Yields s (s.proceed .polling)
  | snapshot {s : System ThreadId History} (p : PprofProfile) :
      s.profiler.pc = .deciding → s.profiler.ready = true → s.target.exited = false →
      Yields s.target.history p →
      ProfilerStep Yields s { s with profiler := { s.profiler with
        checkpoints := s.profiler.checkpoints ++ [p]
        last := some p
        pc := .polling } }
  | snapshotStopped {s : System ThreadId History} (p : PprofProfile) :
      s.profiler.pc = .deciding → s.profiler.ready = true → s.target.exited = false →
      Yields s.target.history p →
      ProfilerStep Yields s ((s.checkpoint p).proceed (.ended (.stopped p)))
  | snapshotFails {s : System ThreadId History} :
      s.profiler.pc = .deciding → s.profiler.ready = true →
      ProfilerStep Yields s (s.proceed (.ended .failed))
  | notInitialized {s : System ThreadId History} :
      s.profiler.pc = .deciding → s.profiler.ready = false →
      ProfilerStep Yields s (s.proceed (.ended .failed))

inductive Step (Yields : History → PprofProfile → Prop) (s s' : System ThreadId History) :
    Prop where
  | target : TargetStep s s' → Step Yields s s'
  | profiler : ProfilerStep Yields s s' → Step Yields s s'

def initial (history : History) : System ThreadId History where
  target := ⟨history, false, true, false, fun _ => .running, false⟩
  profiler := ⟨.polling, false, none, []⟩
  toProfiler := []
  replies := 0
  sent := []
  received := []
  acked := 0
  taken := none
  execs := 0

def Reachable (Yields : History → PprofProfile → Prop) (s : System ThreadId History) : Prop :=
  ∃ history, Relation.ReflTransGen (Step Yields) (initial history) s

variable {Yields : History → PprofProfile → Prop} {s s' : System ThreadId History}

theorem TargetStep.frame (h : TargetStep s s') :
    s'.profiler = s.profiler ∧ s'.received = s.received ∧ s'.acked = s.acked ∧
      s'.taken = s.taken ∧ (s.target.exited = true → s'.target.exited = true) := by
  cases h with
  | start t hlive => exact ⟨rfl, rfl, rfl, rfl, fun h => h⟩
  | startUnheard t hlive => exact ⟨rfl, rfl, rfl, rfl, fun h => h⟩
  | work t history hlive => exact ⟨rfl, rfl, rfl, rfl, fun h => h⟩
  | finish t hlive => exact ⟨rfl, rfl, rfl, rfl, fun h => h⟩
  | finishAgain t hlive => exact ⟨rfl, rfl, rfl, rfl, fun h => h⟩
  | send t hlive => exact ⟨rfl, rfl, rfl, rfl, fun h => h⟩
  | sendFails t hlive => exact ⟨rfl, rfl, rfl, rfl, fun h => h⟩
  | released t replies hlive => exact ⟨rfl, rfl, rfl, rfl, fun h => h⟩
  | abandoned t hlive => exact ⟨rfl, rfl, rfl, rfl, fun h => h⟩
  | exit t hlive => exact ⟨rfl, rfl, rfl, rfl, fun _ => rfl⟩
  | killed hlive => exact ⟨rfl, rfl, rfl, rfl, fun _ => rfl⟩
  | exec history hlive => exact ⟨rfl, rfl, rfl, rfl, fun h => h⟩

theorem TargetStep.live (h : TargetStep s s') : s.target.exited = false := by
  cases h with
  | start t hlive => exact hlive
  | startUnheard t hlive => exact hlive
  | work t history hlive => exact hlive
  | finish t hlive => exact hlive
  | finishAgain t hlive => exact hlive
  | send t hlive => exact hlive
  | sendFails t hlive => exact hlive
  | released t replies hlive => exact hlive
  | abandoned t hlive => exact hlive
  | exit t hlive => exact hlive
  | killed hlive => exact hlive
  | exec history hlive => exact hlive

omit [DecidableEq ThreadId] in
theorem ProfilerStep.frame (h : ProfilerStep Yields s s') :
    s'.target = s.target ∧ s'.sent = s.sent ∧ s'.execs = s.execs ∧ ¬s.profiler.Ended ∧
      s'.received ++ s'.toProfiler = s.received ++ s.toProfiler ∧
      s'.replies + s.acked = s.replies + s'.acked ∧ s.acked ≤ s'.acked := by
  have hopen : ∀ pc, s.profiler.pc = pc → (∀ outcome, pc ≠ .ended outcome) →
      ¬s.profiler.Ended := by
    rintro pc hpc hne ⟨outcome, houtcome⟩
    exact hne outcome (hpc.symm.trans houtcome)
  have hread : ∀ signal rest, s.toProfiler = signal :: rest →
      (s.received ++ [signal]) ++ rest = s.received ++ s.toProfiler := by
    intro signal rest hs
    rw [hs, List.append_assoc, List.singleton_append]
  cases h with
  | readStarted rest hpc hs =>
    exact ⟨rfl, rfl, rfl, hopen _ hpc (by simp), hread _ _ hs, rfl, Nat.le_refl _⟩
  | readStartedAgain rest hpc hs =>
    exact ⟨rfl, rfl, rfl, hopen _ hpc (by simp), hread _ _ hs, rfl, Nat.le_refl _⟩
  | readFinished rest hpc hs =>
    exact ⟨rfl, rfl, rfl, hopen _ hpc (by simp), hread _ _ hs, rfl, Nat.le_refl _⟩
  | readNothing hpc => exact ⟨rfl, rfl, rfl, hopen _ hpc (by simp), rfl, rfl, Nat.le_refl _⟩
  | readFails hpc => exact ⟨rfl, rfl, rfl, hopen _ hpc (by simp), rfl, rfl, Nat.le_refl _⟩
  | snapshotFinal p hpc => exact ⟨rfl, rfl, rfl, hopen _ hpc (by simp), rfl, rfl, Nat.le_refl _⟩
  | snapshotFinalFails hpc =>
    exact ⟨rfl, rfl, rfl, hopen _ hpc (by simp), rfl, rfl, Nat.le_refl _⟩
  | ack p hpc =>
    exact ⟨rfl, rfl, rfl, hopen _ hpc (by simp), rfl, by
      change s.replies + 1 + s.acked = s.replies + (s.acked + 1)
      omega, Nat.le_succ _⟩
  | ackFailed hpc =>
    exact ⟨rfl, rfl, rfl, hopen _ hpc (by simp), rfl, by
      change s.replies + 1 + s.acked = s.replies + (s.acked + 1)
      omega, Nat.le_succ _⟩
  | drained p hpc => exact ⟨rfl, rfl, rfl, hopen _ hpc (by simp), rfl, rfl, Nat.le_refl _⟩
  | exitedEarly p status hpc =>
    exact ⟨rfl, rfl, rfl, hopen _ hpc (by simp), rfl, rfl, Nat.le_refl _⟩
  | exitedUnseen hpc => exact ⟨rfl, rfl, rfl, hopen _ hpc (by simp), rfl, rfl, Nat.le_refl _⟩
  | alive hpc => exact ⟨rfl, rfl, rfl, hopen _ hpc (by simp), rfl, rfl, Nat.le_refl _⟩
  | sleep hpc => exact ⟨rfl, rfl, rfl, hopen _ hpc (by simp), rfl, rfl, Nat.le_refl _⟩
  | snapshot p hpc => exact ⟨rfl, rfl, rfl, hopen _ hpc (by simp), rfl, rfl, Nat.le_refl _⟩
  | snapshotStopped p hpc => exact ⟨rfl, rfl, rfl, hopen _ hpc (by simp), rfl, rfl, Nat.le_refl _⟩
  | snapshotFails hpc => exact ⟨rfl, rfl, rfl, hopen _ hpc (by simp), rfl, rfl, Nat.le_refl _⟩
  | notInitialized hpc => exact ⟨rfl, rfl, rfl, hopen _ hpc (by simp), rfl, rfl, Nat.le_refl _⟩

omit [DecidableEq ThreadId] in
/-- The last snapshot has been taken of a target that was still there. -/
def Took (Yields : History → PprofProfile → Prop) (s : System ThreadId History)
    (p : PprofProfile) : Prop :=
  .finished ∈ s.received ∧
    ∃ target, s.taken = some target ∧ target.exited = false ∧ Yields target.history p

omit [DecidableEq ThreadId] in
def Idle (s : System ThreadId History) : Prop :=
  s.acked = 0 ∧ s.taken = none ∧ s.profiler.last = s.profiler.checkpoints.getLast? ∧
    (s.profiler.ready = true ∨ s.profiler.last ≠ none → .started ∈ s.received)

omit [DecidableEq ThreadId] in
def Holds (Yields : History → PprofProfile → Prop) (s : System ThreadId History) :
    ProfilerPc → Prop
  | .polling => s.Idle
  | .checking => s.Idle
  | .deciding => s.Idle
  | .finalizing => s.acked = 0 ∧ s.taken = none ∧ .finished ∈ s.received
  | .acking none => s.acked = 0 ∧ s.taken = none ∧ .finished ∈ s.received
  | .acking (some p) => s.acked = 0 ∧ s.Took Yields p
  | .draining p => s.acked = 1 ∧ s.Took Yields p ∧ s.profiler.checkpoints.getLast? = some p
  | .ended .failed => s.acked ≤ 1 ∧ s.taken = none
  | .ended (.final p) => s.acked = 1 ∧ s.Took Yields p ∧
      s.profiler.checkpoints.getLast? = some p ∧ s.target.exited = true
  | .ended (.stopped p) => s.acked = 0 ∧ s.taken = none ∧
      s.profiler.checkpoints.getLast? = some p
  | .ended (.exitedEarly p) => s.acked = 0 ∧ s.taken = none ∧ s.target.exited = true ∧
      ∃ q status, s.profiler.checkpoints.getLast? = some q ∧ p = addComment status q

theorem Holds.target {pc : ProfilerPc} (h : Holds Yields s pc) (hstep : TargetStep s s') :
    Holds Yields s' pc := by
  obtain ⟨hprofiler, hreceived, hacked, htaken, hexited⟩ := hstep.frame
  cases pc with
  | polling => simpa only [Holds, Idle, hprofiler, hreceived, hacked, htaken] using h
  | checking => simpa only [Holds, Idle, hprofiler, hreceived, hacked, htaken] using h
  | deciding => simpa only [Holds, Idle, hprofiler, hreceived, hacked, htaken] using h
  | finalizing => simpa only [Holds, hreceived, hacked, htaken] using h
  | acking p =>
    cases p with
    | none => simpa only [Holds, hreceived, hacked, htaken] using h
    | some p => simpa only [Holds, Took, hreceived, hacked, htaken] using h
  | draining p => simpa only [Holds, Took, hprofiler, hreceived, hacked, htaken] using h
  | ended outcome =>
    cases outcome with
    | failed => simpa only [Holds, hacked, htaken] using h
    | final p =>
      simp only [Holds, Took, hprofiler, hreceived, hacked, htaken] at h ⊢
      exact ⟨h.1, h.2.1, h.2.2.1, hexited h.2.2.2⟩
    | stopped p => simpa only [Holds, hprofiler, hacked, htaken] using h
    | exitedEarly p =>
      simp only [Holds, hprofiler, hacked, htaken] at h ⊢
      exact ⟨h.1, h.2.1, hexited h.2.2.1, h.2.2.2⟩

omit [DecidableEq ThreadId] in
theorem Holds.profiler (h : Holds Yields s s.profiler.pc) (hstep : ProfilerStep Yields s s') :
    Holds Yields s' s'.profiler.pc := by
  cases hstep with
  | readStarted rest hpc hs hready =>
    rw [hpc] at h
    exact ⟨h.1, h.2.1, h.2.2.1,
      fun _ => List.mem_append_right _ (List.mem_singleton_self _)⟩
  | readStartedAgain rest hpc hs hready =>
    rw [hpc] at h
    exact ⟨h.1.le.trans (Nat.zero_le 1), h.2.1⟩
  | readFinished rest hpc hs =>
    rw [hpc] at h
    exact ⟨h.1, h.2.1, List.mem_append_right _ (List.mem_singleton_self _)⟩
  | readNothing hpc =>
    rw [hpc] at h
    exact h
  | readFails hpc =>
    rw [hpc] at h
    exact ⟨h.1.le.trans (Nat.zero_le 1), h.2.1⟩
  | snapshotFinal p hpc hlive hyields =>
    rw [hpc] at h
    exact ⟨h.1, h.2.2, s.target, rfl, hlive, hyields⟩
  | snapshotFinalFails hpc =>
    rw [hpc] at h
    exact h
  | ack p hpc =>
    rw [hpc] at h
    exact ⟨congrArg Nat.succ h.1, h.2, List.getLast?_concat⟩
  | ackFailed hpc =>
    rw [hpc] at h
    exact ⟨Nat.succ_le_succ h.1.le, h.2.1⟩
  | drained p hpc hexited =>
    rw [hpc] at h
    exact ⟨h.1, h.2.1, h.2.2, hexited⟩
  | exitedEarly p status hpc hexited hlast =>
    rw [hpc] at h
    exact ⟨h.1, h.2.1, hexited, p, status, h.2.2.1.symm.trans hlast, rfl⟩
  | exitedUnseen hpc hexited hlast =>
    rw [hpc] at h
    exact ⟨h.1.le.trans (Nat.zero_le 1), h.2.1⟩
  | alive hpc hlive =>
    rw [hpc] at h
    exact h
  | sleep hpc =>
    rw [hpc] at h
    exact h
  | snapshot p hpc hready hlive hyields =>
    rw [hpc] at h
    exact ⟨h.1, h.2.1, List.getLast?_concat.symm, fun _ => h.2.2.2 (Or.inl hready)⟩
  | snapshotStopped p hpc hready hlive hyields =>
    rw [hpc] at h
    exact ⟨h.1, h.2.1, List.getLast?_concat⟩
  | snapshotFails hpc hready =>
    rw [hpc] at h
    exact ⟨h.1.le.trans (Nat.zero_le 1), h.2.1⟩
  | notInitialized hpc hready =>
    rw [hpc] at h
    exact ⟨h.1.le.trans (Nat.zero_le 1), h.2.1⟩

omit [DecidableEq ThreadId] in
theorem Holds.acked_le {pc : ProfilerPc} (h : Holds Yields s pc) : s.acked ≤ 1 := by
  cases pc with
  | polling => exact h.1.le.trans (Nat.zero_le 1)
  | checking => exact h.1.le.trans (Nat.zero_le 1)
  | deciding => exact h.1.le.trans (Nat.zero_le 1)
  | finalizing => exact h.1.le.trans (Nat.zero_le 1)
  | acking p =>
    cases p with
    | none => exact h.1.le.trans (Nat.zero_le 1)
    | some p => exact h.1.le.trans (Nat.zero_le 1)
  | draining p => exact h.1.le
  | ended outcome =>
    cases outcome with
    | failed => exact h.1
    | final p => exact h.1.le
    | stopped p => exact h.1.le.trans (Nat.zero_le 1)
    | exitedEarly p => exact h.1.le.trans (Nat.zero_le 1)

omit [DecidableEq ThreadId] in
theorem Holds.draining {pc : ProfilerPc} (h : Holds Yields s pc)
    (hopen : ∀ outcome, pc ≠ .ended outcome) (hreplied : s.acked ≠ 0) :
    ∃ p, pc = .draining p ∧ s.Took Yields p := by
  cases pc with
  | polling => exact absurd h.1 hreplied
  | checking => exact absurd h.1 hreplied
  | deciding => exact absurd h.1 hreplied
  | finalizing => exact absurd h.1 hreplied
  | acking p =>
    cases p with
    | none => exact absurd h.1 hreplied
    | some p => exact absurd h.1 hreplied
  | draining p => exact ⟨p, rfl, h.2.1⟩
  | ended outcome => exact absurd rfl (hopen outcome)

omit [DecidableEq ThreadId] in
theorem Holds.taken {pc : ProfilerPc} (h : Holds Yields s pc) (htaken : s.taken ≠ none) :
    .finished ∈ s.received := by
  cases pc with
  | polling => exact absurd h.2.1 htaken
  | checking => exact absurd h.2.1 htaken
  | deciding => exact absurd h.2.1 htaken
  | finalizing => exact absurd h.2.1 htaken
  | acking p =>
    cases p with
    | none => exact absurd h.2.1 htaken
    | some p => exact h.2.1
  | draining p => exact h.2.1.1
  | ended outcome =>
    cases outcome with
    | failed => exact absurd h.2 htaken
    | final p => exact h.2.1.1
    | stopped p => exact absurd h.2.1 htaken
    | exitedEarly p => exact absurd h.2.1 htaken

/-! ## The target -/

end System

def ThreadPc.Inside (pc : ThreadPc) : Prop := pc = .sending ∨ pc = .waiting

namespace System
variable {Yields : History → PprofProfile → Prop} {s s' : System ThreadId History}

omit [DecidableEq ThreadId] in
/-- What holds as long as the target has not been replaced by another program. -/
structure Orderly (s : System ThreadId History) : Prop where
  started : .started ∈ s.sent → s.target.begun = true
  channel : s.target.channel = false → s.acked ≠ 0 ∨ s.profiler.Ended
  one : ∀ t t', (s.target.pc t).Inside → (s.target.pc t').Inside → t = t'
  finishing : (∃ t, (s.target.pc t).Inside) → s.target.finishing = true
  entered : s.target.finishing = true → ∃ t, s.target.pc t ≠ .running
  sending : ∀ t, s.target.pc t = .sending → .finished ∉ s.sent
  sent : .finished ∈ s.sent → s.target.finishing = true ∧
    ∃ t, s.target.pc t = .waiting ∨ s.target.pc t = .leaving
  waits : .finished ∈ s.sent → s.target.exited = false → s.acked = 0 → ¬s.profiler.Ended →
    ∃ t, s.target.pc t = .waiting
  replied : (∃ t, s.target.pc t = .waiting) → s.replies = s.acked
  taken : ∀ target, s.taken = some target → (∃ t, target.pc t = .waiting) ∧
    (Subsingleton ThreadId → s.target.history = target.history)
  left : Subsingleton ThreadId → ∀ t, s.target.pc t = .leaving →
    s.target.begun = false ∨ s.acked ≠ 0 ∨ s.profiler.Ended

omit [DecidableEq ThreadId] in
structure Inv (Yields : History → PprofProfile → Prop) (s : System ThreadId History) : Prop where
  profiler : Holds Yields s s.profiler.pc
  stream : s.received ++ s.toProfiler = s.sent
  replies : s.replies ≤ s.acked
  orderly : s.execs = 0 → s.Orderly
  early : s.execs = 0 → Subsingleton ThreadId →
    ∀ p, s.profiler.pc = .ended (.exitedEarly p) → ∀ t, s.target.pc t ≠ .leaving

omit [DecidableEq ThreadId] in
theorem Inv.sent_of_received (h : Inv Yields s) {signal : Signal} (hs : signal ∈ s.received) :
    signal ∈ s.sent := by
  rw [← h.stream]
  exact List.mem_append_left _ hs

omit [DecidableEq ThreadId] in
theorem initial_inv (history : History) :
    Inv Yields (initial history : System ThreadId History) := by
  refine ⟨⟨rfl, rfl, rfl, ?_⟩, rfl, Nat.le_refl 0, fun _ => ?_, ?_⟩
  · rintro (h | h)
    · cases h
    · exact absurd rfl h
  · constructor
    · intro h
      cases h
    · intro h
      cases h
    · rintro t t' (h | h)
      · cases h
      · cases h
    · rintro ⟨t, h | h⟩
      · cases h
      · cases h
    · intro h
      cases h
    · intro t h
      cases h
    · intro h
      cases h
    · intro h
      cases h
    · rintro ⟨t, h⟩
      cases h
    · intro target h
      cases h
    · intro _ t h
      cases h
  · intro _ _ p h
    cases h

omit [DecidableEq ThreadId] in
theorem Inv.not_leaving (h : Inv Yields s) (hexecs : s.execs = 0) (hone : Subsingleton ThreadId)
    (hpc : s.profiler.pc = .checking) (hlast : s.profiler.last ≠ none) (t : ThreadId) :
    s.target.pc t ≠ .leaving := by
  intro hleaving
  have hidle := h.profiler
  rw [hpc] at hidle
  rcases (h.orderly hexecs).left hone t hleaving with hbegun | hacked | ⟨outcome, hended⟩
  · have hstarted := h.sent_of_received (hidle.2.2.2 (Or.inr hlast))
    exact Bool.false_ne_true (hbegun.symm.trans ((h.orderly hexecs).started hstarted))
  · exact hacked hidle.1
  · exact absurd (hpc.symm.trans hended) (by simp)

omit [DecidableEq ThreadId] in
theorem Orderly.profilerStep (h : s.Orderly) (hinv : Inv Yields s)
    (hstep : ProfilerStep Yields s s') : s'.Orderly := by
  obtain ⟨htarget, hsent, hexecs, hopen, hstream, hreplies, hacked⟩ := hstep.frame
  constructor
  · rw [htarget, hsent]
    exact h.started
  · rw [htarget]
    intro hchannel
    rcases h.channel hchannel with hreplied | hended
    · exact Or.inl (by omega)
    · exact absurd hended hopen
  · rw [htarget]
    exact h.one
  · rw [htarget]
    exact h.finishing
  · rw [htarget]
    exact h.entered
  · rw [htarget, hsent]
    exact h.sending
  · rw [htarget, hsent]
    exact h.sent
  · rw [htarget, hsent]
    exact fun hf hlive hzero _ => h.waits hf hlive (by omega) hopen
  · rw [htarget]
    intro hwaiting
    have hsame := h.replied hwaiting
    omega
  · intro target htaken
    by_cases hold : s.taken = some target
    · rw [htarget]
      exact h.taken target hold
    · cases hstep with
      | snapshotFinal p hpc hlive hyields =>
        cases htaken
        have hholds := hinv.profiler
        rw [hpc] at hholds
        exact ⟨h.waits (hinv.sent_of_received hholds.2.2) hlive hholds.1 hopen, fun _ => rfl⟩
      | _ => exact absurd htaken hold
  · rw [htarget]
    intro hone t hleaving
    rcases h.left hone t hleaving with hbegun | hreplied | hended
    · exact Or.inl hbegun
    · exact Or.inr (Or.inl (by omega))
    · exact absurd hended hopen

omit [DecidableEq ThreadId] in
theorem Inv.profilerStep (h : Inv Yields s) (hstep : ProfilerStep Yields s s') : Inv Yields s' := by
  obtain ⟨htarget, hsent, hexecs, hopen, hstream, hreplies, hacked⟩ := hstep.frame
  refine ⟨h.profiler.profiler hstep, ?_, ?_, fun hnone => ?_, ?_⟩
  · rw [hstream, hsent]
    exact h.stream
  · have hle := h.replies
    omega
  · rw [hexecs] at hnone
    exact (h.orderly hnone).profilerStep h hstep
  · rw [hexecs, htarget]
    intro hnone hone p hearly
    cases hstep with
    | exitedEarly q status hpc hexited hlast =>
      exact h.not_leaving hnone hone hpc (hlast ▸ Option.some_ne_none q)
    | snapshot q hpc => cases hearly
    | readStarted rest hpc => cases hearly
    | _ => cases hearly

omit [DecidableEq ThreadId] in
theorem Inv.acked_of_sending (h : Inv Yields s) (hexecs : s.execs = 0)
    (hopen : ¬s.profiler.Ended) {t : ThreadId} (hpc : s.target.pc t = .sending) : s.acked = 0 := by
  by_contra hreplied
  obtain ⟨p, -, hfinished, -⟩ := h.profiler.draining
    (fun outcome houtcome => hopen ⟨outcome, houtcome⟩) hreplied
  exact (h.orderly hexecs).sending t hpc (h.sent_of_received hfinished)

theorem goto_pc_self (target : Target ThreadId History) (t : ThreadId) (pc : ThreadPc) :
    (target.goto t pc).pc t = pc :=
  Function.update_self ..

theorem goto_pc_of_ne (target : Target ThreadId History) {t t' : ThreadId} (pc : ThreadPc)
    (hne : t' ≠ t) : (target.goto t pc).pc t' = target.pc t' :=
  Function.update_of_ne hne ..

theorem goto_pc_eq {target : Target ThreadId History} {t t' : ThreadId} {pc pc' : ThreadPc}
    (h : (target.goto t pc).pc t' = pc') (hne : pc ≠ pc') : t' ≠ t ∧ target.pc t' = pc' := by
  by_cases hsame : t' = t
  · subst hsame
    exact absurd ((goto_pc_self target t' pc).symm.trans h) hne
  · exact ⟨hsame, (goto_pc_of_ne target pc hsame).symm.trans h⟩

theorem Orderly.leave (h : s.Orderly) {t : ThreadId} {replies : ℕ} {channel : Bool}
    (hreplies : replies = s.replies ∨ s.target.pc t = .waiting)
    (hchannel : channel = false → s.acked ≠ 0 ∨ s.profiler.Ended)
    (hreleased : s.target.pc t = .waiting → s.acked ≠ 0 ∨ s.profiler.Ended)
    (hleft : Subsingleton ThreadId →
      s.target.begun = false ∨ s.acked ≠ 0 ∨ s.profiler.Ended) :
    Orderly { s with
      target := { s.target with channel := channel }.goto t .leaving
      replies := replies } := by
  have hinside : ∀ t', (({ s.target with channel := channel }.goto t .leaving).pc t').Inside →
      t' ≠ t ∧ (s.target.pc t').Inside := by
    rintro t' (hpc | hpc)
    · obtain ⟨hne, hold⟩ := goto_pc_eq hpc (by simp)
      exact ⟨hne, Or.inl hold⟩
    · obtain ⟨hne, hold⟩ := goto_pc_eq hpc (by simp)
      exact ⟨hne, Or.inr hold⟩
  constructor
  · exact h.started
  · exact hchannel
  · intro t₁ t₂ h₁ h₂
    exact h.one t₁ t₂ (hinside t₁ h₁).2 (hinside t₂ h₂).2
  · rintro ⟨t', hpc⟩
    exact h.finishing ⟨t', (hinside t' hpc).2⟩
  · exact fun _ => ⟨t, fun hrunning => absurd ((goto_pc_self _ t _).symm.trans hrunning) (by simp)⟩
  · intro t' hpc
    exact h.sending t' (goto_pc_eq hpc (by simp)).2
  · intro hsent
    obtain ⟨hfinishing, t₀, hpc⟩ := h.sent hsent
    refine ⟨hfinishing, t₀, ?_⟩
    by_cases hsame : t₀ = t
    · rw [hsame]
      exact Or.inr (goto_pc_self _ t .leaving)
    · rw [goto_pc_of_ne _ .leaving hsame]
      exact hpc
  · intro hsent hlive hzero hopen
    obtain ⟨t₀, hpc⟩ := h.waits hsent hlive hzero hopen
    refine ⟨t₀, ?_⟩
    rw [goto_pc_of_ne _ .leaving]
    · exact hpc
    · rintro rfl
      rcases hreleased hpc with hacked | hended
      · exact hacked hzero
      · exact hopen hended
  · rintro ⟨t', hpc⟩
    obtain ⟨hne, hold⟩ := goto_pc_eq hpc (by simp)
    rcases hreplies with hreplies | hwaiting
    · exact hreplies.trans (h.replied ⟨t', hold⟩)
    · exact absurd (h.one t' t (Or.inr hold) (Or.inr hwaiting)) hne
  · exact h.taken
  · exact fun hone _ _ => hleft hone

theorem Orderly.finish (h : s.Orderly) {t : ThreadId} (hfirst : s.target.finishing = false) :
    Orderly { s with target := { s.target with finishing := true }.goto t .sending } := by
  have hnobody : ∀ t', ¬(s.target.pc t').Inside := by
    intro t' hinside
    exact Bool.false_ne_true (hfirst.symm.trans (h.finishing ⟨t', hinside⟩))
  have hunsent : Signal.finished ∉ s.sent := by
    intro hsent
    exact Bool.false_ne_true (hfirst.symm.trans (h.sent hsent).1)
  have halone : ∀ t', (({ s.target with finishing := true }.goto t .sending).pc t').Inside →
      t' = t := by
    intro t' hinside
    by_contra hne
    rw [goto_pc_of_ne _ .sending hne] at hinside
    exact hnobody t' hinside
  constructor
  · exact h.started
  · exact h.channel
  · intro t₁ t₂ h₁ h₂
    exact (halone t₁ h₁).trans (halone t₂ h₂).symm
  · exact fun _ => rfl
  · exact fun _ => ⟨t, fun hrunning => absurd ((goto_pc_self _ t _).symm.trans hrunning) (by simp)⟩
  · exact fun _ _ => hunsent
  · exact fun hsent => absurd hsent hunsent
  · exact fun hsent => absurd hsent hunsent
  · rintro ⟨t', hpc⟩
    exact absurd (Or.inr (goto_pc_eq hpc (by simp)).2) (hnobody t')
  · exact h.taken
  · exact fun hone t' hpc => h.left hone t' (goto_pc_eq hpc (by simp)).2

theorem Orderly.send (h : s.Orderly) {t : ThreadId} (hpc : s.target.pc t = .sending)
    (hreplies : s.replies = s.acked) :
    Orderly ((s.send Signal.finished).goto t .waiting) := by
  have halone : ∀ t', ((s.target.goto t .waiting).pc t').Inside → t' = t := by
    intro t' hinside
    by_contra hne
    rw [goto_pc_of_ne _ .waiting hne] at hinside
    exact hne (h.one t' t hinside (Or.inl hpc))
  have hwaits : (s.target.goto t .waiting).pc t = .waiting := goto_pc_self _ t .waiting
  constructor
  · intro hmem
    rcases List.mem_append.mp hmem with hmem | hmem
    · exact h.started hmem
    · exact absurd (List.mem_singleton.mp hmem) (by simp)
  · exact h.channel
  · intro t₁ t₂ h₁ h₂
    exact (halone t₁ h₁).trans (halone t₂ h₂).symm
  · exact fun _ => h.finishing ⟨t, Or.inl hpc⟩
  · exact fun _ => ⟨t, fun hrunning => absurd (hwaits.symm.trans hrunning) (by simp)⟩
  · intro t' hsending
    rw [halone t' (Or.inl hsending)] at hsending
    exact absurd (hwaits.symm.trans hsending) (by simp)
  · exact fun _ => ⟨h.finishing ⟨t, Or.inl hpc⟩, t, Or.inl hwaits⟩
  · exact fun _ _ _ _ => ⟨t, hwaits⟩
  · exact fun _ => hreplies
  · exact h.taken
  · exact fun hone t' hpc => h.left hone t' (goto_pc_eq hpc (by simp)).2

omit [DecidableEq ThreadId] in
theorem Inv.taken_of_running (h : Inv Yields s) (hexecs : s.execs = 0)
    (hone : Subsingleton ThreadId) {t : ThreadId} (hpc : s.target.pc t = .running) :
    s.taken = none := by
  by_contra htaken
  obtain ⟨_, t', hin⟩ := (h.orderly hexecs).sent (h.sent_of_received (h.profiler.taken htaken))
  rw [Subsingleton.elim t' t, hpc] at hin
  rcases hin with hin | hin
  · cases hin
  · cases hin

omit [DecidableEq ThreadId] in
theorem Orderly.start (h : s.Orderly) {t : ThreadId} (hpc : s.target.pc t = .running)
    {toProfiler sent : List Signal} (hsent : .finished ∈ sent → .finished ∈ s.sent) :
    Orderly { s with
      target := { s.target with begun := true }
      toProfiler := toProfiler
      sent := sent } := by
  refine ⟨fun _ => rfl, h.channel, h.one, h.finishing, h.entered,
    fun t' hsending hmem => h.sending t' hsending (hsent hmem), fun hmem => h.sent (hsent hmem),
    fun hmem => h.waits (hsent hmem), h.replied, h.taken, ?_⟩
  intro hone t' hleaving
  rw [Subsingleton.elim t' t] at hleaving
  exact absurd (hpc.symm.trans hleaving) (by simp)

omit [DecidableEq ThreadId] in
theorem Orderly.exit (h : s.Orderly) :
    Orderly { s with target := { s.target with exited := true } } :=
  ⟨h.started, h.channel, h.one, h.finishing, h.entered, h.sending, h.sent,
    fun _ hlive => absurd hlive.symm Bool.false_ne_true, h.replied, h.taken, h.left⟩

theorem Orderly.targetStep (h : s.Orderly) (hinv : Inv Yields s) (hstep : TargetStep s s')
    (hexecs : s'.execs = 0) : s'.Orderly := by
  cases hstep with
  | start t hlive hpc hbegun hchannel =>
    refine h.start hpc ?_
    intro hmem
    rcases List.mem_append.mp hmem with hmem | hmem
    · exact hmem
    · exact absurd (List.mem_singleton.mp hmem) (by simp)
  | startUnheard t hlive hpc hbegun hchannel => exact h.start hpc fun hmem => hmem
  | work t history hlive hpc =>
    refine ⟨h.started, h.channel, h.one, h.finishing, h.entered, h.sending, h.sent, h.waits,
      h.replied, ?_, h.left⟩
    intro target htaken
    refine ⟨(h.taken target htaken).1, ?_⟩
    intro hone
    exact absurd ((hinv.taken_of_running hexecs hone hpc).symm.trans htaken)
      (Option.some_ne_none target).symm
  | finish t hlive hpc hbegun hfirst => exact h.finish hfirst
  | finishAgain t hlive hpc hagain =>
    refine h.leave (Or.inl rfl) h.channel (fun hwaiting => ?_) (fun hone => ?_)
    · exact absurd (hpc.symm.trans hwaiting) (by simp)
    · rcases hagain with hbegun | hfinishing
      · exact Or.inl hbegun
      · obtain ⟨t', ht'⟩ := h.entered hfinishing
        rw [Subsingleton.elim t' t] at ht'
        exact absurd hpc ht'
  | send t hlive hpc hchannel hopen =>
    have hzero := hinv.acked_of_sending hexecs hopen hpc
    have hreplies := hinv.replies
    exact h.send hpc (by omega)
  | sendFails t hlive hpc hfails =>
    refine h.leave (Or.inl rfl) h.channel (fun hwaiting => ?_) (fun _ => ?_)
    · exact absurd (hpc.symm.trans hwaiting) (by simp)
    · rcases hfails with hchannel | hended
      · exact Or.inr (h.channel hchannel)
      · exact Or.inr (Or.inr hended)
  | released t replies hlive hpc hreply =>
    have hle := hinv.replies
    have hacked : s.acked ≠ 0 := by omega
    exact h.leave (Or.inr hpc) (fun _ => Or.inl hacked) (fun _ => Or.inl hacked)
      fun _ => Or.inr (Or.inl hacked)
  | abandoned t hlive hpc hreply hended =>
    exact h.leave (Or.inr hpc) (fun _ => Or.inr hended) (fun _ => Or.inr hended)
      fun _ => Or.inr (Or.inr hended)
  | exit t hlive hpc => exact h.exit
  | killed hlive => exact h.exit
  | exec history hlive => exact absurd hexecs (Nat.succ_ne_zero s.execs)

theorem Inv.targetStep_channel (h : Inv Yields s) (hstep : TargetStep s s') :
    s'.received ++ s'.toProfiler = s'.sent ∧ s'.replies ≤ s'.acked ∧ s.execs ≤ s'.execs := by
  have hsend : ∀ signal, s.received ++ (s.toProfiler ++ [signal]) = s.sent ++ [signal] := by
    intro signal
    rw [← List.append_assoc, h.stream]
  have hreplies := h.replies
  cases hstep with
  | start t hlive => exact ⟨hsend _, hreplies, Nat.le_refl _⟩
  | startUnheard t hlive => exact ⟨h.stream, hreplies, Nat.le_refl _⟩
  | work t history hlive => exact ⟨h.stream, hreplies, Nat.le_refl _⟩
  | finish t hlive => exact ⟨h.stream, hreplies, Nat.le_refl _⟩
  | finishAgain t hlive => exact ⟨h.stream, hreplies, Nat.le_refl _⟩
  | send t hlive => exact ⟨hsend _, hreplies, Nat.le_refl _⟩
  | sendFails t hlive => exact ⟨h.stream, hreplies, Nat.le_refl _⟩
  | released t replies hlive hpc hreply =>
    refine ⟨h.stream, ?_, Nat.le_refl _⟩
    change replies ≤ s.acked
    omega
  | abandoned t hlive => exact ⟨h.stream, hreplies, Nat.le_refl _⟩
  | exit t hlive => exact ⟨h.stream, hreplies, Nat.le_refl _⟩
  | killed hlive => exact ⟨h.stream, hreplies, Nat.le_refl _⟩
  | exec history hlive => exact ⟨h.stream, hreplies, Nat.le_succ _⟩

theorem Inv.targetStep (h : Inv Yields s) (hstep : TargetStep s s') : Inv Yields s' := by
  obtain ⟨hstream, hreplies, hexecs⟩ := h.targetStep_channel hstep
  have hprofiler := hstep.frame.1
  refine ⟨?_, hstream, hreplies, fun hnone => ?_, ?_⟩
  · rw [hprofiler]
    exact h.profiler.target hstep
  · exact (h.orderly (by omega)).targetStep h hstep hnone
  · rw [hprofiler]
    intro _ _ p hearly
    have hholds := h.profiler
    rw [hearly] at hholds
    exact absurd (hholds.2.2.1.symm.trans hstep.live) (by simp)

theorem Reachable.inv (h : Reachable Yields s) : Inv Yields s := by
  obtain ⟨history, hrun⟩ := h
  induction hrun with
  | refl => exact initial_inv history
  | tail _ hstep ih =>
    cases hstep with
    | target hstep => exact ih.targetStep hstep
    | profiler hstep => exact ih.profilerStep hstep

def waitingOnce : System Unit ℕ where
  target := { history := 1, begun := true, channel := true, finishing := true,
              pc := Function.update (Function.update (fun _ => .running) () .sending) () .waiting,
              exited := false }
  profiler := ⟨.polling, false, none, []⟩
  toProfiler := [.started, .finished]
  replies := 0
  sent := [.started, .finished]
  received := []
  acked := 0
  taken := none
  execs := 0

section
variable {Yields : ℕ → PprofProfile → Prop}

theorem waitingOnce_reachable : Reachable Yields waitingOnce := by
  refine ⟨0, .tail (.tail (.tail (.tail .refl
    (.target (.start () rfl rfl rfl rfl)))
    (.target (.work () 1 rfl rfl)))
    (.target (.finish () rfl rfl rfl rfl)))
    (.target (.send () rfl rfl rfl ?_))⟩
  rintro ⟨outcome, hended⟩
  cases hended

theorem exists_final {p : PprofProfile} (hyields : Yields 1 p) :
    ∃ s : System Unit ℕ, Reachable Yields s ∧ s.profiler.pc = .ended (.final p) := by
  obtain ⟨history, hrun⟩ := @waitingOnce_reachable Yields
  exact ⟨_, ⟨history, .tail (.tail (.tail (.tail (.tail (.tail (.tail (.tail (.tail hrun
    (.profiler (.readStarted [.finished] rfl rfl rfl)))
    (.profiler (.alive rfl rfl)))
    (.profiler (.sleep rfl)))
    (.profiler (.readFinished [] rfl rfl)))
    (.profiler (.snapshotFinal p rfl rfl hyields)))
    (.profiler (.ack p rfl)))
    (.target (.released () 0 rfl rfl rfl)))
    (.target (.exit () rfl rfl)))
    (.profiler (.drained p rfl rfl))⟩, rfl⟩

end

/-- The profiler releases the target at most once. Its result after the last snapshot is that
snapshot, taken of a target still there and since gone; as long as no other program replaced the
target, a thread waited in `finish` then, and a target of one thread had come to its last history.
Otherwise the result is the last checkpoint. A comment on it tells of a target gone before, which
one of a single thread is only where something else ended it. -/
theorem last_checkpoint (h : Reachable Yields s) :
    s.acked ≤ 1 ∧
    (∀ p, s.profiler.pc = .ended (.final p) →
      s.profiler.checkpoints.getLast? = some p ∧ s.acked = 1 ∧ s.target.exited = true ∧
      ∃ target, s.taken = some target ∧ target.exited = false ∧ Yields target.history p ∧
        (s.execs = 0 → (∃ t, target.pc t = .waiting) ∧
          (Subsingleton ThreadId → s.target.history = target.history))) ∧
    (∀ p, s.profiler.pc = .ended (.stopped p) →
      s.profiler.checkpoints.getLast? = some p ∧ s.acked = 0) ∧
    (∀ p, s.profiler.pc = .ended (.exitedEarly p) →
      (∃ q status, s.profiler.checkpoints.getLast? = some q ∧ p = addComment status q) ∧
      s.acked = 0 ∧ s.target.exited = true ∧
      (s.execs = 0 → Subsingleton ThreadId → ∀ t, s.target.pc t ≠ .leaving)) := by
  have hinv := h.inv
  have hholds := hinv.profiler
  refine ⟨hholds.acked_le, ?_, ?_, ?_⟩
  · intro p hpc
    rw [hpc] at hholds
    obtain ⟨hacked, ⟨-, target, htaken, hlive, hyields⟩, hlast, hexited⟩ := hholds
    exact ⟨hlast, hacked, hexited, target, htaken, hlive, hyields,
      fun hexecs => (hinv.orderly hexecs).taken target htaken⟩
  · intro p hpc
    rw [hpc] at hholds
    exact ⟨hholds.2.2, hholds.1⟩
  · intro p hpc
    rw [hpc] at hholds
    exact ⟨hholds.2.2.2, hholds.1, hholds.2.2.1,
      fun hexecs hone => hinv.early hexecs hone p hpc⟩

theorem last_checkpoint_once : ∃ s : System Unit ℕ, ∃ p : PprofProfile,
    s.profiler.pc = .ended (.final p) ∧ s.acked = 1 ∧ s.target.exited = true ∧
      s.profiler.checkpoints.getLast? = some p ∧ p.comments.length = 1 := by
  obtain ⟨s, hreachable, hpc⟩ := @exists_final (fun history p => p.comments.length = history)
    { PprofProfile.withStrings .new with comments := [0] } rfl
  obtain ⟨hlast, hacked, hexited, target, -, -, -, -⟩ := (last_checkpoint hreachable).2.1 _ hpc
  exact ⟨s, _, hpc, hacked, hexited, hlast, rfl⟩

theorem TargetStep.leaves (h : TargetStep s s') (hexecs : s'.execs = s.execs) {t : ThreadId}
    (hwaiting : s.target.pc t = .waiting) (hgone : s'.target.pc t ≠ .waiting) :
    s.replies ≠ 0 ∨ s.profiler.Ended := by
  have hmoved : ∀ (t' : ThreadId) (target : Target ThreadId History) pc,
      target.pc t = .waiting → (target.goto t' pc).pc t ≠ .waiting → t = t' := by
    intro t' target pc hbefore hafter
    by_contra hne
    exact hafter ((goto_pc_of_ne target pc hne).trans hbefore)
  cases h with
  | start t' hlive => exact absurd hwaiting hgone
  | startUnheard t' hlive => exact absurd hwaiting hgone
  | work t' history hlive => exact absurd hwaiting hgone
  | finish t' hlive hpc =>
    have hsame := hmoved t' { s.target with finishing := true } _ hwaiting hgone
    exact absurd (hwaiting.symm.trans (hsame ▸ hpc)) (by simp)
  | finishAgain t' hlive hpc =>
    exact absurd (hwaiting.symm.trans (hmoved t' s.target _ hwaiting hgone ▸ hpc)) (by simp)
  | send t' hlive hpc =>
    exact absurd (hwaiting.symm.trans (hmoved t' s.target _ hwaiting hgone ▸ hpc)) (by simp)
  | sendFails t' hlive hpc =>
    exact absurd (hwaiting.symm.trans (hmoved t' s.target _ hwaiting hgone ▸ hpc)) (by simp)
  | released t' replies hlive hpc hreply => exact Or.inl (hreply ▸ Nat.succ_ne_zero replies)
  | abandoned t' hlive hpc hreply hended => exact Or.inr hended
  | exit t' hlive => exact absurd hwaiting hgone
  | killed hlive => exact absurd hwaiting hgone
  | exec history hlive => exact absurd hexecs (Nat.succ_ne_self s.execs)

theorem TargetStep.can_leave (hlive : s.target.exited = false) {t : ThreadId}
    (hwaiting : s.target.pc t = .waiting) (hreply : s.replies ≠ 0 ∨ s.profiler.Ended) :
    ∃ s', TargetStep s s' ∧ s'.target.pc t = .leaving := by
  by_cases hzero : s.replies = 0
  · exact ⟨_, .abandoned t hlive hwaiting hzero (hreply.resolve_left (absurd hzero)),
      goto_pc_self _ t .leaving⟩
  · obtain ⟨replies, hreplies⟩ := Nat.exists_eq_succ_of_ne_zero hzero
    exact ⟨_, .released t replies hlive hwaiting hreplies, goto_pc_self _ t .leaving⟩

omit [DecidableEq ThreadId] in
theorem ProfilerStep.can_proceed (hlive : s.target.exited = false)
    (hopen : ¬s.profiler.Ended) (hdraining : ∀ p, s.profiler.pc ≠ .draining p) :
    ∃ s', ProfilerStep Yields s s' ∧ s'.profiler.pc ≠ s.profiler.pc := by
  cases hpc : s.profiler.pc with
  | polling => exact ⟨_, .readNothing hpc, by simp [proceed]⟩
  | finalizing => exact ⟨_, .snapshotFinalFails hpc, by simp [proceed]⟩
  | acking p =>
    cases p with
    | none => exact ⟨_, .ackFailed hpc, by simp [proceed]⟩
    | some p => exact ⟨_, .ack p hpc, by simp [proceed]⟩
  | draining p => exact absurd hpc (hdraining p)
  | checking => exact ⟨_, .alive hpc hlive, by simp [proceed]⟩
  | deciding => exact ⟨_, .sleep hpc, by simp [proceed]⟩
  | ended outcome => exact absurd ⟨outcome, hpc⟩ hopen

/-- As long as no other program replaced the target, one thread at most waits in `finish`. There the
two sides do not block each other, and the thread goes on only after a reply, which follows the last
snapshot or its failure, or when the profiler is gone. -/
theorem finish_returns (h : Reachable Yields s) (hexecs : s.execs = 0)
    (hlive : s.target.exited = false) (t : ThreadId) (hwaiting : s.target.pc t = .waiting) :
    (∀ t', s.target.pc t' = .waiting → t' = t) ∧
    ((∃ s', TargetStep s s' ∧ s'.target.pc t = .leaving) ∨
      ∃ s', ProfilerStep Yields s s' ∧ s'.profiler.pc ≠ s.profiler.pc) ∧
    ∀ s', TargetStep s s' → s'.execs = 0 → s'.target.pc t ≠ .waiting →
      s.profiler.Ended ∨ s.acked = 1 ∧ ∃ p, s.profiler.pc = .draining p ∧ s.Took Yields p := by
  have hinv := h.inv
  have horderly := hinv.orderly hexecs
  have hreplies := horderly.replied ⟨t, hwaiting⟩
  refine ⟨fun t' ht' => horderly.one t' t (Or.inr ht') (Or.inr hwaiting), ?_, ?_⟩
  · by_cases hfree : s.replies ≠ 0 ∨ s.profiler.Ended
    · exact Or.inl (TargetStep.can_leave hlive hwaiting hfree)
    · rw [not_or, not_not] at hfree
      refine Or.inr (ProfilerStep.can_proceed hlive hfree.2 ?_)
      intro p hpc
      have hholds := hinv.profiler
      rw [hpc] at hholds
      have hacked := hholds.1
      omega
  · intro s' hstep hexecs' hgone
    by_cases hended : s.profiler.Ended
    · exact Or.inl hended
    · have hreply := (hstep.leaves (hexecs'.trans hexecs.symm) hwaiting hgone).resolve_right hended
      have hle := hinv.profiler.acked_le
      exact Or.inr ⟨by omega, hinv.profiler.draining
        (fun outcome houtcome => hended ⟨outcome, houtcome⟩) (by omega)⟩

theorem finish_returns_waitingOnce :
    (∃ s', TargetStep waitingOnce s' ∧ s'.target.pc () = .leaving) ∨
      ∃ s', ProfilerStep (fun n p => p = PprofProfile.withStrings .new ∧ n = 1) waitingOnce s' ∧
        s'.profiler.pc ≠ waitingOnce.profiler.pc :=
  (finish_returns waitingOnce_reachable rfl rfl () rfl).2.1

end System

end

end PProfessor.Handshake
