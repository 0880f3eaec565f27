import PProfessor.HeapHistory
import PProfessor.PartitionPoint
import PProfessor.RawProfile

set_option autoImplicit false

/-!
# The threads a Linux sampler follows

`selected_threads` of `src/sampler/linux.rs`, and which thread the filter for the main thread
selects. What procfs shows of the threads is a parameter.
-/
namespace PProfessor.Capture
open PartitionPoint Text
open Heap (trimEnd)

/-- Controls which threads are sampled. -/
inductive ThreadFilter where
  | all
  | mainThread
  | byName (expected : String)
  | byId (expected : UInt64)
  | byMachThread (port : UInt32)
  deriving DecidableEq, Repr

structure LinuxSampler where
  pid : UInt32
  threadFilter : ThreadFilter
  deriving DecidableEq, Repr

/-- The entries of `/proc/{pid}/task` in the order of `read_dir`, and the text of a `comm` file. -/
structure ThreadFiles where
  task : UInt32 → Except String (List (Except String (List Char)))
  comm : UInt32 → UInt32 → Except String (List Char)

def listThreads (files : ThreadFiles) (pid : UInt32) : Except String (List UInt32) :=
  (files.task pid).map fun entries => (entries.filterMap Except.toOption).filterMap parseU32

def threadName (files : ThreadFiles) (pid tid : UInt32) : String :=
  match files.comm pid tid with
  | .ok name => String.ofList (trimEnd name)
  | .error _ => ""

namespace LinuxSampler

def threadMatchesFilter (s : LinuxSampler) (tid : UInt32) (name : String) (index : ℕ) : Bool :=
  match s.threadFilter with
  | .all => true
  | .mainThread => index = 0
  | .byName expected => expected.toList <:+: name.toList
  | .byId expected => tid.toUInt64 = expected
  | .byMachThread _ => false

def select (s : LinuxSampler) (files : ThreadFiles) (selected : List (UInt32 × String))
    (tid : UInt32) : List (UInt32 × String) :=
  let name := threadName files s.pid tid
  if s.threadMatchesFilter tid name selected.length then selected ++ [(tid, name)] else selected

def selectedThreads (s : LinuxSampler) (files : ThreadFiles) (skipTid : Option UInt32) :
    Except String (List (UInt32 × String)) := do
  let threads ← listThreads files s.pid
  let sorted := sortByKey id threads
  return (sorted.filter fun tid => some tid ≠ skipTid).foldl (s.select files) []

theorem select_foldl {s : LinuxSampler} {files : ThreadFiles} {keeps : UInt32 → Bool}
    (h : ∀ tid index,
      s.threadMatchesFilter tid (threadName files s.pid tid) index = keeps tid)
    (tids : List UInt32) (selected : List (UInt32 × String)) :
    tids.foldl (s.select files) selected =
      selected ++ (tids.filter keeps).map fun tid => (tid, threadName files s.pid tid) := by
  induction tids generalizing selected with
  | nil => simp
  | cons tid tids ih =>
    rw [List.foldl_cons, ih, select, h, List.filter_cons]
    split_ifs
    · rw [List.map_cons, List.append_assoc, List.singleton_append]
    · rfl

theorem select_mainThread_foldl {s : LinuxSampler} (hs : s.threadFilter = .mainThread)
    (files : ThreadFiles) (tids : List UInt32) :
    tids.foldl (s.select files) [] =
      (tids.head?.map fun tid => (tid, threadName files s.pid tid)).toList := by
  have hfilter (tid : UInt32) (name : String) (index : ℕ) :
      s.threadMatchesFilter tid name index = decide (index = 0) := by
    rw [threadMatchesFilter, hs]
  -- Nothing passes once something has.
  have hrest (tids : List UInt32) (first : UInt32 × String) :
      tids.foldl (s.select files) [first] = [first] := by
    induction tids with
    | nil => rfl
    | cons tid tids ih =>
      rw [List.foldl_cons, select, hfilter, if_neg (by simp), ih]
  cases tids with
  | nil => rfl
  | cons tid tids =>
    rw [List.foldl_cons, select, hfilter, if_pos (by simp)]
    exact hrest tids _

end LinuxSampler

/-- The directory of a process with the given threads, listed in any order. -/
def taskEntries (live : List UInt32) : List (Except String (List Char)) :=
  live.map fun tid => .ok (Nat.toDigits 10 tid.toNat)

theorem listThreads_eq {files : ThreadFiles} {pid : UInt32} {live : List UInt32}
    (h : files.task pid = .ok (taskEntries live)) : listThreads files pid = .ok live := by
  rw [listThreads, h, taskEntries]
  refine congrArg Except.ok ?_
  dsimp only
  rw [List.filterMap_map, List.filterMap_filterMap]
  refine (List.filterMap_congr fun tid _ => ?_).trans List.filterMap_some
  exact parseU32_toDigits tid

def unskipped (live : List UInt32) (skipTid : Option UInt32) : List UInt32 :=
  (sortByKey id live).filter fun tid => some tid ≠ skipTid

theorem mem_unskipped {live : List UInt32} {skipTid : Option UInt32} {tid : UInt32} :
    tid ∈ unskipped live skipTid ↔ tid ∈ live ∧ some tid ≠ skipTid := by
  rw [unskipped, List.mem_filter, (sortByKey_perm id live).mem_iff, decide_eq_true_eq]

theorem unskipped_sorted (live : List UInt32) (skipTid : Option UInt32) :
    (unskipped live skipTid).Pairwise (· ≤ ·) :=
  (sortByKey_sorted id live).filter _

namespace LinuxSampler

theorem selectedThreads_mainThread {s : LinuxSampler} (hs : s.threadFilter = .mainThread)
    {files : ThreadFiles} {live : List UInt32} (hlive : files.task s.pid = .ok (taskEntries live))
    (skipTid : Option UInt32) : s.selectedThreads files skipTid =
      .ok ((unskipped live skipTid).head?.map fun tid =>
        (tid, threadName files s.pid tid)).toList := by
  rw [selectedThreads, listThreads_eq hlive]
  exact congrArg Except.ok (select_mainThread_foldl hs files _)

theorem selectedThreads_other {s : LinuxSampler} (hs : s.threadFilter ≠ .mainThread)
    {files : ThreadFiles} {live : List UInt32} (hlive : files.task s.pid = .ok (taskEntries live))
    (skipTid : Option UInt32) : s.selectedThreads files skipTid =
      .ok (((unskipped live skipTid).filter fun tid =>
        s.threadMatchesFilter tid (threadName files s.pid tid) 0).map fun tid =>
          (tid, threadName files s.pid tid)) := by
  rw [selectedThreads, listThreads_eq hlive]
  refine congrArg Except.ok (select_foldl (fun tid index => ?_) _ [])
  unfold threadMatchesFilter
  cases hfilter : s.threadFilter with
  | mainThread => exact absurd hfilter hs
  | _ => rfl

/-- The main thread is selected exactly when no thread that is not skipped has a lower id. -/
theorem mainThread_selected_iff {s : LinuxSampler} (hs : s.threadFilter = .mainThread)
    {files : ThreadFiles} {live : List UInt32} (hlive : files.task s.pid = .ok (taskEntries live))
    (hmain : s.pid ∈ live) {skipTid : Option UInt32} (hskip : skipTid ≠ some s.pid) :
    s.selectedThreads files skipTid = .ok [(s.pid, threadName files s.pid s.pid)] ↔
      ∀ tid ∈ live, some tid ≠ skipTid → s.pid ≤ tid := by
  have hsplit : (∀ tid ∈ unskipped live skipTid, s.pid ≤ tid) ↔
      ∀ tid ∈ live, some tid ≠ skipTid → s.pid ≤ tid := by
    simp only [mem_unskipped, and_imp]
  have hmem : s.pid ∈ unskipped live skipTid := mem_unskipped.mpr ⟨hmain, hskip.symm⟩
  have hfirst := head?_eq_some_iff (unskipped_sorted live skipTid) s.pid
  rw [← hsplit, selectedThreads_mainThread hs hlive]
  constructor
  · intro h
    cases hhead : (unskipped live skipTid).head? with
    | none =>
      rw [hhead] at h
      cases h
    | some tid =>
      rw [hhead] at h
      have htid : tid = s.pid :=
        congrArg Prod.fst (List.head_eq_of_cons_eq (Except.ok.inj h))
      rw [htid] at hhead
      exact (hfirst.mp hhead).2
  · intro h
    rw [hfirst.mpr ⟨hmem, h⟩]
    rfl

/-- A process with the given threads, whose `comm` files read alike. -/
def processOf (live : List UInt32) : ThreadFiles :=
  ⟨fun _ => .ok (taskEntries live), fun _ _ => .ok "worker\n".toList⟩

theorem mainThread_selected_iff_skipped :
    (⟨100, .mainThread⟩ : LinuxSampler).selectedThreads (processOf [102, 100, 7]) (some 7) =
        .ok [(100, threadName (processOf [102, 100, 7]) 100 100)] ↔
      ∀ tid ∈ [102, 100, (7 : UInt32)], some tid ≠ some 7 → 100 ≤ tid :=
  @mainThread_selected_iff ⟨100, .mainThread⟩ rfl (processOf [102, 100, 7]) [102, 100, 7] rfl
    (by decide) (some 7) (by decide)

/-- After the thread ids have wrapped around, a thread has a lower id than the main thread. -/
theorem lower_id_selected : (32000 : UInt32) ∈ [32000, (500 : UInt32)] ∧
    (⟨32000, .mainThread⟩ : LinuxSampler).selectedThreads (processOf [32000, 500]) none =
      .ok [(500, threadName (processOf [32000, 500]) 32000 500)] ∧
    (⟨32000, .mainThread⟩ : LinuxSampler).selectedThreads (processOf [32000, 500]) none ≠
      .ok [(32000, threadName (processOf [32000, 500]) 32000 32000)] := by
  have hmem : (500 : UInt32) ∈ unskipped [32000, 500] none := mem_unskipped.mpr (by decide)
  have hleast : ∀ tid ∈ unskipped [32000, 500] none, (500 : UInt32) ≤ tid := by
    intro tid htid
    rcases List.mem_pair.mp (mem_unskipped.mp htid).1 with rfl | rfl <;> decide
  have hselected := @selectedThreads_mainThread ⟨32000, .mainThread⟩ rfl
    (processOf [32000, 500]) [32000, 500] rfl none
  rw [(head?_eq_some_iff (unskipped_sorted _ _) _).mpr ⟨hmem, hleast⟩] at hselected
  refine ⟨by decide, hselected, ?_⟩
  rw [hselected]
  intro h
  have hid := congrArg Prod.fst (List.head_eq_of_cons_eq (Except.ok.inj h))
  exact absurd hid (by decide)

end LinuxSampler

end PProfessor.Capture
