import PProfessor.HeapCapture
import PProfessor.HeapFaithful
import PProfessor.RecorderFile

set_option autoImplicit false

/-!
# What a heap capture shows

The recorder writes its log while the profiler reads it. The profile of a checkpoint counts the
blocks that the target had allocated when the length of the log was read.
-/
namespace PProfessor.Recorder
open ByteOrder Heap KeyedSum Pprof

section
variable {ThreadId : Type} [DecidableEq ThreadId]

/-- The file of a log in the course of time: first less than its header, then what a recorder has
made of it. -/
structure Watched (owner : UInt32) (file : ℕ → List UInt8) (begun : ℕ)
    (r : ℕ → Recording ThreadId) : Prop where
  early : ∀ t < begun, (file t).length < headerSize ∧ (file t).length ≤ (file (t + 1)).length
  reachable : (r 0).Reachable
  runs : ∀ t, Relation.ReflTransGen FileStep (r t) (r (t + 1))
  later : ∀ t, file (begun + t) = (r t).file owner

variable {order : Std.ExtHashMap UInt64 (UInt64 × ℕ) → List (UInt64 × UInt64 × ℕ)}

namespace Watched
variable {owner : UInt32} {file : ℕ → List UInt8} {begun : ℕ} {r : ℕ → Recording ThreadId}

theorem inv (h : Watched owner file begun r) (t : ℕ) : (r t).Inv := by
  induction t with
  | zero => exact h.reachable.inv
  | succ t ih => exact (ih.lasts (h.runs t) owner).1

theorem reaches (h : Watched owner file begun r) {t t' : ℕ} (hle : t ≤ t') :
    Relation.ReflTransGen FileStep (r t) (r t') := by
  induction t', hle using Nat.le_induction with
  | base => exact .refl
  | succ t' _ ih => exact ih.trans (h.runs t')

theorem grows (h : Watched owner file begun r) (t : ℕ) : Grows (file t) (file (t + 1)) := by
  by_cases ht : t < begun
  · obtain ⟨hshort, hle⟩ := h.early t ht
    refine ⟨hle, ?_⟩
    rw [List.drop_eq_nil_of_le hshort.le]
    exact List.nil_prefix
  · obtain ⟨n, rfl⟩ := Nat.exists_eq_add_of_le (Nat.le_of_not_lt ht)
    rw [Nat.add_assoc, h.later, h.later]
    exact ((h.inv n).lasts (h.runs n) owner).2.1

theorem status (h : Watched owner file begun r) (t : ℕ) :
    word (file (begun + t)) 24 = (r t).status := by
  rw [h.later]
  exact (@word_headerBytes owner (r t).status (r t).body 3 _ rfl).2

end Watched

theorem Watched.intact {owner : UInt32} {file : ℕ → List UInt8} {begun : ℕ}
    {r : ℕ → Recording ThreadId} (h : Watched owner file begun r) {c : Checkpoint}
    (hreads : c.Reads order file) :
    ∃ t, c.instant = begun + t ∧ (r t).heap.status = 0 := by
  have hbegun : begun ≤ c.instant := by
    by_contra hlt
    have hshort := (h.early c.instant (Nat.lt_of_not_le hlt)).1
    have hheader := hreads.header
    omega
  obtain ⟨t, ht⟩ := Nat.exists_eq_add_of_le hbegun
  have hstatus := hreads.status
  rw [ht, h.status] at hstatus
  exact ⟨t, ht, ((h.inv t).intact hstatus).1⟩

theorem profile_error {events : List Event} {reader : LogReader}
    (hreplay : LogReader.opened.replay 0 events = .ok reader)
    (horder : ∀ live, Enumerates (order live) live) {poll : Poll} {e : SnapshotError}
    (he : reader.profile (poll.call (order reader.tracker.live)) = .error e) :
    e = .noMappings ∧ poll.mappings = none := by
  cases hmappings : poll.mappings with
  | none =>
    have hcall : reader.profile (poll.call (order reader.tracker.live)) = .error .noMappings := by
      rw [Poll.call, hmappings]
      exact (holds_replay hreplay).knows.profile_unnamed (horder reader.tracker.live) poll.exited
        poll.collectedAt
    rw [hcall] at he
    cases he
    exact ⟨rfl, rfl⟩
  | some mappings =>
    obtain ⟨profile, hprofile⟩ := (holds_replay hreplay).knows.profile_returns
      (horder reader.tracker.live) poll.exited poll.collectedAt
      (attachSymbols mappings poll.symbolizeFrame)
    have hcall : reader.profile (poll.call (order reader.tracker.live)) = .ok profile := by
      rw [Poll.call, hmappings]
      exact hprofile
    rw [hcall] at he
    cases he

namespace Watched
variable {owner : UInt32} {file : ℕ → List UInt8} {begun : ℕ} {r : ℕ → Recording ThreadId}

end Watched

end

end PProfessor.Recorder
