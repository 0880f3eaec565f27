import PProfessor.HeapLogFile
import PProfessor.HeapReplay

set_option autoImplicit false

/-!
# The recorder and its file

`begin`, `write_all`, `record` and `finish` of `src/heap/recorder.c` down to the bytes of the log.
A record reaches the file in pieces, and a call that fails leaves the pieces it has written.
`finish` and the recorder of a program that replaces this one by `exec` set the status last.
-/
namespace PProfessor.Recorder
open Heap ByteOrder

/-- `h` of `begin`, with the status as it is now. -/
def headerBytes (owner : UInt32) (status : UInt64) : List UInt8 :=
  [0x3130504145485050, 1, owner.toUInt64, status].flatMap wordBytes

inductive Phase where
  | recording
  /-- `finish` has closed the log. -/
  | finished
  /-- A recorder of the same process has found the log. -/
  | replaced
  deriving DecidableEq, Repr

/-- The recorder with what it has written. -/
structure Recording (ThreadId : Type) where
  heap : State ThreadId
  /-- The file behind its header. -/
  body : List UInt8
  /-- The record that `write_all` is writing, and how many bytes it has written. -/
  writing : Option (Event × ℕ)
  phase : Phase

section
variable {ThreadId : Type}

/-- `header[3]` in the file. -/
def Recording.status (s : Recording ThreadId) : UInt64 :=
  match s.phase with
  | .recording => s.heap.status
  | .finished => if s.heap.status ≠ 0 then 1 else 2
  | .replaced => 3

def Recording.file (owner : UInt32) (s : Recording ThreadId) : List UInt8 :=
  headerBytes owner s.status ++ s.body

def Pc.Ready (e : Event) (pc : Pc) : Prop :=
  (∃ call p usable trace, pc = .returned call p usable ∧ call.record p usable trace = some e) ∨
  ∃ q trace, pc = .locked (.free q) ∧ LibcCall.record 0 0 trace (.free q) = some e

variable [DecidableEq ThreadId]

/-- The steps of the wrappers with which a record reaches the log, or is lost. -/
inductive Records : State ThreadId → Event → Bool → State ThreadId → Prop where
  | record {s : State ThreadId} (t : ThreadId) (call : LibcCall) (p usable : UInt64)
      (trace : List UInt64) (e : Event) (written : Bool) :
      s.pc t = .returned call p usable → call.record p usable trace = some e →
      Records s e written (((s.append e written).mark e written).goto t .leaving)
  | recordFree {s : State ThreadId} (t : ThreadId) (q : UInt64) (trace : List UInt64) (e : Event)
      (written : Bool) :
      s.pc t = .locked (.free q) → LibcCall.record 0 0 trace (.free q) = some e →
      Records s e written ((s.append e written).goto t (.freeing q))

/-- One step of the recorder. The last piece of a record and the step of its wrapper are one. -/
inductive FileStep : Recording ThreadId → Recording ThreadId → Prop where
  | wrapper {s : Recording ThreadId} (heap : State ThreadId) :
      s.phase = .recording → Step s.heap heap → (∀ e written, ¬Records s.heap e written heap) →
      FileStep s { s with heap := heap }
  | start {s : Recording ThreadId} (t : ThreadId) (e : Event) :
      s.phase = .recording → s.writing = none → (s.heap.pc t).Ready e →
      FileStep s { s with writing := some (e, 0) }
  | piece {s : Recording ThreadId} (e : Event) (done count : ℕ) :
      s.phase = .recording → s.writing = some (e, done) → done + count < recordSize →
      FileStep s { s with
        body := s.body ++ cut e.bytes done count
        writing := some (e, done + count) }
  | written {s : Recording ThreadId} (e : Event) (done : ℕ) (heap : State ThreadId) :
      s.phase = .recording → s.writing = some (e, done) → Records s.heap e true heap →
      FileStep s { s with heap := heap, body := s.body ++ e.bytes.drop done, writing := none }
  | failed {s : Recording ThreadId} (e : Event) (done : ℕ) (heap : State ThreadId) :
      s.phase = .recording → s.writing = some (e, done) → Records s.heap e false heap →
      FileStep s { s with heap := heap, writing := none }
  | finish {s : Recording ThreadId} :
      s.phase = .recording → s.heap.lock = none → FileStep s { s with phase := .finished }
  | replaced {s : Recording ThreadId} : FileStep s { s with phase := .replaced }

/-- After `begin`. -/
def Recording.start (chunks : Chunks) : Recording ThreadId := ⟨initial chunks, [], none, .recording⟩

def Recording.Reachable (s : Recording ThreadId) : Prop :=
  ∃ chunks, Unrecorded chunks ∧ Relation.ReflTransGen FileStep (.start chunks) s

variable {s s' : State ThreadId} {e : Event} {written : Bool}

theorem Records.step (h : Records s e written s') : Step s s' := by
  cases h with
  | record t call p usable trace e written hpc he => exact .record t call p usable trace e _ hpc he
  | recordFree t q trace e written hpc he => exact .recordFree t q trace e _ hpc he

theorem Records.log (h : Records s e true s') : s'.log = s.log ++ [e] ∧ s'.status = s.status := by
  cases h with
  | record t call p usable trace e written hpc he =>
    rw [mark_written]
    exact ⟨rfl, rfl⟩
  | recordFree t q trace e written hpc he => exact ⟨rfl, rfl⟩

theorem Records.lost (h : Records s e false s') : s'.log = s.log ∧ s'.status = 1 := by
  cases h with
  | record t call p usable trace e written hpc he =>
    rw [mark_lost]
    exact ⟨rfl, rfl⟩
  | recordFree t q trace e written hpc he => exact ⟨rfl, rfl⟩

theorem Records.ready (h : Records s e written s') : ∃ t, (s.pc t).Ready e := by
  cases h with
  | record t call p usable trace e written hpc he => exact ⟨t, .inl ⟨_, _, _, _, hpc, he⟩⟩
  | recordFree t q trace e written hpc he => exact ⟨t, .inr ⟨_, _, hpc, he⟩⟩

theorem length_record_pcs (kind p old size : UInt64) (trace : List UInt64) :
    (record kind p old size trace).pcs.length = 64 := by
  unfold record
  dsimp only
  rw [List.length_append, List.length_replicate]
  split_ifs
  · rw [List.length_drop, List.length_take]
    omega
  · rfl

theorem LibcCall.length_pcs {call : LibcCall} {p usable : UInt64} {trace : List UInt64}
    (h : call.record p usable trace = some e) : e.pcs.length = 64 := by
  unfold LibcCall.record at h
  split at h
  all_goals
    simp only [Option.ite_none_right_eq_some, Option.some.injEq] at h
    obtain ⟨-, rfl⟩ := h
    exact length_record_pcs ..

omit [DecidableEq ThreadId] in
theorem Pc.Ready.length_pcs {pc : Pc} (h : pc.Ready e) : e.pcs.length = 64 := by
  rcases h with ⟨call, p, usable, trace, -, he⟩ | ⟨q, trace, -, he⟩
  · exact LibcCall.length_pcs he
  · exact LibcCall.length_pcs he

theorem Pc.Ready.holds {pc : Pc} (h : pc.Ready e) : pc.Holds := by
  rcases h with ⟨call, p, usable, trace, rfl, -⟩ | ⟨q, trace, rfl, -⟩
  · trivial
  · trivial

/-- Whether a call is recorded does not depend on what `backtrace` finds. -/
theorem LibcCall.isSome_record (call : LibcCall) (p usable : UInt64) (trace trace' : List UInt64) :
    (call.record p usable trace).isSome = (call.record p usable trace').isSome := by
  cases call
  all_goals
    simp only [LibcCall.record]
    split_ifs
    all_goals rfl

/-- The other steps of the wrappers leave the log and whoever is about to write alone. -/
theorem wrapper_step (h : Step s s') (hnot : ∀ e written, ¬Records s e written s') :
    s'.log = s.log ∧ s'.status = s.status ∧
      ∀ (e : Event) (t : ThreadId), (s.pc t).Ready e → s'.pc t = s.pc t := by
  have hmoved : ∀ (e : Event) (u t : ThreadId) (pc : Pc), ¬(s.pc u).Ready e → (s.pc t).Ready e →
      Function.update s.pc u pc t = s.pc t := by
    intro e u t pc hu ht
    refine Function.update_of_ne ?_ _ _
    rintro rfl
    exact hu ht
  cases h with
  | enter u request page alignedImpl call hpc hcall =>
    refine ⟨rfl, rfl, fun e t ht => hmoved e u t _ ?_ ht⟩
    rw [hpc]
    exact fun h => h.holds
  | acquire u call hpc hlock =>
    refine ⟨rfl, rfl, fun e t ht => hmoved e u t _ ?_ ht⟩
    rw [hpc]
    exact fun h => h.holds
  | libc u call p usable hpc hfree hmay =>
    refine ⟨rfl, rfl, fun e t ht => hmoved e u t _ ?_ ht⟩
    rw [hpc]
    rintro (⟨_, _, _, _, h, -⟩ | ⟨q, _, h, -⟩)
    · cases h
    · exact hfree q (Pc.locked.inj h)
  | record u call p usable trace e written hpc he =>
    exact absurd (.record u call p usable trace e written hpc he) (hnot e written)
  | unrecorded u call p usable trace hpc hnone =>
    refine ⟨rfl, rfl, fun e t ht => hmoved e u t _ ?_ ht⟩
    rw [hpc]
    rintro (⟨_, _, _, trace', h, he⟩ | ⟨_, _, h, -⟩)
    · cases h
      have hsome := LibcCall.isSome_record call p usable trace trace'
      rw [hnone, he] at hsome
      cases hsome
    · cases h
  | recordFree u q trace e written hpc he =>
    exact absurd (.recordFree u q trace e written hpc he) (hnot e written)
  | unrecordedFree u q trace hpc hnone =>
    refine ⟨rfl, rfl, fun e t ht => hmoved e u t _ ?_ ht⟩
    rw [hpc]
    rintro (⟨_, _, _, _, h, -⟩ | ⟨_, trace', h, he⟩)
    · cases h
    · cases h
      have hsome := LibcCall.isSome_record (.free q) 0 0 trace trace'
      rw [hnone, he] at hsome
      cases hsome
  | libcFree u q hpc =>
    refine ⟨rfl, rfl, fun e t ht => hmoved e u t _ ?_ ht⟩
    rw [hpc]
    rintro (⟨_, _, _, _, h, -⟩ | ⟨_, _, h, -⟩)
    · cases h
    · cases h
  | leave u hpc =>
    refine ⟨rfl, rfl, fun e t ht => hmoved e u t _ ?_ ht⟩
    rw [hpc]
    rintro (⟨_, _, _, _, h, -⟩ | ⟨_, _, h, -⟩)
    · cases h
    · cases h
  | skip u call p hpc hmay hown => exact ⟨rfl, rfl, fun _ t _ => rfl⟩

omit [DecidableEq ThreadId] in
theorem length_headerBytes (owner : UInt32) (status : UInt64) :
    (headerBytes owner status).length = headerSize := by
  rw [headerBytes, length_flatMap wordBytes fun w _ => length_wordBytes w]
  rfl

theorem word_headerBytes (owner : UInt32) (status : UInt64) (body : List UInt8) {i : ℕ}
    {w : UInt64} (h : [0x3130504145485050, 1, owner.toUInt64, status][i]? = some w) :
    cut (headerBytes owner status ++ body) (8 * i) 8 = wordBytes w ∧
      word (headerBytes owner status ++ body) (8 * i) = w := by
  have hcut := cut_flatMap wordBytes (fun w _ => length_wordBytes w) body h
  refine ⟨hcut, ?_⟩
  rw [word]
  rw [headerBytes, hcut, wordBytes, Order.read_write _ w.toNat_lt, UInt64.ofNat_toNat]

/-- The bytes of the record that is being written. -/
def Recording.partly (r : Recording ThreadId) : List UInt8 :=
  r.writing.elim [] fun w => w.1.bytes.take w.2

/-- What holds between any two steps of the recorder. -/
structure Recording.Inv (r : Recording ThreadId) : Prop where
  heap : Recorder.Reachable r.heap
  body : r.heap.status = 0 → r.body = r.heap.log.flatMap Event.bytes ++ r.partly
  pcs : ∀ e ∈ r.heap.log, e.pcs.length = 64
  writing : ∀ e done, r.writing = some (e, done) →
    e.pcs.length = 64 ∧ done < recordSize ∧
      (r.phase = .recording → ∃ t, (r.heap.pc t).Ready e)
  idle : r.phase = .finished → r.writing = none

variable {r r' : Recording ThreadId}

theorem Recording.start_inv {chunks : Chunks} (h : Unrecorded chunks) :
    (Recording.start chunks : Recording ThreadId).Inv := by
  refine ⟨⟨chunks, h, .refl⟩, fun _ => rfl, List.forall_mem_nil _, fun e done hw => ?_, fun h => ?_⟩
  · cases hw
  · cases h

theorem Recording.Inv.step (h : r.Inv) (hstep : FileStep r r') : r'.Inv := by
  obtain ⟨chunks, hchunks, hrun⟩ := h.heap
  have hextend : ∀ heap, Step r.heap heap → Recorder.Reachable heap := fun heap hs =>
    ⟨chunks, hchunks, hrun.tail hs⟩
  cases hstep with
  | wrapper heap hphase hs hnot =>
    obtain ⟨hlog, hstatus, -⟩ := wrapper_step hs hnot
    refine ⟨hextend heap hs, fun h0 => ?_, fun e he => ?_, fun e done hw => ?_, h.idle⟩
    · change r.body = heap.log.flatMap Event.bytes ++ r.partly
      rw [hlog]
      exact h.body (hstatus.symm.trans h0)
    · change e ∈ heap.log at he
      rw [hlog] at he
      exact h.pcs e he
    · obtain ⟨hpcs, hdone, hready⟩ := h.writing e done hw
      refine ⟨hpcs, hdone, fun hp => ?_⟩
      obtain ⟨t, ht⟩ := hready hp
      refine ⟨t, ?_⟩
      change (heap.pc t).Ready e
      rwa [(wrapper_step hs hnot).2.2 e t ht]
  | start t e hphase hnone hready =>
    refine ⟨h.heap, fun h0 => ?_, h.pcs, fun e' done hw => ?_, fun hp => ?_⟩
    · have hbody := h.body h0
      unfold Recording.partly at hbody ⊢
      rw [hnone] at hbody
      exact hbody
    · cases hw
      exact ⟨hready.length_pcs, by decide, fun _ => ⟨t, hready⟩⟩
    · rw [hphase] at hp
      cases hp
  | piece e done count hphase hw hcount =>
    obtain ⟨hpcs, hdone, hready⟩ := h.writing e done hw
    refine ⟨h.heap, fun h0 => ?_, h.pcs, fun e' done' hw' => ?_, fun hp => ?_⟩
    · have hbody := h.body h0
      unfold Recording.partly at hbody ⊢
      rw [hw] at hbody
      change r.body ++ cut e.bytes done count = _ ++ e.bytes.take (done + count)
      rw [hbody, List.append_assoc, List.take_add]
      rfl
    · cases hw'
      exact ⟨hpcs, hcount, hready⟩
    · rw [hphase] at hp
      cases hp
  | written e done heap hphase hw hrecords =>
    obtain ⟨hpcs, hdone, -⟩ := h.writing e done hw
    obtain ⟨hlog, hstatus⟩ := hrecords.log
    refine ⟨hextend heap hrecords.step, fun h0 => ?_, fun e' he' => ?_, fun e' done' hw' => ?_,
      fun _ => rfl⟩
    · have hbody := h.body (hstatus.symm.trans h0)
      unfold Recording.partly at hbody ⊢
      rw [hw] at hbody
      change r.body ++ e.bytes.drop done = heap.log.flatMap Event.bytes ++ []
      rw [hbody, hlog, List.append_nil, List.flatMap_append, List.append_assoc]
      change _ ++ (e.bytes.take done ++ e.bytes.drop done) = _
      rw [List.take_append_drop, List.flatMap_singleton]
    · change e' ∈ heap.log at he'
      rw [hlog] at he'
      rcases List.mem_append.mp he' with hold | hnew
      · exact h.pcs e' hold
      · rwa [List.mem_singleton.mp hnew]
    · cases hw'
  | failed e done heap hphase hw hrecords =>
    obtain ⟨hlog, hstatus⟩ := hrecords.lost
    refine ⟨hextend heap hrecords.step, fun h0 => ?_, fun e' he' => ?_, fun e' done' hw' => ?_,
      fun _ => rfl⟩
    · change heap.status = 0 at h0
      rw [hstatus] at h0
      exact absurd h0 (by decide)
    · change e' ∈ heap.log at he'
      rw [hlog] at he'
      exact h.pcs e' he'
    · cases hw'
  | finish hphase hlock =>
    have hnone : r.writing = none := by
      by_contra hne
      obtain ⟨⟨e, done⟩, hw⟩ := Option.ne_none_iff_exists'.mp hne
      obtain ⟨-, -, hready⟩ := h.writing e done hw
      obtain ⟨t, ht⟩ := hready hphase
      rw [(h.heap.inv.holder t).mp ht.holds] at hlock
      cases hlock
    refine ⟨h.heap, h.body, h.pcs, fun e done hw => ?_, fun _ => hnone⟩
    change r.writing = _ at hw
    rw [hnone] at hw
    cases hw
  | replaced =>
    refine ⟨h.heap, h.body, h.pcs, fun e done hw => ?_, fun hp => ?_⟩
    · obtain ⟨hpcs, hdone, -⟩ := h.writing e done hw
      exact ⟨hpcs, hdone, fun hp => by cases hp⟩
    · cases hp

theorem Recording.Reachable.inv (h : r.Reachable) : r.Inv := by
  obtain ⟨chunks, hchunks, hrun⟩ := h
  induction hrun with
  | refl => exact Recording.start_inv hchunks
  | tail _ hstep ih => exact ih.step hstep

/-! ## What a reader finds -/

namespace Recording

omit [DecidableEq ThreadId] in
theorem status_of_recording (h : r.phase = .recording) : r.status = r.heap.status := by
  rw [status, h]

omit [DecidableEq ThreadId] in
theorem status_of_finished (h : r.phase = .finished) :
    r.status = if r.heap.status ≠ 0 then 1 else 2 := by
  rw [status, h]

omit [DecidableEq ThreadId] in
theorem status_of_replaced (h : r.phase = .replaced) : r.status = 3 := by
  rw [status, h]

theorem Inv.intact (h : r.Inv) (hstatus : r.status = 0 ∨ r.status = 2) :
    r.heap.status = 0 ∧ r.phase ≠ .replaced := by
  cases hphase : r.phase with
  | recording =>
    rw [status_of_recording hphase] at hstatus
    refine ⟨hstatus.resolve_right fun h2 => ?_, by decide⟩
    rcases h.heap.inv.status with h0 | h1
    · rw [h0] at h2
      exact absurd h2 (by decide)
    · rw [h1] at h2
      exact absurd h2 (by decide)
  | finished =>
    rw [status_of_finished hphase] at hstatus
    refine ⟨by_contra fun hne => ?_, by decide⟩
    rw [if_pos hne] at hstatus
    exact absurd hstatus (by decide)
  | replaced =>
    rw [status_of_replaced hphase] at hstatus
    exact absurd hstatus (by decide)

theorem Inv.length_partly (h : r.Inv) :
    r.partly.length < recordSize ∧
      (r.partly ≠ [] ↔ ∃ e done, r.writing = some (e, done) ∧ 0 < done) := by
  unfold partly
  cases hw : r.writing with
  | none =>
    refine ⟨by decide, fun hne => absurd rfl hne, ?_⟩
    rintro ⟨e, done, h', -⟩
    cases h'
  | some w =>
    obtain ⟨e, done⟩ := w
    obtain ⟨hpcs, hdone, -⟩ := h.writing e done hw
    have hlength : (e.bytes.take done).length = done := by
      rw [List.length_take, Event.length_bytes hpcs, Nat.min_eq_left hdone.le]
    change (e.bytes.take done).length < _ ∧ (e.bytes.take done ≠ [] ↔ _)
    rw [← List.length_pos_iff, hlength]
    refine ⟨hdone, fun hpos => ⟨e, done, rfl, hpos⟩, ?_⟩
    rintro ⟨e', done', h', hpos⟩
    cases h'
    exact hpos

/-- As long as no record is lost, the complete records of the file are the log, and the file is
torn while a record is on its way. -/
theorem Inv.file (h : r.Inv) (owner : UInt32) (h0 : r.heap.status = 0) :
    records (r.file owner) = r.heap.log ∧
      (Torn (r.file owner) ↔ ∃ e done, r.writing = some (e, done) ∧ 0 < done) := by
  obtain ⟨hpartly, hwriting⟩ := h.length_partly
  have hheader := length_headerBytes owner r.status
  unfold Recording.file
  rw [h.body h0]
  refine ⟨records_written hheader h.pcs hpartly, ?_⟩
  have hbytes : ∀ e ∈ r.heap.log, e.bytes.length = recordSize := fun e he =>
    Event.length_bytes (h.pcs e he)
  rw [← hwriting, Torn, List.length_append, List.length_append, hheader, Nat.add_sub_cancel_left,
    length_flatMap Event.bytes hbytes, Nat.mul_add_mod, Nat.mod_eq_of_lt hpartly, ne_eq, ne_eq,
    List.length_eq_zero_iff]

end Recording

theorem FileStep.body (h : FileStep r r') : ∃ more, r'.body = r.body ++ more := by
  cases h with
  | wrapper heap hphase hs hnot => exact ⟨[], (List.append_nil _).symm⟩
  | start t e hphase hnone hready => exact ⟨[], (List.append_nil _).symm⟩
  | piece e done count hphase hw hcount => exact ⟨_, rfl⟩
  | written e done heap hphase hw hrecords => exact ⟨_, rfl⟩
  | failed e done heap hphase hw hrecords => exact ⟨[], (List.append_nil _).symm⟩
  | finish hphase hlock => exact ⟨[], (List.append_nil _).symm⟩
  | replaced => exact ⟨[], (List.append_nil _).symm⟩

theorem FileStep.grows (h : FileStep r r') (owner : UInt32) :
    Grows (r.file owner) (r'.file owner) := by
  obtain ⟨more, hmore⟩ := h.body
  have hlength := length_headerBytes owner
  constructor
  · rw [Recording.file, Recording.file, List.length_append, List.length_append, hlength, hlength,
      hmore, List.length_append]
    omega
  · rw [Recording.file, Recording.file, List.drop_left' (hlength _), List.drop_left' (hlength _),
      hmore]
    exact List.prefix_append ..

theorem FileStep.lost (h : FileStep r r') (hlost : r.heap.status ≠ 0) : r'.heap.status ≠ 0 := by
  cases h with
  | wrapper heap hphase hs hnot =>
    change heap.status ≠ 0
    rwa [(wrapper_step hs hnot).2.1]
  | start t e hphase hnone hready => exact hlost
  | piece e done count hphase hw hcount => exact hlost
  | written e done heap hphase hw hrecords =>
    change heap.status ≠ 0
    rwa [hrecords.log.2]
  | failed e done heap hphase hw hrecords =>
    change heap.status ≠ 0
    rw [hrecords.lost.2]
    decide
  | finish hphase hlock => exact hlost
  | replaced => exact hlost

theorem FileStep.phase (h : FileStep r r') : r.phase = .recording ∨ r'.phase = .replaced := by
  cases h with
  | wrapper heap hphase hs hnot => exact .inl hphase
  | start t e hphase hnone hready => exact .inl hphase
  | piece e done count hphase hw hcount => exact .inl hphase
  | written e done heap hphase hw hrecords => exact .inl hphase
  | failed e done heap hphase hw hrecords => exact .inl hphase
  | finish hphase hlock => exact .inl hphase
  | replaced => exact .inr rfl

theorem Recording.Inv.status_of_lost (h : r.Inv) (hlost : r.heap.status ≠ 0)
    (hphase : r.phase ≠ .replaced) : r.status = 1 := by
  cases hp : r.phase with
  | recording =>
    rw [status_of_recording hp]
    exact h.heap.inv.status.resolve_left hlost
  | finished => rw [status_of_finished hp, if_pos hlost]
  | replaced => exact absurd hp hphase

theorem FileStep.status (h : FileStep r r') (hinv : r.Inv) (hstatus : r.status ≠ 0) :
    r'.status = r.status ∨ r'.status = 3 := by
  by_cases hreplaced : r'.phase = .replaced
  · exact .inr (Recording.status_of_replaced hreplaced)
  · have hphase := h.phase.resolve_right hreplaced
    have hlost : r.heap.status ≠ 0 := by rwa [← Recording.status_of_recording hphase]
    refine .inl ?_
    rw [(hinv.step h).status_of_lost (h.lost hlost) hreplaced,
      hinv.status_of_lost hlost (by rw [hphase]; decide)]

theorem Recording.Inv.lasts (hinv : r.Inv) (hrun : Relation.ReflTransGen FileStep r r')
    (owner : UInt32) :
    r'.Inv ∧ Grows (r.file owner) (r'.file owner) ∧
      (r.status ≠ 0 → r'.status = r.status ∨ r'.status = 3) := by
  induction hrun with
  | refl => exact ⟨hinv, .refl _, fun _ => .inl rfl⟩
  | tail _ hstep ih =>
    obtain ⟨hmiddle, hgrows, hstatus⟩ := ih
    refine ⟨hmiddle.step hstep, hgrows.trans (hstep.grows owner), fun hne => ?_⟩
    rcases hstatus hne with hsame | hreplaced
    · rcases hstep.status hmiddle (by rwa [hsame]) with h | h
      · exact .inl (h.trans hsame)
      · exact .inr h
    · rcases hstep.status hmiddle (by rw [hreplaced]; decide) with h | h
      · exact .inr (h.trans hreplaced)
      · exact .inr h

theorem Step.withFile {s s' : State ThreadId} (h : Step s s') (body : List UInt8) :
    ∃ body', Relation.ReflTransGen FileStep
      ⟨s, body, none, .recording⟩ ⟨s', body', none, .recording⟩ := by
  by_cases hrecords : ∃ e written, Records s e written s'
  · obtain ⟨e, written, hrecords⟩ := hrecords
    obtain ⟨t, ht⟩ := hrecords.ready
    have hstart : FileStep ⟨s, body, none, .recording⟩ ⟨s, body, some (e, 0), .recording⟩ :=
      .start t e rfl rfl ht
    cases written with
    | true => exact ⟨_, .tail (.single hstart) (.written e 0 s' rfl rfl hrecords)⟩
    | false => exact ⟨_, .tail (.single hstart) (.failed e 0 s' rfl rfl hrecords)⟩
  · exact ⟨body, .single (.wrapper s' rfl h fun e written hr => hrecords ⟨e, written, hr⟩)⟩

theorem Recording.exists_reachable {s : State ThreadId} (h : Recorder.Reachable s) :
    ∃ body, (⟨s, body, none, .recording⟩ : Recording ThreadId).Reachable := by
  obtain ⟨chunks, hchunks, hrun⟩ := h
  induction hrun with
  | refl => exact ⟨[], chunks, hchunks, .refl⟩
  | tail _ hstep ih =>
    obtain ⟨body, chunks', hchunks', hfile⟩ := ih
    obtain ⟨body', hnext⟩ := hstep.withFile body
    exact ⟨body', chunks', hchunks', hfile.trans hnext⟩

/-- At every moment of a recording the file tells what has been recorded: while its status is 0
or 2 its complete records are the records of the log in order, and it is torn only while a record
is being written. A finished log is whole. What stands in the file stays, and once the status is
no longer 0 it changes only where another program takes the log over. -/
theorem file_is_log (h : r.Reachable) (owner : UInt32) :
    (r.status = 0 ∨ r.status = 2 →
      records (r.file owner) = r.heap.log ∧
        (Torn (r.file owner) ↔ ∃ e done, r.writing = some (e, done) ∧ 0 < done)) ∧
    (r.status = 2 → ¬Torn (r.file owner)) ∧
    ∀ r', Relation.ReflTransGen FileStep r r' →
      Grows (r.file owner) (r'.file owner) ∧
        (r.status ≠ 0 → r'.status = r.status ∨ r'.status = 3) := by
  have hinv := h.inv
  have hfile := fun hstatus => hinv.file owner (hinv.intact hstatus).1
  refine ⟨hfile, fun h2 htorn => ?_, fun r' hrun => (hinv.lasts hrun owner).2⟩
  obtain ⟨e, done, hw, -⟩ := (hfile (.inr h2)).2.mp htorn
  obtain ⟨h0, hreplaced⟩ := hinv.intact (.inr h2)
  have hfinished : r.phase = .finished := by
    cases hp : r.phase with
    | recording =>
      rw [Recording.status_of_recording hp, h0] at h2
      exact absurd h2 (by decide)
    | finished => rfl
    | replaced => exact absurd hp hreplaced
  rw [hinv.idle hfinished] at hw
  cases hw

end

theorem file_is_log_reused : ∃ body, records (headerBytes 7 0 ++ body) = reused.log := by
  obtain ⟨body, hbody⟩ := Recording.exists_reachable reused_reachable
  exact ⟨body, ((file_is_log hbody 7).1 (.inl rfl)).1⟩

end PProfessor.Recorder
