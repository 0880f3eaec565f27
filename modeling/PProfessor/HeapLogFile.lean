import PProfessor.ByteOrder
import PProfessor.Fallible
import PProfessor.HeapRecorder

set_option autoImplicit false

/-!
# Reading the allocation log while it grows

`LogReader::open` and `LogReader::snapshot` of `src/heap/linux.rs` down to the bytes of the file.
The recorder goes on writing during a call: every system call of the reader finds the file as it
is at an instant of its own.
-/
namespace PProfessor.Heap
open ByteOrder KeyedSum

/-- `word`: `u64::from_le_bytes(bytes[offset..offset + 8])`. -/
def word (bytes : List UInt8) (offset : ℕ) : UInt64 :=
  .ofNat (Order.little.read (cut bytes offset 8))

def wordBytes (w : UInt64) : List UInt8 := Order.little.write 8 w.toNat

/-- `RECORD`: kind, addresses, size and depth, and 64 return addresses. -/
def recordSize : ℕ := 69 * 8

def headerSize : ℕ := 32

def Event.decode (record : List UInt8) : Event where
  kind := word record 0
  address := word record 8
  oldAddress := word record 16
  size := word record 24
  depth := word record 32
  pcs := (List.range 64).map fun i => word record (40 + i * 8)

/-- What `write_all(fd, &e, sizeof(e))` writes. -/
def Event.bytes (e : Event) : List UInt8 :=
  ([e.kind, e.address, e.oldAddress, e.size, e.depth] ++ e.pcs).flatMap wordBytes

inductive SnapshotError where
  | unexpectedEof
  | unsupported
  | anotherPid
  | notPrivate
  | incomplete
  | noMappings
  | log (error : LogError)
  deriving DecidableEq, Repr

def SnapshotError.message : SnapshotError → String
  | .unexpectedEof => "failed to fill whole buffer"
  | .unsupported => "unsupported native allocation log"
  | .anotherPid => "allocation log belongs to another PID"
  | .notPrivate => "allocation log must be private and owned by the current user"
  | .incomplete => "target exited during an allocation record; heap capture is incomplete"
  | .noMappings => "reading recorded binary mappings"
  | .log error => error.message

def readExact (file : List UInt8) (position length : ℕ) : Except SnapshotError (List UInt8) :=
  if position + length ≤ file.length then .ok (cut file position length)
  else .error .unexpectedEof

/-- `struct LogReader`, and how many system calls it has made. -/
structure OpenLog where
  position : ℕ
  reader : LogReader
  clock : ℕ

/-- `b"PPHEAP01"`. -/
def logMagic : List UInt8 := [80, 80, 72, 69, 65, 80, 48, 49]

/-- `LogReader::open`; `isPrivate` is whether the file belongs to the user alone. -/
def openLog (file : ℕ → List UInt8) (pid : UInt32) (isPrivate : Bool) :
    Except SnapshotError OpenLog := do
  let header ← readExact (file 0) 0 headerSize
  if ¬(cut header 0 8 = logMagic ∧ word header 8 = 1) then
    throw .unsupported
  if word header 16 ≠ pid.toUInt64 then
    throw .anotherPid
  if isPrivate = false then
    throw .notPrivate
  return ⟨headerSize, .opened, 1⟩

def checkStatus (status : UInt64) : Except LogError Unit := do
  if status = 3 then
    throw .execReplaced
  if status = 1 then
    throw .lostEvents
  if ¬(status = 0 ∨ status = 2) then
    throw .invalidStatus

theorem checkStatus_ok {status : UInt64} (h : status = 0 ∨ status = 2) :
    checkStatus status = .ok () := by
  rcases h with rfl | rfl <;> rfl

def OpenLog.readRecords (file : ℕ → List UInt8) : ℕ → OpenLog → Except SnapshotError OpenLog
  | 0, s => .ok s
  | count + 1, s => do
    let record ← readExact (file s.clock) s.position recordSize
    let reader ← (s.reader.replayEvent (.decode record)).mapError .log
    readRecords file count ⟨s.position + recordSize, reader, s.clock + 1⟩

/-- One call of `snapshot`. `order` is the order of the live allocations and `now` the time, and
`name` is what the mappings and the symbols make of a frame, if the mappings can be read. -/
structure SnapshotCall where
  finalRead : Bool
  order : List (UInt64 × UInt64 × ℕ)
  now : ℤ
  name : Option (HeapFrame → HeapFrame)

/-- The rest of `snapshot`, which only reads the tracker. -/
def LogReader.profile (r : LogReader) (call : SnapshotCall) : Except SnapshotError HeapProfile := do
  let profile ← (r.tracker.snapshot call.order call.now).mapError (.log ∘ .tracker)
  match call.name with
  | none => .error .noMappings
  | some name => .ok { profile with
      samples := .ofList (profile.samples.toList.map fun s => (s.1.map name, s.2))
      comment := "Exact glibc system-allocator capture from recorder initialization. Bytes are " ++
        "malloc_usable_size block sizes. " ++ toString r.initialFrees ++
        " frees preceded recorded " ++
        "allocation history. Forked children and custom allocators are excluded." }

/-- `LogReader::snapshot`. -/
def OpenLog.snapshot (file : ℕ → List UInt8) (call : SnapshotCall) (s : OpenLog) :
    Except SnapshotError (HeapProfile × OpenLog) := do
  let offset := s.position
  let status ← readExact (file s.clock) 24 8
  (checkStatus (word status 0)).mapError .log
  let available := (file (s.clock + 1)).length - offset
  if call.finalRead = true ∧ available % recordSize ≠ 0 then
    throw .incomplete
  let s ← readRecords file (available / recordSize) ⟨offset, s.reader, s.clock + 2⟩
  let profile ← s.reader.profile call
  return (profile, s)

def OpenLog.snapshots (file : ℕ → List UInt8) (calls : List SnapshotCall) (s : OpenLog) :
    Except SnapshotError OpenLog :=
  calls.foldlM (fun s call => (s.snapshot file call).map Prod.snd) s

def record (file : List UInt8) (i : ℕ) : Event :=
  .decode (cut file (headerSize + recordSize * i) recordSize)

def recordCount (file : List UInt8) : ℕ := (file.length - headerSize) / recordSize

def records (file : List UInt8) : List Event := (List.range (recordCount file)).map (record file)

/-- The file ends within a record. -/
def Torn (file : List UInt8) : Prop := (file.length - headerSize) % recordSize ≠ 0

instance (file : List UInt8) : Decidable (Torn file) := inferInstanceAs (Decidable (_ ≠ _))

/-- The status may change; what stands behind the header stays, and more may follow it. -/
structure Grows (file later : List UInt8) : Prop where
  length : file.length ≤ later.length
  body : file.drop headerSize <+: later.drop headerSize

theorem Grows.refl (file : List UInt8) : Grows file file := ⟨Nat.le_refl _, List.prefix_refl _⟩

theorem Grows.trans {file later last : List UInt8} (h : Grows file later) (h' : Grows later last) :
    Grows file last := ⟨h.length.trans h'.length, h.body.trans h'.body⟩

theorem grows_of_le {file : ℕ → List UInt8} (hgrows : ∀ t, Grows (file t) (file (t + 1)))
    {t t' : ℕ} (h : t ≤ t') : Grows (file t) (file t') := by
  induction t', h using Nat.le_induction with
  | base => exact .refl _
  | succ t' _ ih => exact ih.trans (hgrows t')

theorem Grows.record_eq {file later : List UInt8} (h : Grows file later) {i : ℕ}
    (hi : headerSize + recordSize * (i + 1) ≤ file.length) : record later i = record file i := by
  have hsize : recordSize * (i + 1) = recordSize * i + recordSize := Nat.mul_succ ..
  have hcut (file : List UInt8) : cut file (headerSize + recordSize * i) recordSize =
      cut (file.drop headerSize) (recordSize * i) recordSize := by
    rw [cut, cut, List.drop_drop]
  obtain ⟨more, hmore⟩ := h.body
  rw [record, record, hcut later, ← hmore, cut_append_left, ← hcut]
  rw [List.length_drop]
  omega

/-! ## One pass -/

/-- The reader has replayed the first `n` records, and stands behind them. -/
structure OpenLog.At (file : List UInt8) (n : ℕ) (s : OpenLog) : Prop where
  position : s.position = headerSize + recordSize * n
  inside : headerSize + recordSize * n ≤ file.length
  replayed : ((List.range n).map (record file)).foldlM LogReader.replayEvent .opened = .ok s.reader

namespace OpenLog
variable {file : ℕ → List UInt8} {s s' : OpenLog} {n : ℕ}

theorem At.grows {file later : List UInt8} (h : s.At file n) (hgrows : Grows file later) :
    s.At later n where
  position := h.position
  inside := h.inside.trans hgrows.length
  replayed := by
    have hsame : (List.range n).map (record later) = (List.range n).map (record file) := by
      refine List.map_congr_left fun i hi => hgrows.record_eq ?_
      have hle := Nat.mul_le_mul_left recordSize (List.mem_range.mp hi)
      have hinside := h.inside
      rw [Nat.succ_eq_add_one] at hle
      omega
    rw [hsame]
    exact h.replayed

theorem at_open {pid : UInt32} {isPrivate : Bool} (h : openLog file pid isPrivate = .ok s) :
    s.At (file 0) 0 ∧ s.clock = 1 := by
  unfold openLog readExact at h
  by_cases hlength : 0 + headerSize ≤ (file 0).length
  · rw [if_pos hlength] at h
    simp only [bind, Except.bind, pure, Except.pure, throw, throwThe, MonadExceptOf.throw] at h
    split_ifs at h
    cases h
    rw [Nat.zero_add] at hlength
    exact ⟨⟨rfl, hlength, rfl⟩, rfl⟩
  · rw [if_neg hlength] at h
    cases h

/-- Reading on in a file that holds the records at least since `F`. -/
theorem At.readRecords {F : List UInt8} (hgrows : ∀ t, s.clock ≤ t → Grows F (file t))
    (h : s.At F n) {count : ℕ} (hcount : headerSize + recordSize * (n + count) ≤ F.length)
    (hread : readRecords file count s = .ok s') :
    s'.At F (n + count) ∧ s'.clock = s.clock + count := by
  induction count generalizing s n with
  | zero =>
    cases hread
    exact ⟨h, rfl⟩
  | succ count ih =>
    have hnow := hgrows s.clock (Nat.le_refl _)
    have hsize : recordSize * (n + 1) = recordSize * n + recordSize := Nat.mul_succ ..
    have hle : recordSize * (n + 1) ≤ recordSize * (n + (count + 1)) :=
      Nat.mul_le_mul_left _ (by omega)
    have hinside : headerSize + recordSize * (n + 1) ≤ F.length := by omega
    have hlength := hnow.length
    have hrecord : readExact (file s.clock) s.position recordSize =
        .ok (cut (file s.clock) (headerSize + recordSize * n) recordSize) := by
      rw [readExact, h.position, if_pos (by omega)]
    have hevent : Event.decode (cut (file s.clock) (headerSize + recordSize * n) recordSize) =
        record F n := hnow.record_eq hinside
    rw [OpenLog.readRecords, hrecord] at hread
    simp only [bind, Except.bind, hevent] at hread
    cases hreplay : s.reader.replayEvent (record F n) with
    | error error =>
      rw [hreplay] at hread
      cases hread
    | ok reader =>
      rw [hreplay] at hread
      have hnext : OpenLog.At F (n + 1) ⟨s.position + recordSize, reader, s.clock + 1⟩ := by
        refine ⟨?_, hinside, ?_⟩
        · rw [h.position, hsize, Nat.add_assoc]
        · rw [List.range_succ, List.map_append, List.foldlM_append, h.replayed]
          simp only [bind, Except.bind, List.map_cons, List.map_nil, List.foldlM_cons, hreplay,
            List.foldlM_nil, pure, Except.pure]
      have hsum : n + 1 + count = n + (count + 1) := by omega
      have hrest : headerSize + recordSize * (n + 1 + count) ≤ F.length :=
        le_of_eq_of_le (congrArg (fun m => headerSize + recordSize * m) hsum) hcount
      obtain ⟨hat, hclock⟩ := ih (fun t ht => hgrows t ((Nat.le_succ _).trans ht)) hnext hrest hread
      rw [hsum] at hat
      exact ⟨hat, hclock.trans (Nat.add_right_comm ..)⟩

theorem At.available {F later : List UInt8} (h : s.At F n) (hgrows : Grows F later) :
    (later.length - s.position) / recordSize = recordCount later - n ∧
      n ≤ recordCount later ∧
      (later.length - s.position) % recordSize = (later.length - headerSize) % recordSize := by
  have hinside := h.inside
  have hlength := hgrows.length
  have hle : recordSize * n ≤ later.length - headerSize := by omega
  rw [h.position, ← Nat.sub_sub, Nat.sub_mul_div, Nat.sub_mul_mod hle]
  exact ⟨rfl, (Nat.le_div_iff_mul_le (by decide)).mpr (by rwa [Nat.mul_comm]), rfl⟩

/-- What one call of `snapshot` has done when it returns. -/
theorem At.snapshot (hgrows : ∀ t, Grows (file t) (file (t + 1))) (h : s.At (file s.clock) n)
    {call : SnapshotCall} {profile : HeapProfile}
    (hcall : s.snapshot file call = .ok (profile, s')) :
    s'.At (file (s.clock + 1)) (recordCount (file (s.clock + 1))) ∧ s.clock + 2 ≤ s'.clock ∧
      (call.finalRead = true → ¬Torn (file (s.clock + 1))) := by
  obtain ⟨hdiv, hle, hmod⟩ := h.available (hgrows s.clock)
  unfold OpenLog.snapshot at hcall
  simp only [bind, Except.bind, pure, Except.pure, throw, throwThe, MonadExceptOf.throw, hdiv,
    hmod] at hcall
  split at hcall
  · cases hcall
  split at hcall
  · cases hcall
  split_ifs at hcall with htorn
  split at hcall
  · cases hcall
  rename_i hread
  split at hcall
  · cases hcall
  cases hcall
  have hstart : OpenLog.At (file (s.clock + 1)) n ⟨s.position, s.reader, s.clock + 2⟩ :=
    let h' := h.grows (hgrows s.clock)
    ⟨h'.position, h'.inside, h'.replayed⟩
  have hcount : n + (recordCount (file (s.clock + 1)) - n) = recordCount (file (s.clock + 1)) :=
    Nat.add_sub_cancel' hle
  have hinside : headerSize + recordSize * recordCount (file (s.clock + 1)) ≤
      (file (s.clock + 1)).length := by
    have hmul := Nat.mul_div_le ((file (s.clock + 1)).length - headerSize) recordSize
    have hheader := hstart.inside
    rw [recordCount]
    omega
  have hlater : ∀ t, s.clock + 2 ≤ t → Grows (file (s.clock + 1)) (file t) := fun t ht =>
    grows_of_le hgrows (by omega)
  obtain ⟨hat, hclock⟩ := hstart.readRecords hlater (by rwa [hcount]) hread
  rw [hcount] at hat
  change s'.clock = s.clock + 2 + _ at hclock
  exact ⟨hat, by omega, fun hfinal ht => htorn ⟨hfinal, ht⟩⟩

theorem At.snapshots (hgrows : ∀ t, Grows (file t) (file (t + 1))) (h : s.At (file s.clock) n)
    {calls : List SnapshotCall} (hrun : s.snapshots file calls = .ok s') :
    ∃ n', s'.At (file s'.clock) n' := by
  induction calls generalizing s n with
  | nil =>
    cases hrun
    exact ⟨n, h⟩
  | cons call calls ih =>
    rw [OpenLog.snapshots, List.foldlM_cons] at hrun
    cases hcall : s.snapshot file call with
    | error error =>
      rw [hcall] at hrun
      cases hrun
    | ok result =>
      obtain ⟨profile, s₁⟩ := result
      rw [hcall] at hrun
      obtain ⟨hat, hclock, -⟩ := h.snapshot hgrows hcall
      exact ih (hat.grows (grows_of_le hgrows (by omega))) hrun

theorem readRecords_error {count : ℕ} {error : SnapshotError}
    (h : readRecords file count s = .error error) : error ≠ .incomplete := by
  induction count generalizing s with
  | zero => cases h
  | succ count ih =>
    rw [OpenLog.readRecords, readExact] at h
    split_ifs at h
    · cases hreplay : s.reader.replayEvent
          (.decode (cut (file s.clock) s.position recordSize)) with
      | error refused =>
        simp only [bind, Except.bind, hreplay] at h
        cases h
        exact nofun
      | ok reader =>
        simp only [bind, Except.bind, hreplay] at h
        exact ih h
    · cases h
      exact nofun

theorem profile_error {r : LogReader} {call : SnapshotCall} {error : SnapshotError}
    (h : r.profile call = .error error) : error ≠ .incomplete := by
  unfold LogReader.profile at h
  cases htracker : r.tracker.snapshot call.order call.now with
  | error refused =>
    rw [htracker] at h
    cases h
    exact nofun
  | ok profile =>
    rw [htracker] at h
    cases hname : call.name with
    | none =>
      simp only [hname, bind, Except.bind, Except.mapError] at h
      cases h
      exact nofun
    | some name =>
      simp only [hname, bind, Except.bind, Except.mapError] at h
      cases h

/-- A torn record makes the last read fail, and no other. -/
theorem At.torn (hgrows : ∀ t, Grows (file t) (file (t + 1))) (h : s.At (file s.clock) n)
    (call : SnapshotCall) :
    (call.finalRead = true → Torn (file (s.clock + 1)) →
      word (file s.clock) 24 = 0 ∨ word (file s.clock) 24 = 2 →
        s.snapshot file call = .error .incomplete) ∧
    (call.finalRead = false → s.snapshot file call ≠ .error .incomplete) := by
  have hinside := h.inside
  have hheader : 24 + 8 ≤ (file s.clock).length := le_trans (Nat.le_add_right headerSize _) hinside
  have hstatus : word (cut (file s.clock) 24 8) 0 = word (file s.clock) 24 := by
    rw [word, word, cut_cut (by omega)]
  constructor
  · intro hfinal htorn hknown
    have hok := checkStatus_ok hknown
    unfold OpenLog.snapshot
    rw [readExact, if_pos hheader]
    simp only [bind, Except.bind, hstatus, hok, Except.mapError]
    rw [if_pos ⟨hfinal, by rwa [(h.available (hgrows s.clock)).2.2]⟩]
    rfl
  · intro hfinal hcall
    unfold OpenLog.snapshot at hcall
    simp only [bind, Except.bind, pure, Except.pure, throw, throwThe, MonadExceptOf.throw, hfinal,
      Bool.false_eq_true, false_and, if_false] at hcall
    split at hcall
    · rename_i heof
      unfold readExact at heof
      split_ifs at heof
    split at hcall
    · rename_i hchecked
      cases hcheck : checkStatus (word _ 0) with
      | error refused =>
        rw [hcheck] at hchecked
        cases hchecked
        cases hcall
      | ok u =>
        rw [hcheck] at hchecked
        cases hchecked
    split at hcall
    · rename_i hread
      cases hcall
      exact readRecords_error hread rfl
    split at hcall
    · rename_i hprofile
      cases hcall
      exact profile_error hprofile rfl
    · cases hcall

end OpenLog

theorem length_wordBytes (w : UInt64) : (wordBytes w).length = 8 := Order.little.length_write 8 _

theorem Event.length_bytes {e : Event} (h : e.pcs.length = 64) : e.bytes.length = recordSize := by
  rw [bytes, length_flatMap wordBytes fun w _ => length_wordBytes w, List.length_append, h]
  rfl

theorem word_flatMap {words : List UInt64} {i : ℕ} {w : UInt64} (h : words[i]? = some w) :
    word (words.flatMap wordBytes) (8 * i) = w := by
  have hcut := cut_flatMap wordBytes (fun w _ => length_wordBytes w) [] h
  rw [List.append_nil] at hcut
  rw [word, hcut, wordBytes, Order.read_write _ w.toNat_lt, UInt64.ofNat_toNat]

theorem Event.decode_bytes {e : Event} (h : e.pcs.length = 64) : decode e.bytes = e := by
  have hpcs : ((List.range 64).map fun i => word e.bytes (40 + i * 8)) = e.pcs := by
    refine List.ext_getElem (by rw [List.length_map, List.length_range, h]) fun i hi hi' => ?_
    rw [List.getElem_map, List.getElem_range]
    have hword : ([e.kind, e.address, e.oldAddress, e.size, e.depth] ++ e.pcs)[5 + i]? =
        some e.pcs[i] := by
      rw [List.getElem?_append_right (Nat.le_add_right 5 i)]
      change e.pcs[5 + i - 5]? = _
      rw [Nat.add_sub_cancel_left, List.getElem?_eq_getElem hi']
    rw [← word_flatMap hword, Nat.mul_add, Nat.mul_comm i]
    rfl
  have hkind : word e.bytes 0 = e.kind := word_flatMap (i := 0) rfl
  have haddress : word e.bytes 8 = e.address := word_flatMap (i := 1) rfl
  have hold : word e.bytes 16 = e.oldAddress := word_flatMap (i := 2) rfl
  have hsize : word e.bytes 24 = e.size := word_flatMap (i := 3) rfl
  have hdepth : word e.bytes 32 = e.depth := word_flatMap (i := 4) rfl
  rw [decode, hkind, haddress, hold, hsize, hdepth, hpcs]

theorem records_written {header partly : List UInt8} {events : List Event}
    (hheader : header.length = headerSize) (hevents : ∀ e ∈ events, e.pcs.length = 64)
    (hpartly : partly.length < recordSize) :
    records (header ++ (events.flatMap Event.bytes ++ partly)) = events := by
  have hbytes : ∀ e ∈ events, e.bytes.length = recordSize := fun e he =>
    Event.length_bytes (hevents e he)
  have hcount : recordCount (header ++ (events.flatMap Event.bytes ++ partly)) = events.length := by
    rw [recordCount, List.length_append, List.length_append, hheader, Nat.add_sub_cancel_left,
      length_flatMap Event.bytes hbytes, Nat.mul_add_div (by decide), Nat.div_eq_of_lt hpartly,
      Nat.add_zero]
  rw [records, hcount]
  refine List.ext_getElem (by rw [List.length_map, List.length_range]) fun i hi hi' => ?_
  rw [List.getElem_map, List.getElem_range, record, ← hheader, cut_append_right,
    cut_flatMap Event.bytes hbytes partly (List.getElem?_eq_getElem hi')]
  exact Event.decode_bytes (hevents _ (List.getElem_mem hi'))

/-! ## What a call makes of the log -/

theorem mapError_eq_ok {ε ε' α : Type} {f : ε → ε'} {x : Except ε α} {a : α}
    (h : x.mapError f = .ok a) : x = .ok a := by
  cases x with
  | error e => cases h
  | ok b =>
    cases h
    rfl

/-- The part of `snapshot` that reads the log. -/
def OpenLog.advance (file : ℕ → List UInt8) (finalRead : Bool) (s : OpenLog) :
    Except SnapshotError OpenLog := do
  let offset := s.position
  let status ← readExact (file s.clock) 24 8
  (checkStatus (word status 0)).mapError .log
  let available := (file (s.clock + 1)).length - offset
  if finalRead = true ∧ available % recordSize ≠ 0 then
    throw .incomplete
  readRecords file (available / recordSize) ⟨offset, s.reader, s.clock + 2⟩

theorem OpenLog.snapshot_eq (file : ℕ → List UInt8) (call : SnapshotCall) (s : OpenLog) :
    s.snapshot file call = (s.advance file call.finalRead >>= fun s =>
      s.reader.profile call >>= fun profile => pure (profile, s)) := by
  unfold snapshot advance
  cases readExact (file s.clock) 24 8 with
  | error e => rfl
  | ok status =>
    simp only [Fallible.ok_bind]
    cases (checkStatus (word status 0)).mapError SnapshotError.log with
    | error e => rfl
    | ok u =>
      simp only [Fallible.ok_bind]
      split_ifs
      · rfl
      · rfl

theorem LogReader.Knows.profile_returns {r : LogReader} {blocks : List Block} (h : r.Knows blocks)
    {order : List (UInt64 × UInt64 × ℕ)} (ho : Enumerates order r.tracker.live) (finalRead : Bool)
    (now : ℤ) (name : HeapFrame → HeapFrame) :
    ∃ profile, r.profile ⟨finalRead, order, now, some name⟩ = .ok profile := by
  obtain ⟨done, haccounts, -⟩ := h
  obtain ⟨tracked, htracked, -⟩ := haccounts.snapshot ho now
  unfold LogReader.profile
  rw [htracked]
  exact ⟨_, rfl⟩

theorem LogReader.Knows.profile_unnamed {r : LogReader} {blocks : List Block} (h : r.Knows blocks)
    {order : List (UInt64 × UInt64 × ℕ)} (ho : Enumerates order r.tracker.live) (finalRead : Bool)
    (now : ℤ) : r.profile ⟨finalRead, order, now, none⟩ = .error .noMappings := by
  obtain ⟨done, haccounts, -⟩ := h
  obtain ⟨tracked, htracked, -⟩ := haccounts.snapshot ho now
  unfold LogReader.profile
  rw [htracked]
  rfl

section Advance
variable {file : ℕ → List UInt8}

theorem checkStatus_known {status : UInt64} {u : Unit} (h : checkStatus status = .ok u) :
    status = 0 ∨ status = 2 := by
  unfold checkStatus at h
  simp only [bind, Except.bind, pure, Except.pure, throw, throwThe, MonadExceptOf.throw] at h
  split_ifs at h with _ _ hknown
  exact hknown

theorem OpenLog.advance_status {s s' : OpenLog} {finalRead : Bool}
    (h : s.advance file finalRead = .ok s') (hheader : headerSize ≤ (file s.clock).length) :
    word (file s.clock) 24 = 0 ∨ word (file s.clock) 24 = 2 := by
  unfold advance at h
  obtain ⟨status, hstatus, h⟩ := Fallible.bind_eq_ok.mp h
  obtain ⟨u, hu, -⟩ := Fallible.bind_eq_ok.mp h
  have hinside : 24 + 8 ≤ (file s.clock).length := hheader
  rw [readExact, if_pos hinside] at hstatus
  have hword : word (cut (file s.clock) 24 8) 0 = word (file s.clock) 24 := by
    rw [word, word, cut_cut (by omega)]
  rw [← hword]
  rw [← Except.ok.inj hstatus] at hu
  exact checkStatus_known (mapError_eq_ok hu)

theorem OpenLog.At.readRecords_reader {F : List UInt8} {s : OpenLog} {n : ℕ}
    (hgrows : ∀ t, s.clock ≤ t → Grows F (file t))
    (hposition : s.position = headerSize + recordSize * n) (count : ℕ)
    (hcount : headerSize + recordSize * (n + count) ≤ F.length) :
    (OpenLog.readRecords file count s).map OpenLog.reader =
      (((List.range' n count).map (record F)).foldlM LogReader.replayEvent s.reader).mapError
        .log := by
  induction count generalizing s n with
  | zero => rfl
  | succ count ih =>
    have hsize : recordSize * (n + 1) = recordSize * n + recordSize := Nat.mul_succ ..
    have hle : recordSize * (n + 1) ≤ recordSize * (n + (count + 1)) :=
      Nat.mul_le_mul_left _ (by omega)
    have hnow := hgrows s.clock (Nat.le_refl _)
    have hlength := hnow.length
    have hinside : headerSize + recordSize * (n + 1) ≤ F.length := by omega
    have hread : readExact (file s.clock) s.position recordSize =
        .ok (cut (file s.clock) (headerSize + recordSize * n) recordSize) := by
      rw [readExact, hposition, if_pos (by omega)]
    have hevent : Event.decode (cut (file s.clock) (headerSize + recordSize * n) recordSize) =
        record F n := hnow.record_eq hinside
    rw [OpenLog.readRecords, hread, Fallible.ok_bind, hevent, List.range'_succ, List.map_cons,
      List.foldlM_cons]
    cases hreplay : s.reader.replayEvent (record F n) with
    | error e => simp only [Except.mapError, bind, Except.bind, Except.map]
    | ok reader =>
      have hsum : n + 1 + count = n + (count + 1) := by omega
      have hrest := @ih ⟨s.position + recordSize, reader, s.clock + 1⟩ (n + 1)
        (fun t ht => hgrows t ((Nat.le_succ _).trans ht)) (by rw [hposition, hsize, Nat.add_assoc])
        (le_of_eq_of_le (congrArg (fun m => headerSize + recordSize * m) hsum) hcount)
      simp only [Except.mapError, Fallible.ok_bind]
      exact hrest

/-- What the reader makes of the log is what one pass over its complete records makes of it. -/
theorem OpenLog.At.advance_reader {s : OpenLog} {n : ℕ} {finalRead : Bool}
    (hgrows : ∀ t, Grows (file t) (file (t + 1))) (h : s.At (file s.clock) n)
    (hstatus : word (file s.clock) 24 = 0 ∨ word (file s.clock) 24 = 2)
    (hwhole : ¬(finalRead = true ∧ Torn (file (s.clock + 1)))) :
    (s.advance file finalRead).map OpenLog.reader =
      (LogReader.opened.replay 0 (records (file (s.clock + 1)))).mapError .log := by
  obtain ⟨hdiv, hle, hmod⟩ := h.available (hgrows s.clock)
  have hheader : 24 + 8 ≤ (file s.clock).length := le_trans (Nat.le_add_right headerSize _) h.inside
  have hword : word (cut (file s.clock) 24 8) 0 = word (file s.clock) 24 := by
    rw [word, word, cut_cut (by omega)]
  have hchecked : (checkStatus (word (cut (file s.clock) 24 8) 0)).mapError SnapshotError.log =
      .ok () := by
    rw [hword, checkStatus_ok hstatus]
    rfl
  have hlater := h.grows (hgrows s.clock)
  have hcount : n + (recordCount (file (s.clock + 1)) - n) = recordCount (file (s.clock + 1)) :=
    Nat.add_sub_cancel' hle
  have hinside : headerSize + recordSize * recordCount (file (s.clock + 1)) ≤
      (file (s.clock + 1)).length := by
    have hmul := Nat.mul_div_le ((file (s.clock + 1)).length - headerSize) recordSize
    have hsize := hlater.inside
    rw [recordCount]
    omega
  unfold Torn at hwhole
  unfold advance
  dsimp only
  rw [readExact, if_pos hheader, Fallible.ok_bind, hchecked, Fallible.ok_bind, hmod, hdiv,
    if_neg hwhole]
  have hread := @readRecords_reader file (file (s.clock + 1)) ⟨s.position, s.reader, s.clock + 2⟩ n
    (fun t ht => grows_of_le hgrows (Nat.le_of_succ_le ht)) h.position
    (recordCount (file (s.clock + 1)) - n) (by rwa [hcount])
  refine hread.trans ?_
  · have hsplit : List.range (recordCount (file (s.clock + 1))) =
        List.range n ++ List.range' n (recordCount (file (s.clock + 1)) - n) := by
      have happend := @List.range'_append_1 0 n (recordCount (file (s.clock + 1)) - n)
      rw [Nat.zero_add, hcount] at happend
      rw [List.range_eq_range', List.range_eq_range', happend]
    rw [LogReader.replay_zero, records, hsplit, List.map_append, List.foldlM_append,
      hlater.replayed, Fallible.ok_bind]

theorem OpenLog.At.advance_returns {s : OpenLog} {n : ℕ} {finalRead : Bool}
    (hgrows : ∀ t, Grows (file t) (file (t + 1))) (h : s.At (file s.clock) n)
    (hstatus : word (file s.clock) 24 = 0 ∨ word (file s.clock) 24 = 2)
    (hwhole : ¬(finalRead = true ∧ Torn (file (s.clock + 1)))) {r : LogReader}
    (hreplay : LogReader.opened.replay 0 (records (file (s.clock + 1))) = .ok r) :
    ∃ s', s.advance file finalRead = .ok s' ∧ s'.reader = r := by
  have hread := h.advance_reader hgrows hstatus hwhole
  rw [hreplay] at hread
  cases hadvance : s.advance file finalRead with
  | error e =>
    rw [hadvance] at hread
    cases hread
  | ok s' =>
    rw [hadvance] at hread
    cases hread
    exact ⟨s', rfl, rfl⟩

theorem OpenLog.At.snapshot_returns {s : OpenLog} {n : ℕ}
    (hgrows : ∀ t, Grows (file t) (file (t + 1))) (h : s.At (file s.clock) n)
    (hstatus : word (file s.clock) 24 = 0 ∨ word (file s.clock) 24 = 2) {call : SnapshotCall}
    (hwhole : ¬(call.finalRead = true ∧ Torn (file (s.clock + 1)))) {r : LogReader}
    (hreplay : LogReader.opened.replay 0 (records (file (s.clock + 1))) = .ok r)
    {profile : HeapProfile} (hprofile : r.profile call = .ok profile) :
    ∃ s', s.advance file call.finalRead = .ok s' ∧ s'.reader = r ∧
      s.snapshot file call = .ok (profile, s') := by
  obtain ⟨s', hadvance, rfl⟩ := h.advance_returns hgrows hstatus hwhole hreplay
  refine ⟨s', hadvance, rfl, ?_⟩
  rw [OpenLog.snapshot_eq, hadvance, Fallible.ok_bind, hprofile]
  rfl

end Advance

/-- Incremental reading is one pass: while the log grows and after any calls that have returned,
a call that returns has replayed the complete records of the file as it found it, each once and
in order, and stands behind the last of them. Bytes of a torn record make it fail if it is the
last read, and otherwise they are left. -/
theorem snapshots_read_once {file : ℕ → List UInt8}
    (hgrows : ∀ t, Grows (file t) (file (t + 1))) {pid : UInt32} {isPrivate : Bool}
    {start s : OpenLog} (hopen : openLog file pid isPrivate = .ok start)
    {calls : List SnapshotCall} (hrun : start.snapshots file calls = .ok s) (call : SnapshotCall) :
    (∀ profile s', s.snapshot file call = .ok (profile, s') →
      LogReader.opened.replay 0 (records (file (s.clock + 1))) = .ok s'.reader ∧
      s'.position = headerSize + recordSize * (records (file (s.clock + 1))).length) ∧
    (call.finalRead = true → Torn (file (s.clock + 1)) →
      word (file s.clock) 24 = 0 ∨ word (file s.clock) 24 = 2 →
        s.snapshot file call = .error .incomplete) ∧
    (call.finalRead = false → s.snapshot file call ≠ .error .incomplete) := by
  obtain ⟨hstart, hclock⟩ := OpenLog.at_open hopen
  obtain ⟨n, hat⟩ := (hstart.grows (grows_of_le hgrows (Nat.zero_le _))).snapshots hgrows hrun
  refine ⟨fun profile s' hcall => ?_, hat.torn hgrows call⟩
  obtain ⟨hread, -, -⟩ := hat.snapshot hgrows hcall
  refine ⟨hread.replayed, ?_⟩
  rw [hread.position, records, List.length_map, List.length_range]

def oneBlock : Event := ⟨1, 16, 0, 8, 1, 5 :: List.replicate 63 0⟩

def blockFreed : Event := ⟨2, 16, 0, 0, 0, List.replicate 64 0⟩

def growingLog (t : ℕ) : List UInt8 :=
  (logMagic ++ [1, 7, 0].flatMap wordBytes) ++
    ([oneBlock, blockFreed].flatMap Event.bytes).take (300 * t)

theorem growingLog_grows (t : ℕ) : Grows (growingLog t) (growingLog (t + 1)) := by
  have hprefix := List.take_prefix_take_left (l := [oneBlock, blockFreed].flatMap Event.bytes)
    (Nat.mul_le_mul_left 300 (Nat.le_succ t))
  exact ⟨((List.prefix_append_right_inj _).mpr hprefix).length_le, hprefix⟩

theorem growingLog_status (t : ℕ) : word (growingLog t) 24 = 0 := by
  have hword := cut_flatMap wordBytes (fun w _ => length_wordBytes w)
    (([oneBlock, blockFreed].flatMap Event.bytes).take (300 * t))
    (rfl : ([1, 7, 0] : List UInt64)[2]? = some 0)
  have hcut : cut (growingLog t) (logMagic.length + 8 * 2) 8 = wordBytes 0 := by
    rw [growingLog, List.append_assoc, cut_append_right, hword]
  have hinstant : word (growingLog t) 24 =
      .ofNat (Order.little.read (cut (growingLog t) (logMagic.length + 8 * 2) 8)) := rfl
  rw [hinstant, hcut]
  rfl

theorem growingLog_wide : ∀ e ∈ [oneBlock, blockFreed], e.pcs.length = 64 := by
  rw [List.forall_mem_cons, List.forall_mem_singleton]
  exact ⟨rfl, rfl⟩

theorem growingLog_one {t : ℕ} (hlow : 2 ≤ t) (hhigh : t < 4) :
    records (growingLog t) = [oneBlock] := by
  have hbytes : oneBlock.bytes.length = 552 := Event.length_bytes rfl
  have htake : ([oneBlock, blockFreed].flatMap Event.bytes).take (300 * t) =
      [oneBlock].flatMap Event.bytes ++ blockFreed.bytes.take (300 * t - 552) := by
    rw [List.flatMap_cons, List.take_append, hbytes, List.flatMap_singleton,
      List.take_of_length_le (by omega), List.flatMap_singleton]
  rw [growingLog, htake]
  refine records_written rfl (fun e he => by rw [List.mem_singleton.mp he]; rfl) ?_
  rw [List.length_take]
  change _ < 552
  omega

theorem growingLog_both {t : ℕ} (ht : 4 ≤ t) :
    records (growingLog t) = [oneBlock, blockFreed] := by
  have hwhole : ([oneBlock, blockFreed].flatMap Event.bytes).take (300 * t) =
      [oneBlock, blockFreed].flatMap Event.bytes ++ [] := by
    have hlength : ([oneBlock, blockFreed].flatMap Event.bytes).length = 2 * recordSize :=
      length_flatMap Event.bytes fun e he => Event.length_bytes (growingLog_wide e he)
    rw [List.take_of_length_le (by rw [hlength, recordSize]; omega), List.append_nil]
  rw [growingLog, hwhole]
  exact records_written rfl growingLog_wide (by decide)

theorem growingLog_whole {t : ℕ} (ht : 4 ≤ t) : ¬Torn (growingLog t) := by
  have hlength : ([oneBlock, blockFreed].flatMap Event.bytes).length = 2 * recordSize :=
    length_flatMap Event.bytes fun e he => Event.length_bytes (growingLog_wide e he)
  rw [Torn, growingLog, List.take_of_length_le (by rw [hlength, recordSize]; omega),
    List.length_append, hlength]
  decide

theorem growingLog_torn : Torn (growingLog 2) := by
  have hlength : ([oneBlock, blockFreed].flatMap Event.bytes).length = 2 * recordSize :=
    length_flatMap Event.bytes fun e he => Event.length_bytes (growingLog_wide e he)
  have htake : (([oneBlock, blockFreed].flatMap Event.bytes).take (300 * 2)).length = 600 := by
    rw [List.length_take, hlength]
    rfl
  rw [Torn, growingLog, List.length_append, htake]
  decide

theorem growingLog_replays : ∃ r r' : LogReader,
    LogReader.opened.replay 0 [oneBlock] = .ok r ∧ r.Knows oneBlock.blocks ∧
      LogReader.opened.replay 0 [oneBlock, blockFreed] = .ok r' ∧ r'.Knows oneBlock.blocks := by
  obtain ⟨r, hr, hknows, -, -⟩ := (LogReader.opened_knows.replayEvent
    (⟨by decide, by decide⟩ : oneBlock.Known) fun _ => .inr (LogReader.opened_live _)).resolve_right
      fun h => h.2 (by decide)
  obtain ⟨r', hr', hknows', -, -⟩ := (hknows.replayEvent
    (⟨by decide, by decide⟩ : blockFreed.Known) fun h => absurd rfl h).resolve_right
      fun h => h.2 (by decide)
  have hone : LogReader.opened.replay 0 [oneBlock] = .ok r := by
    rw [LogReader.replay_zero, List.foldlM_cons, hr]
    rfl
  have hboth : LogReader.opened.replay 0 [oneBlock, blockFreed] = .ok r' := by
    rw [LogReader.replay_zero, List.foldlM_cons, hr, Fallible.ok_bind, List.foldlM_cons, hr']
    rfl
  exact ⟨r, r', hone, hknows, hboth, hknows'⟩

set_option maxRecDepth 4000 in
theorem growingLog_opens : openLog growingLog 7 true = .ok ⟨headerSize, .opened, 1⟩ := rfl

/-- A last read at once finds the second record torn. Two reads one after the other find one
record each. -/
theorem snapshots_read_once_growingLog :
    (⟨headerSize, .opened, 1⟩ : OpenLog).snapshot growingLog ⟨true, [], 0, none⟩ =
      .error .incomplete ∧
    ∃ c c' s profile s', (⟨headerSize, .opened, 1⟩ : OpenLog).snapshots growingLog [c] = .ok s ∧
      s.position = headerSize + recordSize ∧ s.snapshot growingLog c' = .ok (profile, s') ∧
      LogReader.opened.replay 0 [oneBlock, blockFreed] = .ok s'.reader ∧
      s'.position = headerSize + recordSize * 2 := by
  have hopen := growingLog_opens
  have hgrows := growingLog_grows
  have hstatus (t : ℕ) : word (growingLog t) 24 = 0 ∨ word (growingLog t) 24 = 2 :=
    .inl (growingLog_status t)
  refine ⟨(@snapshots_read_once growingLog hgrows 7 true _ _ hopen [] rfl
    ⟨true, [], 0, none⟩).2.1 rfl growingLog_torn (hstatus _), ?_⟩
  obtain ⟨r, r', hr, hknows, hr', hknows'⟩ := growingLog_replays
  obtain ⟨order, horder⟩ := Enumerates.exists_order r.tracker.live
  obtain ⟨order', horder'⟩ := Enumerates.exists_order r'.tracker.live
  obtain ⟨profile, hprofile⟩ := hknows.profile_returns horder false 0 id
  obtain ⟨profile', hprofile'⟩ := hknows'.profile_returns horder' false 0 id
  have hat : OpenLog.At (growingLog (OpenLog.mk headerSize .opened 1).clock) 0
      ⟨headerSize, .opened, 1⟩ := (OpenLog.at_open hopen).1.grows (hgrows 0)
  -- The first call asks for the length at 2, the second one from 4 on.
  have hfirst : records (growingLog ((OpenLog.mk headerSize .opened 1).clock + 1)) = [oneBlock] :=
    growingLog_one (Nat.le_refl 2) (by decide)
  obtain ⟨s, -, -, hcall⟩ := hat.snapshot_returns hgrows (hstatus _)
    (fun h => Bool.false_ne_true h.1) ((congrArg _ hfirst).trans hr) hprofile
  obtain ⟨hnext, hclock, -⟩ := hat.snapshot hgrows hcall
  have hsecond := growingLog_both (t := s.clock + 1) (Nat.succ_le_succ hclock)
  obtain ⟨s', -, -, hcall'⟩ := (hnext.grows (grows_of_le hgrows
      ((Nat.le_succ _).trans hclock))).snapshot_returns hgrows (hstatus _)
    (fun h => Bool.false_ne_true h.1) ((congrArg _ hsecond).trans hr') hprofile'
  have hrun : (⟨headerSize, .opened, 1⟩ : OpenLog).snapshots growingLog
      [⟨false, order, 0, some id⟩] = .ok s := by
    rw [OpenLog.snapshots, List.foldlM_cons, hcall]
    rfl
  have hread := (snapshots_read_once hgrows hopen hrun ⟨false, order', 0, some id⟩).1 _ _ hcall'
  rw [hsecond] at hread
  have hone := congrArg List.length hfirst
  rw [records, List.length_map, List.length_range] at hone
  have hposition := hnext.position
  rw [hone] at hposition
  exact ⟨_, _, s, profile', s', hrun, hposition, hcall', hread⟩

end PProfessor.Heap
