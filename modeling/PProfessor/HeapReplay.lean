import PProfessor.HeapRecorder

set_option autoImplicit false

/-!
# The log replays to the heap

Under every schedule of the threads, the reader's live allocations are the
allocated blocks whose allocation was recorded.
-/
namespace PProfessor.Recorder
open Heap KeyedSum

theorem record_known (kind p old size : UInt64) (trace : List UInt64)
    (hkind : 1 ≤ kind ∧ kind ≤ 3) : (record kind p old size trace).Known := by
  refine ⟨hkind, ?_⟩
  have hlength : ∀ pcs : List UInt64, pcs.length ≤ 64 → UInt64.ofNat pcs.length ≤ 64 := by
    intro pcs h
    rw [UInt64.le_iff_toNat_le, UInt64.toNat_ofNat', Nat.mod_eq_of_lt (by omega)]
    exact h
  apply hlength
  split_ifs
  · rw [List.length_drop, List.length_take]
    omega
  · exact Nat.zero_le _

/-- What a call that returns `p` has freed. -/
def LibcCall.freed (p : UInt64) : LibcCall → Option UInt64
  | .free q => some q
  | .realloc old size => if p ≠ 0 ∨ size = 0 then some old else none
  | _ => none

/-- What the record of a call says. -/
structure Says (call : LibcCall) (p : UInt64) (e : Event) : Prop where
  known : e.Known
  released : call.freed p = some e.released ∨ call.freed p = none ∧ e.released = 0
  address : e.address = p
  blocks : e.blocks ≠ [] ↔ p ≠ 0

theorem blocks_ne_nil_iff (e : Event) :
    e.blocks ≠ [] ↔ (e.kind = 1 ∨ e.kind = 3) ∧ e.address ≠ 0 := by
  unfold Event.blocks
  split_ifs with h
  · exact ⟨fun _ => h, fun _ => List.cons_ne_nil _ _⟩
  · exact ⟨fun h' => absurd rfl h', fun h' => absurd h' h⟩

theorem record_says_new {call : LibcCall} (hfreed : ∀ p, call.freed p = none)
    {p usable : UInt64} {trace : List UInt64} {e : Event}
    (h : (if p ≠ 0 then some (record 1 p 0 usable trace) else none) = some e) :
    Says call p e := by
  simp only [Option.ite_none_right_eq_some, Option.some.injEq] at h
  obtain ⟨hp, rfl⟩ := h
  refine ⟨record_known _ _ _ _ _ (by decide), .inr ⟨hfreed p, rfl⟩, rfl, ?_⟩
  rw [blocks_ne_nil_iff]
  exact ⟨fun h => h.2, fun hp => ⟨.inl rfl, hp⟩⟩

theorem record_says {call : LibcCall} (hfree : ∀ q, call ≠ .free q) {p usable : UInt64}
    {trace : List UInt64} {e : Event} (h : call.record p usable trace = some e) :
    Says call p e := by
  cases call with
  | free q => exact absurd rfl (hfree q)
  | realloc old size =>
    simp only [LibcCall.record, Option.ite_none_right_eq_some, Option.some.injEq] at h
    obtain ⟨hfreed, rfl⟩ := h
    refine ⟨record_known _ _ _ _ _ (by decide), .inl (if_pos hfreed), rfl, ?_⟩
    rw [blocks_ne_nil_iff]
    exact ⟨fun h => h.2, fun hp => ⟨.inr rfl, hp⟩⟩
  | malloc size => exact record_says_new (fun _ => rfl) h
  | calloc n size => exact record_says_new (fun _ => rfl) h
  | memalign alignment size => exact record_says_new (fun _ => rfl) h
  | alignedAlloc alignment size => exact record_says_new (fun _ => rfl) h

theorem unrecorded_eq {call : LibcCall} (hfree : ∀ q, call ≠ .free q) {p usable : UInt64}
    {trace : List UInt64} (h : call.record p usable trace = none) : call.freed p = none := by
  cases call with
  | free q => exact absurd rfl (hfree q)
  | realloc old size =>
    simp only [LibcCall.record, ite_eq_right_iff, reduceCtorEq, imp_false] at h
    exact if_neg h
  | malloc size => rfl
  | calloc n size => rfl
  | memalign alignment size => rfl
  | alignedAlloc alignment size => rfl

theorem record_free {q : UInt64} {trace : List UInt64} {e : Event}
    (h : LibcCall.record 0 0 trace (.free q) = some e) :
    q ≠ 0 ∧ e.Known ∧ e.released = q ∧ e.blocks = [] := by
  simp only [LibcCall.record, Option.ite_none_right_eq_some, Option.some.injEq] at h
  obtain ⟨hq, rfl⟩ := h
  refine ⟨hq, record_known _ _ _ _ _ (by decide), rfl, ?_⟩
  by_contra hne
  have hkind : (2 : UInt64) = 1 ∨ (2 : UInt64) = 3 := ((blocks_ne_nil_iff _).mp hne).1
  exact absurd hkind (by decide)

def recordedIn (chunks : Chunks) (a : UInt64) : Option UInt64 :=
  (chunks[a]?).bind Chunk.recorded

theorem recordedIn_insert (chunks : Chunks) (p : UInt64) (chunk : Chunk) (a : UInt64) :
    recordedIn (chunks.insert p chunk) a =
      if p = a then chunk.recorded else recordedIn chunks a := by
  unfold recordedIn
  rw [Std.ExtHashMap.getElem?_insert]
  by_cases h : p = a
  · rw [if_pos (by simpa using h), if_pos h]
    rfl
  · rw [if_neg (by simpa using h), if_neg h]

theorem recordedIn_erase (chunks : Chunks) (p a : UInt64) :
    recordedIn (chunks.erase p) a = if p = a then none else recordedIn chunks a := by
  unfold recordedIn
  rw [Std.ExtHashMap.getElem?_erase]
  by_cases h : p = a
  · rw [if_pos (by simpa using h), if_pos h]
    rfl
  · rw [if_neg (by simpa using h), if_neg h]

theorem recordedIn_of_not_mem {chunks : Chunks} {a : UInt64} (h : a ∉ chunks) :
    recordedIn chunks a = none := by
  unfold recordedIn
  rw [Std.ExtHashMap.getElem?_eq_none h]
  rfl

/-- What a call does to the allocated blocks. -/
structure Changes (call : LibcCall) (p : UInt64) (chunk : Chunk) (chunks after : Chunks) :
    Prop where
  null : 0 ∉ after
  new : p ≠ 0 → after[p]? = some chunk
  old : ∀ (a : UInt64) (c : Chunk), after[a]? = some c → c = chunk ∨ chunks[a]? = some c
  kept : ∀ a, call.freed p ≠ some a → recordedIn after a = recordedIn chunks a
  freed : ∀ a, call.freed p = some a → recordedIn after a = none
  others : ∀ a, a ∈ chunks → call.freed p ≠ some a → after[a]? = chunks[a]?

theorem changes_insert {call : LibcCall} {p : UInt64} {chunk : Chunk} {chunks : Chunks}
    (hnone : chunk.recorded = none) (hnull : 0 ∉ chunks) (hfreed : call.freed p = none)
    (hp : p ∉ chunks) :
    Changes call p chunk chunks (if p ≠ 0 then chunks.insert p chunk else chunks) := by
  by_cases h : p = 0
  · rw [if_neg (not_not.mpr h)]
    refine ⟨hnull, fun hp => absurd h hp, fun _ _ h => .inr h, fun _ _ => rfl, fun a ha => ?_,
      fun _ _ _ => rfl⟩
    rw [hfreed] at ha
    cases ha
  · rw [if_pos h]
    refine ⟨?_, fun _ => Std.ExtHashMap.getElem?_insert_self, fun a c hc => ?_, fun a _ => ?_,
      fun a ha => ?_, fun a ha _ => ?_⟩
    · rw [Std.ExtHashMap.mem_insert]
      rintro (h' | h')
      · exact h (beq_iff_eq.mp h')
      · exact hnull h'
    · rw [Std.ExtHashMap.getElem?_insert] at hc
      split_ifs at hc
      · exact .inl (Option.some.inj hc).symm
      · exact .inr hc
    · rw [recordedIn_insert, hnone]
      split_ifs with ha
      · rw [← ha, recordedIn_of_not_mem hp]
      · rfl
    · rw [hfreed] at ha
      cases ha
    · have hne : p ≠ a := fun h => hp (h ▸ ha)
      rw [Std.ExtHashMap.getElem?_insert, if_neg (by simpa using hne)]

theorem changes_erase {call : LibcCall} {q : UInt64} {chunk : Chunk} {chunks : Chunks}
    (hnull : 0 ∉ chunks) (hfreed : call.freed 0 = some q) :
    Changes call 0 chunk chunks (chunks.erase q) := by
  refine ⟨?_, fun h => absurd rfl h, fun a c hc => ?_, fun a ha => ?_, fun a ha => ?_,
    fun a _ ha => ?_⟩
  · rw [Std.ExtHashMap.mem_erase]
    exact fun h => hnull h.2
  · rw [Std.ExtHashMap.getElem?_erase] at hc
    split_ifs at hc
    exact .inr hc
  · rw [hfreed] at ha
    rw [recordedIn_erase, if_neg fun h => ha (congrArg some h)]
  · rw [hfreed] at ha
    rw [recordedIn_erase, if_pos (Option.some.inj ha)]
  · rw [hfreed] at ha
    rw [Std.ExtHashMap.getElem?_erase, if_neg (by simpa using ha)]

theorem changes_move {call : LibcCall} {p q : UInt64} {chunk : Chunk} {chunks : Chunks}
    (hnone : chunk.recorded = none) (hnull : 0 ∉ chunks) (hp : p ≠ 0)
    (hfreed : call.freed p = some q) (hmay : p ∉ chunks.erase q) :
    Changes call p chunk chunks ((chunks.erase q).insert p chunk) := by
  refine ⟨?_, fun _ => Std.ExtHashMap.getElem?_insert_self, fun a c hc => ?_, fun a ha => ?_,
    fun a ha => ?_, fun a hmem ha => ?_⟩
  · rw [Std.ExtHashMap.mem_insert, Std.ExtHashMap.mem_erase]
    rintro (h | h)
    · exact hp (beq_iff_eq.mp h)
    · exact hnull h.2
  · rw [Std.ExtHashMap.getElem?_insert] at hc
    split_ifs at hc
    · exact .inl (Option.some.inj hc).symm
    · rw [Std.ExtHashMap.getElem?_erase] at hc
      split_ifs at hc
      exact .inr hc
  · rw [hfreed] at ha
    have hqa : q ≠ a := fun h => ha (congrArg some h)
    rw [recordedIn_insert, recordedIn_erase, if_neg hqa, hnone]
    split_ifs with hpa
    · subst hpa
      rw [recordedIn_of_not_mem]
      intro hmem
      apply hmay
      rw [Std.ExtHashMap.mem_erase]
      exact ⟨by simpa using hqa, hmem⟩
    · rfl
  · rw [hfreed] at ha
    rw [recordedIn_insert, recordedIn_erase, if_pos (Option.some.inj ha), hnone]
    split_ifs
    · rfl
    · rfl
  · rw [hfreed] at ha
    have hqa : q ≠ a := fun h => ha (congrArg some h)
    have hpa : p ≠ a := by
      rintro rfl
      apply hmay
      rw [Std.ExtHashMap.mem_erase]
      exact ⟨by simpa using hqa, hmem⟩
    rw [Std.ExtHashMap.getElem?_insert, if_neg (by simpa using hpa),
      Std.ExtHashMap.getElem?_erase, if_neg (by simpa using hqa)]

theorem effect_changes {call : LibcCall} {p : UInt64} {chunk : Chunk} {chunks : Chunks}
    (hnone : chunk.recorded = none) (hnull : 0 ∉ chunks) (hmay : call.MayReturn p chunks) :
    Changes call p chunk chunks (call.effect p chunk chunks) := by
  cases call with
  | free q =>
    have hp : p = 0 := hmay
    rw [hp]
    exact changes_erase hnull rfl
  | realloc old size =>
    change Changes _ _ _ _ (if p ≠ 0 then (chunks.erase old).insert p chunk
      else if size = 0 then chunks.erase old else chunks)
    by_cases hp : p = 0
    · rw [if_neg (not_not.mpr hp), hp]
      by_cases hsize : size = 0
      · have hfreed : LibcCall.freed 0 (.realloc old size) = some old := if_pos (.inr hsize)
        rw [if_pos hsize]
        exact changes_erase hnull hfreed
      · have hfreed : LibcCall.freed 0 (.realloc old size) = none := if_neg (by simp [hsize])
        have hkept := changes_insert hnone hnull hfreed hnull
        rw [if_neg hsize]
        exact hkept
    · have hfreed : LibcCall.freed p (.realloc old size) = some old := if_pos (.inl hp)
      rw [if_pos hp]
      exact changes_move hnone hnull hp hfreed hmay
  | malloc size => exact changes_insert hnone hnull rfl hmay
  | calloc n size => exact changes_insert hnone hnull rfl hmay
  | memalign alignment size => exact changes_insert hnone hnull rfl hmay
  | alignedAlloc alignment size => exact changes_insert hnone hnull rfl hmay

/-! ## The invariant -/

/-- The thread has the lock. -/
def Pc.Holds : Pc → Prop
  | .idle => False
  | .entering _ => False
  | _ => True

/-- The address that glibc frees apart from its record. -/
def Pc.pending : Pc → Option UInt64
  | .returned call p _ => call.freed p
  | .freeing q => some q
  | _ => none

def Pc.Sound (chunks : Chunks) : Pc → Prop
  | .returned call p _ => (∀ q, call ≠ .free q) ∧ (p ≠ 0 → chunks[p]? = some ⟨none, false⟩) ∧
    ∀ a, call.freed p = some a → recordedIn chunks a = none
  | _ => True

/-- What the reader's live sizes are while a thread stands at `pc` with the lock. -/
def Pc.Shows (chunks : Chunks) (live : UInt64 → Option UInt64) (pc : Pc) : Prop :=
  (∀ a, pc.pending ≠ some a → live a = recordedIn chunks a) ∧
  ∀ q, pc = .freeing q → live q = none

theorem Pc.sound_of_not_holds {pc : Pc} (h : ¬pc.Holds) (chunks : Chunks) : pc.Sound chunks := by
  cases pc with
  | idle => trivial
  | entering call => trivial
  | locked call => trivial
  | returned call p usable => exact absurd trivial h
  | freeing q => trivial
  | leaving => trivial

theorem Pc.shows_iff {pc : Pc} (hpending : pc.pending = none) (chunks : Chunks)
    (live : UInt64 → Option UInt64) : pc.Shows chunks live ↔ live = recordedIn chunks := by
  unfold Shows
  rw [hpending]
  constructor
  · rintro ⟨hlive, -⟩
    exact funext fun a => hlive a fun h => by cases h
  · rintro rfl
    refine ⟨fun _ _ => rfl, ?_⟩
    rintro q rfl
    cases hpending

section
variable {ThreadId : Type}

/-- Where the thread with the lock stands. -/
def State.current (s : State ThreadId) : Pc :=
  match s.lock with
  | some t => s.pc t
  | none => .idle

/-- What holds between any two steps. -/
structure Inv (s : State ThreadId) : Prop where
  holder : ∀ t, (s.pc t).Holds ↔ s.lock = some t
  null : 0 ∉ s.chunks
  skipped : ∀ (a : UInt64) (chunk : Chunk), s.chunks[a]? = some chunk → chunk.skipped = true →
    chunk.recorded = none
  sound : ∀ t, (s.pc t).Sound s.chunks
  status : s.status = 0 ∨ s.status = 1
  log : s.status = 0 → Replayed s.log (s.current.Shows s.chunks)

variable {s : State ThreadId} {t : ThreadId}

theorem initial_inv {chunks : Chunks} (h : Unrecorded chunks) :
    Inv (initial chunks : State ThreadId) := by
  refine ⟨fun t => ?_, h.1, fun a chunk ha _ => h.2 a chunk ha, fun t => trivial, .inl rfl,
    fun _ => replayed_nil ?_⟩
  · constructor
    · exact fun h => absurd h id
    · exact fun h => by cases h
  · refine (Pc.shows_iff rfl _ _).mpr (funext fun a => ?_)
    unfold recordedIn initial
    cases ha : chunks[a]? with
    | none => rfl
    | some chunk => exact (h.2 a chunk ha).symm

theorem Inv.current_eq (h : Inv s) (ht : (s.pc t).Holds) : s.current = s.pc t := by
  unfold State.current
  rw [(h.holder t).mp ht]

theorem Inv.replayed (h : Inv s) (ht : (s.pc t).Holds) (h0 : s.status = 0) :
    Replayed s.log ((s.pc t).Shows s.chunks) := by
  rw [← h.current_eq ht]
  exact h.log h0

theorem mark_written (e : Event) :
    (s.append e true).mark e true =
      { s with
        log := s.log ++ [e]
        chunks := if e.address ≠ 0 then s.chunks.insert e.address ⟨some e.size, false⟩
          else s.chunks } := by
  unfold State.mark State.append
  by_cases h : e.address = 0
  · simp [h]
  · simp [h]

theorem mark_lost (e : Event) : (s.append e false).mark e false = { s with status := 1 } := by
  simp [State.mark, State.append]

/-- A skipped call changes no recorded block. -/
theorem Inv.skip (h : Inv s) {call : LibcCall} {p : UInt64} (hmay : call.MayReturn p s.chunks)
    (hown : call.frees = 0 ∨
      ∃ chunk, s.chunks[call.frees]? = some chunk ∧ chunk.skipped = true) :
    Inv { s with chunks := call.effect p ⟨none, true⟩ s.chunks } := by
  have hchanges := @effect_changes call p ⟨none, true⟩ s.chunks rfl h.null hmay
  have hfrees : ∀ a, call.freed p = some a → a = call.frees := by
    intro a ha
    cases call with
    | free q => exact (Option.some.inj ha).symm
    | realloc old size =>
      change (if p ≠ 0 ∨ size = 0 then some old else none) = some a at ha
      split_ifs at ha
      exact (Option.some.inj ha).symm
    | malloc size => cases ha
    | calloc n size => cases ha
    | memalign alignment size => cases ha
    | alignedAlloc alignment size => cases ha
  have hskipped : ∀ a chunk, call.freed p = some a → s.chunks[a]? = some chunk →
      chunk.skipped = true := by
    intro a chunk ha hchunk
    rw [hfrees a ha] at hchunk
    rcases hown with hzero | ⟨owned, howned, htrue⟩
    · rw [hzero] at hchunk
      exact absurd (Std.ExtHashMap.mem_iff_isSome_getElem?.mpr (by rw [hchunk]; rfl)) h.null
    · rw [howned] at hchunk
      rwa [← Option.some.inj hchunk]
  have hrecorded : recordedIn (call.effect p ⟨none, true⟩ s.chunks) = recordedIn s.chunks := by
    funext a
    by_cases ha : call.freed p = some a
    · rw [hchanges.freed a ha]
      unfold recordedIn
      cases hchunk : s.chunks[a]? with
      | none => rfl
      | some chunk => exact (h.skipped a chunk hchunk (hskipped a chunk ha hchunk)).symm
    · exact hchanges.kept a ha
  refine ⟨h.holder, hchanges.null, fun a chunk ha htrue => ?_, fun t' => ?_, h.status,
    fun h0 => ?_⟩
  · rcases hchanges.old a chunk ha with rfl | hold
    · rfl
    · exact h.skipped a chunk hold htrue
  · have hsound := h.sound t'
    change (s.pc t').Sound (call.effect p ⟨none, true⟩ s.chunks)
    cases hpc : s.pc t' with
    | returned call' p' usable =>
      rw [hpc] at hsound
      obtain ⟨hfree, hnew, hgone⟩ := hsound
      refine ⟨hfree, fun hp => ?_, fun a ha => (congrFun hrecorded a).trans (hgone a ha)⟩
      have hchunk := hnew hp
      rw [hchanges.others p' (Std.ExtHashMap.mem_iff_isSome_getElem?.mpr (by rw [hchunk]; rfl)),
        hchunk]
      intro hfreed
      have htrue := hskipped p' _ hfreed hchunk
      cases htrue
    | idle => trivial
    | entering call => trivial
    | locked call => trivial
    | freeing q => trivial
    | leaving => trivial
  · have hshows : s.current.Shows (call.effect p ⟨none, true⟩ s.chunks) =
        s.current.Shows s.chunks := by
      funext live
      unfold Pc.Shows
      rw [hrecorded]
    change Replayed s.log (s.current.Shows (call.effect p ⟨none, true⟩ s.chunks))
    rw [hshows]
    exact h.log h0

variable [DecidableEq ThreadId]

theorem goto_pc (t' : ThreadId) (pc : Pc) :
    (s.goto t pc).pc t' = if t' = t then pc else s.pc t' :=
  Function.update_apply ..

theorem Inv.move (h : Inv s) (ht : (s.pc t).Holds) {chunks : Chunks} {log : List Event}
    {status : UInt64} {pc : Pc} (hpc : pc.Holds) (hnull : 0 ∉ chunks)
    (hskipped : ∀ (a : UInt64) (chunk : Chunk), chunks[a]? = some chunk → chunk.skipped = true →
      chunk.recorded = none)
    (hsound : pc.Sound chunks) (hstatus : status = 0 ∨ status = 1)
    (hlog : status = 0 → Replayed log (pc.Shows chunks)) :
    Inv (State.goto ⟨chunks, s.pc, s.lock, log, status⟩ t pc) := by
  have hlock := (h.holder t).mp ht
  refine ⟨fun t' => ?_, hnull, hskipped, fun t' => ?_, hstatus, fun h0 => ?_⟩
  · rw [goto_pc]
    split_ifs with heq
    · rw [heq]
      exact ⟨fun _ => hlock, fun _ => hpc⟩
    · exact h.holder t'
  · rw [goto_pc]
    split_ifs with heq
    · exact hsound
    · apply Pc.sound_of_not_holds
      intro hholds
      have hother := (h.holder t').mp hholds
      rw [hlock] at hother
      exact heq (Option.some.inj hother).symm
  · have hcurrent : (State.goto ⟨chunks, s.pc, s.lock, log, status⟩ t pc).current = pc := by
      unfold State.current State.goto
      dsimp only
      rw [hlock]
      exact Function.update_self ..
    rw [hcurrent]
    exact hlog h0

/-! ## Steps -/

theorem Inv.enter (h : Inv s) {call : LibcCall} (hpc : s.pc t = .idle) :
    Inv (s.goto t (.entering call)) := by
  have hlock : ¬s.lock = some t := by
    rw [← h.holder t, hpc]
    exact id
  refine ⟨fun t' => ?_, h.null, h.skipped, fun t' => ?_, h.status, fun h0 => ?_⟩
  · rw [goto_pc]
    split_ifs with heq
    · rw [heq]
      exact ⟨fun hf => absurd hf id, fun hl => absurd hl hlock⟩
    · exact h.holder t'
  · rw [goto_pc]
    split_ifs
    · trivial
    · exact h.sound t'
  · have hcurrent : (s.goto t (.entering call)).current = s.current := by
      unfold State.current State.goto
      dsimp only
      cases hs : s.lock with
      | none => rfl
      | some holder =>
        dsimp only
        rw [Function.update_of_ne]
        rintro rfl
        exact hlock hs
    rw [hcurrent]
    exact h.log h0

theorem Inv.acquire (h : Inv s) {call : LibcCall} (hlock : s.lock = none) :
    Inv ({ s with lock := some t }.goto t (.locked call)) := by
  have hnobody : ∀ t', ¬(s.pc t').Holds := by
    intro t' hholds
    have hholder := (h.holder t').mp hholds
    rw [hlock] at hholder
    cases hholder
  refine ⟨fun t' => ?_, h.null, h.skipped, fun t' => ?_, h.status, fun h0 => ?_⟩
  · rw [goto_pc]
    split_ifs with heq
    · rw [heq]
      exact ⟨fun _ => rfl, fun _ => trivial⟩
    · exact ⟨fun hf => absurd hf (hnobody t'), fun hl => absurd (Option.some.inj hl).symm heq⟩
  · rw [goto_pc]
    split_ifs
    · trivial
    · exact h.sound t'
  · have hcurrent : (State.goto { s with lock := some t } t (.locked call)).current =
        .locked call := Function.update_self ..
    have hidle : s.current = .idle := by
      unfold State.current
      rw [hlock]
    rw [hcurrent]
    refine (h.log h0).imp fun live _ hlive => ?_
    rw [hidle, Pc.shows_iff rfl] at hlive
    exact (Pc.shows_iff rfl _ _).mpr hlive

theorem Inv.leave (h : Inv s) (hpc : s.pc t = .leaving) :
    Inv ({ s with lock := none }.goto t .idle) := by
  have ht : (s.pc t).Holds := by
    rw [hpc]
    trivial
  have hlock := (h.holder t).mp ht
  refine ⟨fun t' => ?_, h.null, h.skipped, fun t' => ?_, h.status, fun h0 => ?_⟩
  · rw [goto_pc]
    split_ifs with heq
    · exact ⟨fun hf => absurd hf id, fun hl => by cases hl⟩
    · refine ⟨fun hf => ?_, fun hl => by cases hl⟩
      have hholder := (h.holder t').mp hf
      rw [hlock] at hholder
      exact absurd (Option.some.inj hholder).symm heq
  · rw [goto_pc]
    split_ifs
    · trivial
    · exact h.sound t'
  · refine (h.replayed ht h0).imp fun live _ hlive => ?_
    rw [hpc, Pc.shows_iff rfl] at hlive
    exact (Pc.shows_iff rfl _ _).mpr hlive

theorem Inv.libc (h : Inv s) {call : LibcCall} {p usable : UInt64} (hpc : s.pc t = .locked call)
    (hfree : ∀ q, call ≠ .free q) (hmay : call.MayReturn p s.chunks) :
    Inv ({ s with chunks := call.effect p ⟨none, false⟩ s.chunks }.goto t
      (.returned call p usable)) := by
  have ht : (s.pc t).Holds := by
    rw [hpc]
    trivial
  have hchanges := @effect_changes call p ⟨none, false⟩ s.chunks rfl h.null hmay
  refine h.move ht trivial hchanges.null ?_ ⟨hfree, hchanges.new, hchanges.freed⟩ h.status ?_
  · intro a chunk ha hskipped
    rcases hchanges.old a chunk ha with rfl | hold
    · rfl
    · exact h.skipped a chunk hold hskipped
  · intro h0
    refine (h.replayed ht h0).imp fun live _ hlive => ?_
    rw [hpc, Pc.shows_iff rfl] at hlive
    refine ⟨fun a ha => ?_, fun q hq => by cases hq⟩
    rw [hlive, hchanges.kept a ha]

theorem Says.liveAfter {call : LibcCall} {p usable : UInt64} {e : Event} (hmeans : Says call p e)
    {chunks : Chunks} (hnull : 0 ∉ chunks) (hsound : (Pc.returned call p usable).Sound chunks)
    {live : UInt64 → Option UInt64} (hlive : (Pc.returned call p usable).Shows chunks live) :
    e.liveAfter live =
      recordedIn (if e.address ≠ 0 then chunks.insert e.address ⟨some e.size, false⟩
        else chunks) := by
  have hold : ∀ a, (if e.released = a then none else live a) = recordedIn chunks a := by
    intro a
    rcases hmeans.released with hfreed | ⟨hfreed, hzero⟩
    · split_ifs with ha
      · rw [hsound.2.2 a (ha ▸ hfreed)]
      · apply hlive.1 a
        change call.freed p ≠ some a
        rw [hfreed]
        exact fun h => ha (Option.some.inj h)
    · have hall : live a = recordedIn chunks a := by
        apply hlive.1 a
        change call.freed p ≠ some a
        rw [hfreed]
        exact fun h => by cases h
      rw [hzero]
      split_ifs with ha
      · rw [← ha, recordedIn_of_not_mem hnull]
      · exact hall
  have hblocks : e.blocks ≠ [] ↔ e.address ≠ 0 := by
    rw [hmeans.address]
    exact hmeans.blocks
  funext a
  unfold Event.liveAfter
  rw [hold a]
  by_cases hp : e.address ≠ 0
  · rw [if_pos hp, recordedIn_insert]
    simp only [hblocks.mpr hp, ne_eq, not_false_eq_true, true_and]
  · rw [if_neg hp, if_neg fun h => hp (hblocks.mp h.1)]

theorem Inv.record (h : Inv s) {call : LibcCall} {p usable : UInt64} {trace : List UInt64}
    {e : Event} (written : Bool) (hpc : s.pc t = .returned call p usable)
    (hrecord : call.record p usable trace = some e) :
    Inv (((s.append e written).mark e written).goto t .leaving) := by
  have ht : (s.pc t).Holds := by
    rw [hpc]
    trivial
  have hsound := h.sound t
  rw [hpc] at hsound
  cases written with
  | false =>
    rw [mark_lost]
    exact h.move ht trivial h.null h.skipped trivial (.inr rfl) fun h0 => by cases h0
  | true =>
    have hmeans := record_says hsound.1 hrecord
    rw [mark_written]
    refine h.move ht trivial ?_ ?_ trivial h.status ?_
    · split_ifs with hp
      · rw [Std.ExtHashMap.mem_insert]
        rintro (h0 | h0)
        · exact hp (beq_iff_eq.mp h0)
        · exact h.null h0
      · exact h.null
    · intro a chunk ha hskipped
      split_ifs at ha
      · rw [Std.ExtHashMap.getElem?_insert] at ha
        split_ifs at ha
        · rw [← Option.some.inj ha] at hskipped
          cases hskipped
        · exact h.skipped a chunk ha hskipped
      · exact h.skipped a chunk ha hskipped
    · intro h0
      have hreplayed := h.replayed ht h0
      rw [hpc] at hreplayed
      refine hreplayed.concat hmeans.known (fun hblocks live hlive => ?_) fun live hlive => ?_
      · have hp : p ≠ 0 := hmeans.blocks.mp hblocks
        have hnone : recordedIn s.chunks p = none := by
          unfold recordedIn
          rw [hsound.2.1 hp]
          rfl
        rw [hmeans.address]
        by_cases hfreed : call.freed p = some p
        · rcases hmeans.released with hr | ⟨hr, -⟩
          · rw [hfreed] at hr
            exact .inl (Option.some.inj hr).symm
          · rw [hfreed] at hr
            cases hr
        · exact .inr ((hlive.1 p hfreed).trans hnone)
      · exact (Pc.shows_iff rfl _ _).mpr (hmeans.liveAfter h.null hsound hlive)

theorem Inv.unrecorded (h : Inv s) {call : LibcCall} {p usable : UInt64} {trace : List UInt64}
    (hpc : s.pc t = .returned call p usable) (hrecord : call.record p usable trace = none) :
    Inv (s.goto t .leaving) := by
  have ht : (s.pc t).Holds := by
    rw [hpc]
    trivial
  have hsound := h.sound t
  rw [hpc] at hsound
  refine h.move ht trivial h.null h.skipped trivial h.status fun h0 => ?_
  have hpending : (Pc.returned call p usable).pending = none := unrecorded_eq hsound.1 hrecord
  refine (h.replayed ht h0).imp fun live _ hlive => ?_
  rw [hpc, Pc.shows_iff hpending] at hlive
  exact (Pc.shows_iff rfl _ _).mpr hlive

theorem Inv.recordFree (h : Inv s) {q : UInt64} {trace : List UInt64} {e : Event} (written : Bool)
    (hpc : s.pc t = .locked (.free q)) (hrecord : LibcCall.record 0 0 trace (.free q) = some e) :
    Inv ((s.append e written).goto t (.freeing q)) := by
  have ht : (s.pc t).Holds := by
    rw [hpc]
    trivial
  obtain ⟨-, hknown, hreleased, hblocks⟩ := record_free hrecord
  cases written with
  | false => exact h.move ht trivial h.null h.skipped trivial (.inr rfl) fun h0 => by cases h0
  | true =>
    refine h.move ht trivial h.null h.skipped trivial h.status fun h0 => ?_
    refine (h.replayed ht h0).concat hknown (fun hne => absurd hblocks hne) fun live hlive => ?_
    rw [hpc, Pc.shows_iff rfl] at hlive
    have hafter : ∀ a, e.liveAfter live a = if q = a then none else live a := by
      intro a
      unfold Event.liveAfter
      rw [if_neg fun h => h.1 hblocks, hreleased]
    refine ⟨fun a ha => ?_, fun q' hq => ?_⟩
    · rw [hafter, if_neg fun h => ha (congrArg some h), hlive]
    · rw [hafter, if_pos (Pc.freeing.inj hq)]

theorem Inv.unrecordedFree (h : Inv s) {q : UInt64} {trace : List UInt64}
    (hpc : s.pc t = .locked (.free q)) (hrecord : LibcCall.record 0 0 trace (.free q) = none) :
    Inv (s.goto t (.freeing q)) := by
  have ht : (s.pc t).Holds := by
    rw [hpc]
    trivial
  have hq : q = 0 := by
    by_contra hq
    rw [LibcCall.record, if_pos hq] at hrecord
    cases hrecord
  refine h.move ht trivial h.null h.skipped trivial h.status fun h0 => ?_
  refine (h.replayed ht h0).imp fun live hzero hlive => ?_
  rw [hpc, Pc.shows_iff rfl] at hlive
  refine ⟨fun a _ => congrFun hlive a, fun q' hq' => ?_⟩
  rw [← Pc.freeing.inj hq', hq, hzero]

theorem Inv.libcFree (h : Inv s) {q : UInt64} (hpc : s.pc t = .freeing q) :
    Inv ({ s with chunks := LibcCall.effect 0 ⟨none, false⟩ s.chunks (.free q) }.goto t
      .leaving) := by
  have ht : (s.pc t).Holds := by
    rw [hpc]
    trivial
  have hchanges := @effect_changes (.free q) 0 ⟨none, false⟩ s.chunks rfl h.null rfl
  refine h.move ht trivial hchanges.null ?_ trivial h.status fun h0 => ?_
  · intro a chunk ha hskipped
    rcases hchanges.old a chunk ha with rfl | hold
    · rfl
    · exact h.skipped a chunk hold hskipped
  · refine (h.replayed ht h0).imp fun live _ hlive => ?_
    rw [hpc] at hlive
    refine (Pc.shows_iff rfl _ _).mpr (funext fun a => ?_)
    by_cases ha : q = a
    · rw [← ha, hlive.2 q rfl, hchanges.freed q rfl]
    · have hne : (Pc.freeing q).pending ≠ some a := fun h => ha (Option.some.inj h)
      rw [hlive.1 a hne, hchanges.kept a fun h => ha (Option.some.inj h)]

theorem Inv.step (h : Inv s) {s' : State ThreadId} (hstep : Step s s') : Inv s' := by
  cases hstep with
  | enter t request page alignedImpl call hpc hcall => exact h.enter hpc
  | acquire t call hpc hlock => exact h.acquire hlock
  | libc t call p usable hpc hfree hmay => exact h.libc hpc hfree hmay
  | record t call p usable trace e written hpc hrecord => exact h.record written hpc hrecord
  | unrecorded t call p usable trace hpc hrecord => exact h.unrecorded hpc hrecord
  | recordFree t q trace e written hpc hrecord => exact h.recordFree written hpc hrecord
  | unrecordedFree t q trace hpc hrecord => exact h.unrecordedFree hpc hrecord
  | libcFree t q hpc => exact h.libcFree hpc
  | leave t hpc => exact h.leave hpc
  | skip t call p hpc hmay hown => exact h.skip hmay hown

theorem Reachable.inv (h : Reachable s) : Inv s := by
  obtain ⟨chunks, hchunks, hrun⟩ := h
  induction hrun with
  | refl => exact initial_inv hchunks
  | tail _ hstep ih => exact ih.step hstep

/-- No thread is between the release of a block and its record. -/
def State.Settled (s : State ThreadId) : Prop :=
  ∀ t, (s.pc t).pending = none

omit [DecidableEq ThreadId] in
theorem State.Settled.current (h : s.Settled) : s.current.pending = none := by
  unfold State.current
  cases s.lock with
  | none => rfl
  | some t => exact h t

theorem live_eq_iff {r : LogReader} {chunks : Chunks} (h : r.live = recordedIn chunks)
    (a size : UInt64) : (∃ id, r.tracker.live[a]? = some (size, id)) ↔
      ∃ chunk, chunks[a]? = some chunk ∧ chunk.recorded = some size := by
  have ha : (r.tracker.live[a]?).map Prod.fst = (chunks[a]?).bind Chunk.recorded := congrFun h a
  rw [← Option.bind_eq_some_iff, ← ha, Option.map_eq_some_iff]
  constructor
  · rintro ⟨id, hid⟩
    exact ⟨(size, id), hid, rfl⟩
  · rintro ⟨⟨size', id⟩, hid, rfl⟩
    exact ⟨id, hid⟩

/-- The replay of the log never meets a live address twice. While no record is
lost and every stack stays within the limit, the tracker holds exactly the blocks
whose allocation was recorded; past the limit the range error is what is left. -/
theorem replay_reads_heap (h : Reachable s) :
    (∀ a, LogReader.opened.replay s.status s.log ≠ .error (.tracker (.duplicateLive a))) ∧
    (s.status = 0 → Fits (allocated s.log) →
      ∃ r, LogReader.opened.replay s.status s.log = .ok r ∧
        (s.Settled → ∀ a size : UInt64, (∃ id, r.tracker.live[a]? = some (size, id)) ↔
          ∃ chunk, s.chunks[a]? = some chunk ∧ chunk.recorded = some size)) ∧
    (s.status = 0 → ¬Fits (allocated s.log) →
      LogReader.opened.replay s.status s.log = .error (.tracker .valueRange)) ∧
    (s.status ≠ 0 → LogReader.opened.replay s.status s.log = .error .lostEvents) := by
  have hinv := h.inv
  rcases hinv.status with h0 | h1
  · have hlog := hinv.log h0
    rw [h0]
    rcases hlog with ⟨r, hr, -, hshows, hfits⟩ | ⟨hr, hfits⟩
    · refine ⟨fun a ha => ?_, fun _ _ => ⟨r, hr, fun hsettled => ?_⟩,
        fun _ hnot => absurd hfits hnot, fun hne => absurd rfl hne⟩
      · rw [hr] at ha
        cases ha
      · exact live_eq_iff ((Pc.shows_iff hsettled.current _ _).mp hshows)
    · refine ⟨fun a ha => ?_, fun _ hnot => absurd hnot hfits, fun _ _ => hr,
        fun hne => absurd rfl hne⟩
      rw [hr] at ha
      cases ha
  · have hlost : LogReader.opened.replay 1 s.log = .error .lostEvents := rfl
    rw [h1, hlost]
    refine ⟨fun a ha => ?_, fun h0 => ?_, fun h0 => ?_, fun _ => rfl⟩
    · cases ha
    · exact absurd h0 (by decide)
    · exact absurd h0 (by decide)

/-- A `malloc` that nothing interrupts. -/
theorem runs_malloc (size : UInt64) {p : UInt64} (usable : UInt64) (trace : List UInt64)
    (hpc : s.pc t = .idle) (hlock : s.lock = none) (hnull : p ≠ 0) (hp : p ∉ s.chunks) :
    Relation.ReflTransGen Step s
      { s with
        chunks := s.chunks.insert p ⟨some usable, false⟩
        log := s.log ++ [record 1 p 0 usable trace] } := by
  have hself : ∀ (f : ThreadId → Pc) (pc : Pc), Function.update f t pc t = pc :=
    fun f pc => Function.update_self ..
  refine .head (.enter t (.malloc size) 0 true (.malloc size) hpc rfl) ?_
  refine .head (.acquire t (.malloc size) (hself ..) hlock) ?_
  refine .head (.libc t (.malloc size) p usable (hself ..) (fun q h => by cases h) hp) ?_
  refine .head (.record t (.malloc size) p usable trace _ true (hself ..) (if_pos hnull)) ?_
  refine .head (.leave t (hself ..)) ?_
  rw [mark_written]
  simp only [State.goto, Function.update_idem, LibcCall.effect]
  rw [Function.update_eq_self_iff.mpr hpc.symm]
  have haddress : (record 1 p 0 usable trace).address = p := rfl
  have hsize : (record 1 p 0 usable trace).size = usable := rfl
  rw [haddress, hsize, if_pos hnull, if_pos hnull, hlock]
  have htwice : ((s.chunks.insert p ⟨none, false⟩).insert p ⟨some usable, false⟩ : Chunks) =
      s.chunks.insert p ⟨some usable, false⟩ := by
    apply Std.ExtHashMap.ext_getElem?
    intro a
    simp only [Std.ExtHashMap.getElem?_insert]
    split_ifs
    · rfl
    · rfl
  rw [htwice]

/-- A `free` that nothing interrupts. -/
theorem runs_free {q : UInt64} (trace : List UInt64) (hpc : s.pc t = .idle)
    (hlock : s.lock = none) (hq : q ≠ 0) :
    Relation.ReflTransGen Step s
      { s with
        chunks := s.chunks.erase q
        log := s.log ++ [record 2 q 0 0 trace] } := by
  have hself : ∀ (f : ThreadId → Pc) (pc : Pc), Function.update f t pc t = pc :=
    fun f pc => Function.update_self ..
  refine .head (.enter t (.free q) 0 true (.free q) hpc rfl) ?_
  refine .head (.acquire t (.free q) (hself ..) hlock) ?_
  refine .head (.recordFree t q trace _ true (hself ..) (if_pos hq)) ?_
  refine .head (.libcFree t q (hself ..)) ?_
  refine .head (.leave t (hself ..)) ?_
  simp only [State.goto, State.append, Function.update_idem, LibcCall.effect, if_true]
  rw [Function.update_eq_self_iff.mpr hpc.symm, hlock]

end

/-- The block that every round of `rounds` allocates. -/
def roundBlock : Block := ⟨0x7E0000000010, 0x400000000000, (record 1 0 0 0 []).frames⟩

def roundLog : List Event :=
  [record 1 0x7E0000000010 0 0x400000000000 [], record 2 0x7E0000000010 0 0 []]

def rounds (n : ℕ) : State Unit :=
  { initial ∅ with log := (List.replicate n roundLog).flatten }

theorem rounds_reachable (n : ℕ) : Reachable (rounds n) := by
  refine ⟨∅, ⟨Std.ExtHashMap.not_mem_empty, fun a chunk h => ?_⟩, ?_⟩
  · simp at h
  · induction n with
    | zero => exact .refl
    | succ n ih =>
      have hempty : (0x7E0000000010 : UInt64) ∉ (rounds n).chunks := Std.ExtHashMap.not_mem_empty
      refine (ih.trans (runs_malloc (t := ()) 0x400000000000 0x400000000000 [] rfl rfl (by decide)
        hempty)).trans ?_
      have hfree := runs_free (s := { rounds n with
          chunks := (rounds n).chunks.insert 0x7E0000000010 ⟨some 0x400000000000, false⟩
          log := (rounds n).log ++ [record 1 0x7E0000000010 0 0x400000000000 []] })
        (t := ()) (q := 0x7E0000000010) [] rfl rfl (by decide)
      have hchunks : ((rounds n).chunks.insert 0x7E0000000010 ⟨some 0x400000000000, false⟩).erase
          0x7E0000000010 = (∅ : Chunks) := by
        apply Std.ExtHashMap.ext_getElem?
        intro a
        rw [Std.ExtHashMap.getElem?_erase, Std.ExtHashMap.getElem?_insert]
        simp [rounds, initial]
      have hlog : (rounds n).log ++ [record 1 0x7E0000000010 0 0x400000000000 []] ++
          [record 2 0x7E0000000010 0 0 []] = (rounds (n + 1)).log := by
        unfold rounds
        rw [List.replicate_succ', List.flatten_append, List.append_assoc]
        rfl
      dsimp only at hfree
      rw [hchunks, hlog] at hfree
      exact hfree

theorem allocated_rounds (n : ℕ) : allocated (rounds n).log = List.replicate n roundBlock := by
  have hround : allocated roundLog = [roundBlock] := rfl
  induction n with
  | zero => rfl
  | succ n ih =>
    have hlog : (rounds (n + 1)).log = roundLog ++ (rounds n).log := by
      unfold rounds
      rw [List.replicate_succ]
      rfl
    rw [hlog, allocated, List.flatMap_append]
    change allocated roundLog ++ allocated (rounds n).log = _
    rw [hround, ih, List.replicate_succ]
    rfl

theorem byteSum_replicate (n : ℕ) (b : Block) :
    byteSum (List.replicate n b) b.stack = n * b.size.toNat := by
  unfold byteSum
  rw [List.filter_eq_self.mpr fun x hx => decide_eq_true (by rw [List.eq_of_mem_replicate hx]),
    List.map_replicate, List.sum_replicate, smul_eq_mul]

/-- One round, and the same address allocated again. -/
def reused : State Unit :=
  { rounds 1 with
    chunks := (rounds 1).chunks.insert 0x7E0000000010 ⟨some 0x400000000000, false⟩
    log := (rounds 1).log ++ [record 1 0x7E0000000010 0 0x400000000000 []] }

theorem reused_reachable : Reachable reused := by
  obtain ⟨chunks, hchunks, hrun⟩ := rounds_reachable 1
  exact ⟨chunks, hchunks, hrun.trans (runs_malloc (t := ()) 0x400000000000 0x400000000000 [] rfl rfl
    (by decide) Std.ExtHashMap.not_mem_empty)⟩

theorem reused_fits : Fits (allocated reused.log) := by
  have hblocks : allocated reused.log = List.replicate 2 roundBlock := rfl
  intro stack
  rw [hblocks, total_allocCost]
  by_cases hstack : roundBlock.stack = stack
  · rw [← hstack, byteSum_replicate]
    refine ⟨?_, by decide, Nat.zero_le _, Nat.zero_le _⟩
    exact (List.length_filter_le _ _).trans (by decide)
  · have hnone : (List.replicate 2 roundBlock).filter (fun b => b.stack = stack) = [] := by
      rw [List.filter_eq_nil_iff]
      intro b hb
      rw [List.eq_of_mem_replicate hb]
      simpa using hstack
    rw [objectCount, byteSum, hnone]
    exact ⟨Nat.zero_le _, Nat.zero_le _, Nat.zero_le _, Nat.zero_le _⟩

theorem replay_reads_heap_reused :
    ∃ r, LogReader.opened.replay 0 reused.log = .ok r ∧
      ∃ id, r.tracker.live[(0x7E0000000010 : UInt64)]? = some (0x400000000000, id) := by
  obtain ⟨r, hr, hlive⟩ := (replay_reads_heap reused_reachable).2.1 rfl reused_fits
  refine ⟨r, hr, (hlive (fun _ => rfl) 0x7E0000000010 0x400000000000).mpr ?_⟩
  exact ⟨⟨some 0x400000000000, false⟩, Std.ExtHashMap.getElem?_insert_self, rfl⟩

/-- After 131072 rounds the bytes exceed the limit, and nothing replays. -/
theorem rounds_overflow :
    ¬((∀ s : State Unit, Reachable s →
        ∀ a, LogReader.opened.replay s.status s.log ≠ .error (.tracker (.duplicateLive a))) ∧
      ∀ s : State Unit, Reachable s → s.Settled →
        ∃ r, LogReader.opened.replay s.status s.log = .ok r ∧
          ∀ a size : UInt64, (∃ id, r.tracker.live[a]? = some (size, id)) ↔
            ∃ chunk, s.chunks[a]? = some chunk ∧ chunk.recorded = some size) := by
  rintro ⟨-, hclaim⟩
  obtain ⟨r, hr, -⟩ := hclaim (rounds 131072) (rounds_reachable _) fun _ => rfl
  have hnot : ¬Fits (allocated (rounds 131072).log) := by
    intro hfits
    have hbytes := (hfits roundBlock.stack).2.1
    rw [allocated_rounds, total_allocCost, byteSum_replicate] at hbytes
    exact absurd hbytes (by decide)
  rcases (rounds_reachable 131072).inv.log rfl with ⟨-, -, -, -, hfits⟩ | ⟨herror, -⟩
  · exact hnot hfits
  · have hzero : LogReader.opened.replay 0 (rounds 131072).log = .ok r := hr
    rw [hzero] at herror
    cases herror

end PProfessor.Recorder
