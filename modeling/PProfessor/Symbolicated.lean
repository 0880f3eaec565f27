import PProfessor.RawProfile

set_option autoImplicit false

/-!
# Symbolicated profiles

`SymbolicatedProfile::from_raw_with_symbolizer` of `src/symbolicated.rs`. A
symbolizer is what it answers for each address; every address is asked once.
Wall-clock times are nanoseconds from the Unix epoch.
-/
namespace PProfessor.Capture
open KeyedSum

structure FrameInfo where
  function : String
  file : String
  line : UInt32
  deriving DecidableEq, Repr

/-- What to do when no symbolizer can resolve an address. -/
inductive Unresolved where
  | hex
  | skip
  deriving DecidableEq, Repr

structure StackFrame where
  address : UInt64
  function : String
  file : String
  line : UInt32
  deriving DecidableEq, Repr

/-- A single aggregated sample: a thread and a call stack observed `count` times. -/
structure Sample where
  threadId : UInt64
  stack : List UInt64
  count : UInt64
  timestampNanos : Option UInt64
  deriving DecidableEq, Repr

structure SymbolicatedProfile where
  images : List LoadedImage
  frames : Std.ExtHashMap UInt64 StackFrame
  threads : Std.ExtHashMap UInt64 String
  samples : List Sample
  startTime : ℤ
  duration : ℕ
  freqHz : UInt32

abbrev Symbolizer := UInt64 → Option FrameInfo

/-- `format!("0x{addr:016x}")`. -/
def hexFunction (addr : UInt64) : String :=
  let digits := Nat.toDigits 16 addr.toNat
  "0x" ++ String.ofList (List.replicate (16 - digits.length) '0' ++ digits)

def symbolizeStep (symbolizer : Symbolizer) (unresolved : Unresolved)
    (state : Std.ExtHashMap UInt64 StackFrame × List UInt64) (addr : UInt64) :
    Std.ExtHashMap UInt64 StackFrame × List UInt64 :=
  match symbolizer addr with
  | some info => (state.1.insert addr ⟨addr, info.function, info.file, info.line⟩, state.2)
  | none =>
    match unresolved with
    | .skip => (state.1, addr :: state.2)
    | .hex => (state.1.insert addr ⟨addr, hexFunction addr, "", 0⟩, state.2)

def samplesOf (skipSet : List UInt64) (entry : StackKey × RawSampleSeries) : List Sample :=
  let stack := entry.1.2.filter fun addr => addr ∉ skipSet
  if stack = [] then []
  else
    match entry.2.timestampsNanos with
    | some timestamps => timestamps.map fun t => ⟨entry.1.1, stack, 1, some t⟩
    | none => [⟨entry.1.1, stack, entry.2.count, none⟩]

/-- `order` is the order in which the map of stacks hands out its entries. The set
of addresses is visited in an order that changes nothing. -/
def fromRawWithSymbolizer (raw : RawProfile) (order : List (StackKey × RawSampleSeries))
    (symbolizer : Symbolizer) (unresolved : Unresolved) (freqHz : UInt32) (startWall : ℤ) :
    SymbolicatedProfile :=
  let allAddrs := (order.flatMap fun entry => entry.1.2).dedup
  let state := allAddrs.foldl (symbolizeStep symbolizer unresolved) (∅, [])
  { images := raw.images
    frames := state.1
    threads := raw.threadNames
    samples := order.flatMap (samplesOf state.2)
    startTime := startWall
    duration := raw.endTime - raw.startTime
    freqHz := freqHz }

theorem symbolizeLoop_hex (symbolizer : Symbolizer) (addrs : List UInt64)
    (state : Std.ExtHashMap UInt64 StackFrame × List UInt64) :
    (addrs.foldl (symbolizeStep symbolizer .hex) state).2 = state.2 ∧
    ∀ addr, (addr ∈ addrs ∨ addr ∈ state.1) →
      addr ∈ (addrs.foldl (symbolizeStep symbolizer .hex) state).1 := by
  induction addrs generalizing state with
  | nil => simp
  | cons a addrs ih =>
    have hstep : (symbolizeStep symbolizer .hex state a).2 = state.2 ∧
        ∀ addr, (addr = a ∨ addr ∈ state.1) →
          addr ∈ (symbolizeStep symbolizer .hex state a).1 := by
      unfold symbolizeStep
      cases symbolizer a with
      | some info =>
        refine ⟨rfl, fun addr h => ?_⟩
        rw [Std.ExtHashMap.mem_insert, beq_iff_eq]
        exact h.imp Eq.symm id
      | none =>
        refine ⟨rfl, fun addr h => ?_⟩
        rw [Std.ExtHashMap.mem_insert, beq_iff_eq]
        exact h.imp Eq.symm id
    obtain ⟨hskip, hframes⟩ := ih (symbolizeStep symbolizer .hex state a)
    rw [List.foldl_cons]
    refine ⟨hskip.trans hstep.1, fun addr h => hframes addr ?_⟩
    rw [List.mem_cons, or_assoc, or_left_comm] at h
    exact h.imp_right (hstep.2 addr)

theorem samplesOf_hex (entry : StackKey × RawSampleSeries) (h : entry.1.2 ≠ []) :
    samplesOf [] entry =
      match entry.2.timestampsNanos with
      | some timestamps => timestamps.map fun t => ⟨entry.1.1, entry.1.2, 1, some t⟩
      | none => [⟨entry.1.1, entry.1.2, entry.2.count, none⟩] := by
  unfold samplesOf
  simp [h]

def Sample.key (s : Sample) : StackKey × Option UInt64 := ((s.threadId, s.stack), s.timestampNanos)

theorem samplesOf_total (entry : StackKey × RawSampleSeries) (h : entry.1.2 ≠ [])
    (key : StackKey) (t : Option UInt64) :
    total Sample.key (fun s => s.count.toNat) (samplesOf [] entry) (key, t) =
      if entry.1 = key then entry.2.observations.count t else 0 := by
  obtain ⟨⟨thread, stack⟩, series⟩ := entry
  rw [samplesOf_hex _ h]
  unfold RawSampleSeries.observations
  cases series.timestampsNanos with
  | none =>
    rw [total_cons, total_nil, add_zero]
    simp only [Sample.key, Prod.mk.injEq, List.count_replicate, beq_iff_eq]
    split_ifs <;> simp_all
  | some timestamps =>
    induction timestamps with
    | nil => simp
    | cons ts timestamps ih =>
      dsimp only at ih ⊢
      rw [List.map_cons, List.map_cons, total_cons, ih, List.count_cons]
      simp only [Sample.key, Prod.mk.injEq, beq_iff_eq]
      split_ifs <;> simp_all [Nat.add_comm]

/-- Symbolizing in hexadecimal mode keeps every observation, under its own
thread, stack and timestamp. -/
theorem fromRaw_hex {raw : RawProfile} (hr : raw.Regular)
    {order : List (StackKey × RawSampleSeries)} (ho : Enumerates order raw.stackSeries)
    (symbolizer : Symbolizer) (freqHz : UInt32) (startWall : ℤ) :
    (∀ key t, total Sample.key (fun s => s.count.toNat)
      (fromRawWithSymbolizer raw order symbolizer .hex freqHz startWall).samples (key, t) =
        (raw.observations key).count t) ∧
    ∀ s ∈ (fromRawWithSymbolizer raw order symbolizer .hex freqHz startWall).samples,
      s.stack ≠ [] ∧ (∀ addr ∈ s.stack,
        addr ∈ (fromRawWithSymbolizer raw order symbolizer .hex freqHz startWall).frames) ∧
      (s.timestampNanos = none ∨ s.count = 1) := by
  obtain ⟨hskip, hframes⟩ := symbolizeLoop_hex symbolizer
    (order.flatMap fun entry => entry.1.2).dedup (∅, [])
  have hstack : ∀ e ∈ order, e.1.2 ≠ [] := fun e he => hr.stack e.1 e.2 ((ho.mem_iff _ _).mp he)
  unfold fromRawWithSymbolizer
  dsimp only
  rw [hskip]
  constructor
  · intro key t
    cases hs : raw.stackSeries[key]? with
    | some series =>
      have hmem : (key, series) ∈ order := (ho.mem_iff key series).mpr hs
      rw [total_flatMap_of_nodup Sample.key _ ho.nodup hmem,
        samplesOf_total _ (hstack _ hmem), if_pos rfl]
      · simp [RawProfile.observations, observationsIn, hs]
      · rintro ⟨key', series'⟩ he hne
        rw [samplesOf_total _ (hstack _ he), if_neg]
        rintro rfl
        apply hne
        have hget := (ho.mem_iff _ _).mp he
        rw [hs, Option.some.injEq] at hget
        rw [hget]
    | none =>
      have hz : ∀ s ∈ order.flatMap (samplesOf []), s.key ≠ (key, t) := by
        intro s hmem hkey
        obtain ⟨⟨key', series'⟩, he, hs'⟩ := List.mem_flatMap.mp hmem
        rw [samplesOf_hex _ (hstack _ he)] at hs'
        have hk : s.key.1 = key' := by
          dsimp only at hs'
          split at hs'
          · obtain ⟨_, _, rfl⟩ := List.mem_map.mp hs'
            rfl
          · rw [List.mem_singleton.mp hs']
            rfl
        rw [hkey] at hk
        have hget := (ho.mem_iff _ _).mp he
        rw [← hk, hs] at hget
        cases hget
      rw [total_eq_zero _ _ hz]
      simp [RawProfile.observations, observationsIn, hs]
  · intro s hmem
    obtain ⟨e, he, hs⟩ := List.mem_flatMap.mp hmem
    have hse : s.stack = e.1.2 ∧ (s.timestampNanos = none ∨ s.count = 1) := by
      rw [samplesOf_hex _ (hstack e he)] at hs
      split at hs
      · obtain ⟨_, _, rfl⟩ := List.mem_map.mp hs
        exact ⟨rfl, .inr rfl⟩
      · rw [List.mem_singleton.mp hs]
        exact ⟨rfl, .inl rfl⟩
    rw [hse.1]
    refine ⟨hstack e he, fun addr haddr => hframes addr (.inl ?_), hse.2⟩
    rw [List.mem_dedup]
    exact List.mem_flatMap.mpr ⟨e, he, haddr⟩

end PProfessor.Capture
