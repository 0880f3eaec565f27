import PProfessor.Symbolicated

set_option autoImplicit false

/-!
# Symbolizing keeps the observations

What the samples and the frames of `from_raw_with_symbolizer` are, entry by entry,
in both modes, and how the two modes relate.
-/
namespace PProfessor.Capture
open KeyedSum

/-- Symbolizing keeps the address. -/
def keeps (symbolizer : Symbolizer) (unresolved : Unresolved) (addr : UInt64) : Bool :=
  (symbolizer addr).isSome || unresolved = .hex

/-- The frame of an address, if it is kept. -/
def frameFor (symbolizer : Symbolizer) (unresolved : Unresolved) (addr : UInt64) :
    Option StackFrame :=
  match symbolizer addr with
  | some info => some ⟨addr, info.function, info.file, info.line⟩
  | none => if unresolved = .hex then some ⟨addr, hexFunction addr, "", 0⟩ else none

/-- `resolve_stack`. -/
def SymbolicatedProfile.resolveStack (profile : SymbolicatedProfile) (s : Sample) :
    List StackFrame :=
  s.stack.filterMap fun addr => profile.frames[addr]?

theorem frameFor_isSome (symbolizer : Symbolizer) (unresolved : Unresolved) (addr : UInt64) :
    (frameFor symbolizer unresolved addr).isSome = keeps symbolizer unresolved addr := by
  unfold frameFor keeps
  cases symbolizer addr with
  | some info => rfl
  | none => cases unresolved with
    | hex => rfl
    | skip => rfl

theorem frameFor_address {symbolizer : Symbolizer} {unresolved : Unresolved} {addr : UInt64}
    {frame : StackFrame} (h : frameFor symbolizer unresolved addr = some frame) :
    frame.address = addr := by
  unfold frameFor at h
  cases hs : symbolizer addr with
  | some info =>
    rw [hs] at h
    rw [← Option.some.inj h]
  | none =>
    rw [hs] at h
    dsimp only at h
    split_ifs at h
    rw [← Option.some.inj h]

theorem symbolizeStep_eq (symbolizer : Symbolizer) (unresolved : Unresolved)
    (state : Std.ExtHashMap UInt64 StackFrame × List UInt64) (addr : UInt64) :
    symbolizeStep symbolizer unresolved state addr =
      match frameFor symbolizer unresolved addr with
      | some frame => (state.1.insert addr frame, state.2)
      | none => (state.1, addr :: state.2) := by
  unfold symbolizeStep frameFor
  cases symbolizer addr with
  | some info => rfl
  | none => cases unresolved with
    | hex => rfl
    | skip => rfl

/-- The loop over the addresses gives each its frame, and skips those without. -/
theorem symbolizeLoop_spec (symbolizer : Symbolizer) (unresolved : Unresolved)
    (addrs : List UInt64) (addr : UInt64) :
    (addrs.foldl (symbolizeStep symbolizer unresolved) (∅, [])).1[addr]? =
      (if addr ∈ addrs then frameFor symbolizer unresolved addr else none) ∧
    (addr ∈ (addrs.foldl (symbolizeStep symbolizer unresolved) (∅, [])).2 ↔
      addr ∈ addrs ∧ keeps symbolizer unresolved addr = false) := by
  induction addrs using List.reverseRecOn with
  | nil => simp
  | append_singleton addrs a ih =>
    rw [List.foldl_append, List.foldl_cons, List.foldl_nil, symbolizeStep_eq]
    obtain ⟨hframes, hskip⟩ := ih
    have hkeeps := frameFor_isSome symbolizer unresolved a
    by_cases ha : a = addr
    · subst ha
      rw [if_pos (List.mem_append_right _ (List.mem_singleton_self a))]
      cases hf : frameFor symbolizer unresolved a with
      | some frame =>
        rw [hf] at hkeeps
        refine ⟨Std.ExtHashMap.getElem?_insert_self, ?_⟩
        rw [hskip, ← hkeeps]
        simp
      | none =>
        rw [hf] at hkeeps
        refine ⟨?_, ?_⟩
        · dsimp only
          rw [hframes, hf, ite_self]
        · rw [← hkeeps]
          simp
    · have hmem : addr ∈ addrs ++ [a] ↔ addr ∈ addrs := by
        rw [List.mem_append, List.mem_singleton, or_iff_left (Ne.symm ha)]
      simp only [hmem]
      cases frameFor symbolizer unresolved a with
      | some frame =>
        refine ⟨?_, hskip⟩
        rw [Std.ExtHashMap.getElem?_insert, if_neg (by rwa [beq_iff_eq]), hframes]
      | none =>
        refine ⟨hframes, ?_⟩
        rw [List.mem_cons, or_iff_right (Ne.symm ha)]
        exact hskip

def keptSamples (keep : UInt64 → Bool) (entry : StackKey × RawSampleSeries) : List Sample :=
  if entry.1.2.filter keep = [] then []
  else
    match entry.2.timestampsNanos with
    | some timestamps => timestamps.map fun t => ⟨entry.1.1, entry.1.2.filter keep, 1, some t⟩
    | none => [⟨entry.1.1, entry.1.2.filter keep, entry.2.count, none⟩]

/-- The samples are the entry: its thread, the addresses of its stack that are kept,
and all its observations; nothing where no address is kept. -/
structure FromEntry (keep : UInt64 → Bool) (entry : StackKey × RawSampleSeries)
    (samples : List Sample) : Prop where
  dropped : entry.1.2.filter keep = [] → samples = []
  key : ∀ s ∈ samples, s.threadId = entry.1.1 ∧ s.stack = entry.1.2.filter keep
  count : entry.1.2.filter keep ≠ [] →
    (samples.map fun s => s.count.toNat).sum = entry.2.count.toNat
  timed : ∀ timestamps, entry.2.timestampsNanos = some timestamps →
    entry.1.2.filter keep ≠ [] →
    samples.map (fun s => (s.count, s.timestampNanos)) = timestamps.map fun t => (1, some t)
  untimed : entry.2.timestampsNanos = none → entry.1.2.filter keep ≠ [] →
    samples.map (fun s => (s.count, s.timestampNanos)) = [(entry.2.count, none)]

theorem sum_map_one {α : Type} (xs : List α) : (xs.map fun _ => 1).sum = xs.length := by
  rw [List.map_const', List.sum_replicate, smul_eq_mul, mul_one]

theorem keptSamples_fromEntry (keep : UInt64 → Bool) {entry : StackKey × RawSampleSeries}
    (h : entry.2.Counted) : FromEntry keep entry (keptSamples keep entry) := by
  unfold keptSamples
  by_cases hempty : entry.1.2.filter keep = []
  · rw [if_pos hempty]
    refine ⟨fun _ => rfl, fun s hs => absurd hs List.not_mem_nil, ?_, ?_, ?_⟩
    · exact fun hne => absurd hempty hne
    · exact fun _ _ hne => absurd hempty hne
    · exact fun _ hne => absurd hempty hne
  · rw [if_neg hempty]
    cases ht : entry.2.timestampsNanos with
    | none =>
      refine ⟨fun hnil => absurd hnil hempty, fun s hs => ?_, fun _ => ?_, fun ts hts => ?_,
        fun _ _ => rfl⟩
      · rw [List.mem_singleton.mp hs]
        exact ⟨rfl, rfl⟩
      · exact Nat.add_zero _
      · rw [ht] at hts
        cases hts
    | some timestamps =>
      refine ⟨fun hnil => absurd hnil hempty, fun s hs => ?_, fun _ => ?_, fun ts hts _ => ?_,
        fun hts => ?_⟩
      · obtain ⟨t, -, rfl⟩ := List.mem_map.mp hs
        exact ⟨rfl, rfl⟩
      · rw [h timestamps ht, List.map_map]
        exact sum_map_one timestamps
      · rw [ht, Option.some.injEq] at hts
        rw [List.map_map, hts]
        rfl
      · rw [ht] at hts
        cases hts

/-- Keeping less is the same as stripping what was kept. -/
theorem keptSamples_strip {keep strip : UInt64 → Bool} (hle : ∀ addr, strip addr → keep addr)
    (entry : StackKey × RawSampleSeries) : keptSamples strip entry =
      ((keptSamples keep entry).map fun s => { s with stack := s.stack.filter strip }).filter
        fun s => s.stack ≠ [] := by
  have hstack : (entry.1.2.filter keep).filter strip = entry.1.2.filter strip := by
    rw [List.filter_filter]
    refine List.filter_congr fun addr _ => ?_
    cases hs : strip addr with
    | true => rw [hle addr hs, Bool.and_self]
    | false => rw [Bool.false_and]
  unfold keptSamples
  by_cases hkeep : entry.1.2.filter keep = []
  · rw [if_pos hkeep, if_pos]
    · rfl
    · rw [← hstack, hkeep, List.filter_nil]
  · rw [if_neg hkeep]
    by_cases hstrip : entry.1.2.filter strip = []
    · rw [if_pos hstrip, eq_comm, List.filter_eq_nil_iff]
      intro s hs hne
      obtain ⟨s', hs', rfl⟩ := List.mem_map.mp hs
      have hs'' : s'.stack = entry.1.2.filter keep := by
        cases ht : entry.2.timestampsNanos with
        | none =>
          rw [ht] at hs'
          rw [List.mem_singleton.mp hs']
        | some timestamps =>
          rw [ht] at hs'
          obtain ⟨t, -, rfl⟩ := List.mem_map.mp hs'
          rfl
      rw [decide_eq_true_eq] at hne
      apply hne
      dsimp only
      rw [hs'', hstack, hstrip]
    · rw [if_neg hstrip]
      cases entry.2.timestampsNanos with
      | none =>
        dsimp only
        rw [List.map_singleton, List.filter_singleton]
        simp only [hstack]
        rw [decide_eq_true hstrip]
        rfl
      | some timestamps =>
        dsimp only
        rw [List.map_map, eq_comm, List.filter_eq_self.mpr]
        · refine List.map_congr_left fun t _ => ?_
          simp only [Function.comp_apply, hstack]
        · intro s hs
          obtain ⟨t, -, rfl⟩ := List.mem_map.mp hs
          simp only [Function.comp_apply, hstack]
          exact decide_eq_true hstrip

/-- The address occurs in some stack. -/
def RawProfile.Occurs (raw : RawProfile) (addr : UInt64) : Prop :=
  ∃ key series, raw.stackSeries[(key : StackKey)]? = some series ∧ addr ∈ key.2

section
variable {raw : RawProfile} {order : List (StackKey × RawSampleSeries)}
  (symbolizer : Symbolizer) (unresolved : Unresolved) (freqHz : UInt32) (startWall : ℤ)

theorem fromRaw_samples : (fromRawWithSymbolizer raw order symbolizer unresolved freqHz
    startWall).samples = order.flatMap (keptSamples (keeps symbolizer unresolved)) := by
  have hskip := fun addr => (symbolizeLoop_spec symbolizer unresolved
    (order.flatMap fun entry => entry.1.2).dedup addr).2
  unfold fromRawWithSymbolizer
  dsimp only
  refine List.flatMap_congr fun entry hentry => ?_
  have hfilter : (entry.1.2.filter fun addr => decide (addr ∉
      ((order.flatMap fun entry => entry.1.2).dedup.foldl
        (symbolizeStep symbolizer unresolved) (∅, [])).2)) =
      entry.1.2.filter (keeps symbolizer unresolved) := by
    refine List.filter_congr fun addr haddr => ?_
    have hmem : addr ∈ (order.flatMap fun entry => entry.1.2).dedup :=
      List.mem_dedup.mpr (List.mem_flatMap.mpr ⟨entry, hentry, haddr⟩)
    rw [Bool.eq_iff_iff, decide_eq_true_eq, hskip, not_and, imp_iff_right hmem, Bool.not_eq_false]
  cases htimestamps : entry.2.timestampsNanos with
  | none => simp only [samplesOf, keptSamples, hfilter, htimestamps]
  | some timestamps => simp only [samplesOf, keptSamples, hfilter, htimestamps]

theorem fromRaw_frames (ho : Enumerates order raw.stackSeries) (addr : UInt64)
    (frame : StackFrame) :
    (fromRawWithSymbolizer raw order symbolizer unresolved freqHz startWall).frames[addr]? =
      some frame ↔ raw.Occurs addr ∧ frameFor symbolizer unresolved addr = some frame := by
  have hmem : addr ∈ (order.flatMap fun entry => entry.1.2).dedup ↔ raw.Occurs addr := by
    rw [List.mem_dedup, List.mem_flatMap]
    constructor
    · rintro ⟨⟨key, series⟩, hentry, haddr⟩
      exact ⟨key, series, (ho.mem_iff key series).mp hentry, haddr⟩
    · rintro ⟨key, series, hget, haddr⟩
      exact ⟨(key, series), (ho.mem_iff key series).mpr hget, haddr⟩
  have hloop := (symbolizeLoop_spec symbolizer unresolved
    (order.flatMap fun entry => entry.1.2).dedup addr).1
  change ((order.flatMap fun entry => entry.1.2).dedup.foldl
    (symbolizeStep symbolizer unresolved) (∅, [])).1[addr]? = some frame ↔ _
  rw [hloop, ← hmem]
  split_ifs with h
  · rw [and_iff_right h]
  · exact iff_of_false id fun hn => h hn.1

theorem fromRaw_mem_frames (ho : Enumerates order raw.stackSeries) (addr : UInt64) :
    addr ∈ (fromRawWithSymbolizer raw order symbolizer unresolved freqHz startWall).frames ↔
      raw.Occurs addr ∧ keeps symbolizer unresolved addr := by
  rw [Std.ExtHashMap.mem_iff_isSome_getElem?, Option.isSome_iff_exists, ← frameFor_isSome,
    Option.isSome_iff_exists]
  constructor
  · rintro ⟨frame, h⟩
    obtain ⟨hoccurs, hframe⟩ := (fromRaw_frames symbolizer unresolved freqHz startWall ho _ _).mp h
    exact ⟨hoccurs, frame, hframe⟩
  · rintro ⟨hoccurs, frame, hframe⟩
    exact ⟨frame, (fromRaw_frames symbolizer unresolved freqHz startWall ho _ _).mpr
      ⟨hoccurs, hframe⟩⟩

end

/-- The observations of `raw` are in the profile, entry by entry; its frames are those
of the addresses that are kept, and every stack resolves to one frame an address. -/
structure Conserved (raw : RawProfile) (order : List (StackKey × RawSampleSeries))
    (keep : UInt64 → Bool) (profile : SymbolicatedProfile) : Prop where
  samples : ∃ pieces, profile.samples = pieces.flatten ∧
    List.Forall₂ (FromEntry keep) order pieces
  frames : ∀ addr, addr ∈ profile.frames ↔ raw.Occurs addr ∧ keep addr
  resolved : ∀ s ∈ profile.samples, (profile.resolveStack s).map StackFrame.address = s.stack

/-- The profile without the addresses that the symbolizer does not know, and without
the samples that this empties. -/
def SymbolicatedProfile.withoutUnresolved (symbolizer : Symbolizer)
    (profile : SymbolicatedProfile) : SymbolicatedProfile :=
  { profile with
    frames := profile.frames.filter fun addr _ => (symbolizer addr).isSome
    samples := (profile.samples.map fun s =>
      { s with stack := s.stack.filter fun addr => (symbolizer addr).isSome }).filter
        fun s => s.stack ≠ [] }

/-- The same profile but for the order of the samples. -/
def SameUpToOrder (p q : SymbolicatedProfile) : Prop :=
  { p with samples := q.samples } = q ∧ p.samples.Perm q.samples

theorem resolveStack_addresses {profile : SymbolicatedProfile} {s : Sample}
    (h : ∀ addr ∈ s.stack, ∃ frame, profile.frames[addr]? = some frame ∧ frame.address = addr) :
    (profile.resolveStack s).map StackFrame.address = s.stack := by
  unfold SymbolicatedProfile.resolveStack
  generalize s.stack = stack at h ⊢
  induction stack with
  | nil => rfl
  | cons addr rest ih =>
    obtain ⟨frame, hframe, haddr⟩ := h addr List.mem_cons_self
    rw [List.filterMap_cons, hframe]
    dsimp only
    rw [List.map_cons, haddr, ih fun a ha => h a (List.mem_cons_of_mem _ ha)]

section
variable {raw : RawProfile} (symbolizer : Symbolizer) (freqHz : UInt32) (startWall : ℤ)

theorem fromRaw_conserved (hraw : raw.Counted) (unresolved : Unresolved)
    {order : List (StackKey × RawSampleSeries)} (ho : Enumerates order raw.stackSeries) :
    Conserved raw order (keeps symbolizer unresolved)
      (fromRawWithSymbolizer raw order symbolizer unresolved freqHz startWall) := by
  have hentry : ∀ entry ∈ order, FromEntry (keeps symbolizer unresolved) entry
      (keptSamples (keeps symbolizer unresolved) entry) := fun entry h =>
    keptSamples_fromEntry _ (hraw entry.1 entry.2 ((ho.mem_iff entry.1 entry.2).mp h))
  refine ⟨⟨order.map (keptSamples (keeps symbolizer unresolved)), ?_, ?_⟩,
    fromRaw_mem_frames symbolizer unresolved freqHz startWall ho, fun s hs => ?_⟩
  · rw [fromRaw_samples, List.flatMap_def]
  · rw [List.forall₂_map_right_iff, List.forall₂_same]
    exact hentry
  · rw [fromRaw_samples] at hs
    obtain ⟨entry, hin, hpiece⟩ := List.mem_flatMap.mp hs
    refine resolveStack_addresses fun addr haddr => ?_
    rw [((hentry entry hin).key s hpiece).2] at haddr
    obtain ⟨hstack, hkeep⟩ := List.mem_filter.mp haddr
    rw [← frameFor_isSome] at hkeep
    obtain ⟨frame, hframe⟩ := Option.isSome_iff_exists.mp hkeep
    have hoccurs : raw.Occurs addr :=
      ⟨entry.1, entry.2, (ho.mem_iff entry.1 entry.2).mp hin, hstack⟩
    exact ⟨frame, (fromRaw_frames symbolizer unresolved freqHz startWall ho addr frame).mpr
      ⟨hoccurs, hframe⟩, frameFor_address hframe⟩

theorem fromRaw_skip_frames {skipOrder hexOrder : List (StackKey × RawSampleSeries)}
    (hs : Enumerates skipOrder raw.stackSeries) (hh : Enumerates hexOrder raw.stackSeries) :
    (fromRawWithSymbolizer raw skipOrder symbolizer .skip freqHz startWall).frames =
      (fromRawWithSymbolizer raw hexOrder symbolizer .hex freqHz startWall).frames.filter
        fun addr _ => (symbolizer addr).isSome := by
  refine Std.ExtHashMap.ext_getElem? fun addr => Option.ext fun frame => ?_
  rw [fromRaw_frames symbolizer .skip freqHz startWall hs, Std.ExtHashMap.getElem?_filter',
    Option.filter_eq_some_iff, fromRaw_frames symbolizer .hex freqHz startWall hh, and_assoc]
  refine and_congr_right fun _ => ?_
  unfold frameFor
  cases symbolizer addr with
  | some info => simp
  | none => simp

theorem fromRaw_skip {skipOrder hexOrder : List (StackKey × RawSampleSeries)}
    (hs : Enumerates skipOrder raw.stackSeries) (hh : Enumerates hexOrder raw.stackSeries) :
    SameUpToOrder (fromRawWithSymbolizer raw skipOrder symbolizer .skip freqHz startWall)
      ((fromRawWithSymbolizer raw hexOrder symbolizer .hex freqHz startWall).withoutUnresolved
        symbolizer) := by
  have hkeep : keeps symbolizer .skip = fun addr => (symbolizer addr).isSome := by
    funext addr
    exact Bool.or_false _
  have hle : ∀ addr, (symbolizer addr).isSome → keeps symbolizer .hex addr := by
    intro addr h
    unfold keeps
    rw [h, Bool.true_or]
  have hperm : skipOrder.Perm hexOrder := by
    rw [List.perm_ext_iff_of_nodup hs.nodup hh.nodup]
    rintro ⟨key, series⟩
    rw [hs.mem_iff, hh.mem_iff]
  have hsamples : ((fromRawWithSymbolizer raw hexOrder symbolizer .hex freqHz
      startWall).withoutUnresolved symbolizer).samples =
      hexOrder.flatMap (keptSamples (keeps symbolizer .skip)) := by
    change List.filter _ (List.map _ (fromRawWithSymbolizer raw hexOrder symbolizer .hex freqHz
      startWall).samples) = _
    rw [fromRaw_samples, List.map_flatMap, List.filter_flatMap, hkeep]
    refine List.flatMap_congr fun entry _ => ?_
    exact (keptSamples_strip hle entry).symm
  constructor
  · exact congrArg (fun frames => SymbolicatedProfile.mk raw.images frames raw.threadNames _
      startWall (raw.endTime - raw.startTime) freqHz)
      (fromRaw_skip_frames symbolizer freqHz startWall hs hh)
  · rw [hsamples, fromRaw_samples]
    exact hperm.flatMap_right _

end

/-- Symbolizing conserves the observations in both modes, and skipping is the
hexadecimal mode without what it could not resolve. -/
theorem symbolization_conserves (raw : RawProfile) (hraw : raw.Counted)
    (symbolizer : Symbolizer) (freqHz : UInt32) (startWall : ℤ) :
    (∀ unresolved order, Enumerates order raw.stackSeries →
      Conserved raw order (keeps symbolizer unresolved)
        (fromRawWithSymbolizer raw order symbolizer unresolved freqHz startWall)) ∧
    ∀ skipOrder hexOrder, Enumerates skipOrder raw.stackSeries →
      Enumerates hexOrder raw.stackSeries →
      SameUpToOrder (fromRawWithSymbolizer raw skipOrder symbolizer .skip freqHz startWall)
        ((fromRawWithSymbolizer raw hexOrder symbolizer .hex freqHz startWall).withoutUnresolved
          symbolizer) :=
  ⟨fun unresolved _ ho => fromRaw_conserved symbolizer freqHz startWall hraw unresolved ho,
    fun _ _ hs hh => fromRaw_skip symbolizer freqHz startWall hs hh⟩

def timedEntry : StackKey × RawSampleSeries := ((7, [0x1000, 0x2000]), ⟨2, some [5, 9]⟩)

def timedSnapshot : RawProfile where
  stackSeries := (∅ : StackMap).insert timedEntry.1 timedEntry.2
  threadNames := ∅
  startTime := 0
  endTime := 10
  images := []

def leafSymbolizer : Symbolizer := fun addr =>
  if addr = 0x1000 then some ⟨"main", "main.c", 3⟩ else none

theorem timedSnapshot_get (key : StackKey) (series : RawSampleSeries) :
    timedSnapshot.stackSeries[key]? = some series ↔ (key, series) = timedEntry := by
  rw [timedSnapshot, Std.ExtHashMap.getElem?_insert, Prod.ext_iff]
  by_cases h : timedEntry.1 = key
  · rw [if_pos (beq_iff_eq.mpr h), Option.some.injEq, and_iff_right h.symm]
    exact eq_comm
  · rw [if_neg (mt beq_iff_eq.mp h), Std.ExtHashMap.getElem?_empty]
    exact iff_of_false (Option.some_ne_none series ∘ Eq.symm) fun hn => h hn.1.symm

theorem symbolization_conserves_timed :
    Conserved timedSnapshot [timedEntry] (keeps leafSymbolizer .skip)
      (fromRawWithSymbolizer timedSnapshot [timedEntry] leafSymbolizer .skip 1000 0) := by
  have hcounted : timedSnapshot.Counted := by
    intro key series h timestamps ht
    have hseries : series = timedEntry.2 :=
      congrArg Prod.snd ((timedSnapshot_get key series).mp h)
    rw [hseries] at ht ⊢
    rw [← Option.some.inj ht]
    rfl
  refine (symbolization_conserves timedSnapshot hcounted leafSymbolizer 1000 0).1 .skip _
    ⟨List.nodup_singleton _, fun key series => ?_⟩
  rw [timedSnapshot_get, List.mem_singleton]

end PProfessor.Capture
