import PProfessor.KeyedSum

set_option autoImplicit false

/-!
# Raw profiles and the publication cursor

`RawSampleSeries`, `RawProfile` and `RawProfileCursor` of `src/sampler/mod.rs`.
Instants are nanoseconds. A loop over a hash map takes the order in which the map
happens to hand out its entries as an argument.
-/
namespace PProfessor.Capture
open KeyedSum

structure LoadedImage where
  loadAddress : UInt64
  path : String
  deriving DecidableEq, Repr

/-- Aggregated observations of one `(thread, stack)` pair. -/
structure RawSampleSeries where
  count : UInt64
  timestampsNanos : Option (List UInt64)
  deriving DecidableEq, Repr

/-- A thread and a stack, leaf first. -/
abbrev StackKey := UInt64 × List UInt64

abbrev StackMap := Std.ExtHashMap StackKey RawSampleSeries

structure RawProfile where
  /-- `stacks` in the source: `(thread_id, stack)` to counts and timestamps. -/
  stackSeries : StackMap
  threadNames : Std.ExtHashMap UInt64 String
  startTime : ℕ
  endTime : ℕ
  images : List LoadedImage

structure RawProfileCursor where
  counts : Std.ExtHashMap StackKey UInt64

namespace RawProfileCursor

def new : RawProfileCursor := ⟨∅⟩

def previous (cursor : RawProfileCursor) (key : StackKey) : UInt64 := cursor.counts[key]?.getD 0

/-- One turn of the loop of `delta`. -/
def deltaStep (state : StackMap × RawProfileCursor) (entry : StackKey × RawSampleSeries) :
    StackMap × RawProfileCursor :=
  let previous := state.2.previous entry.1
  if previous < entry.2.count then
    let timestampsNanos := entry.2.timestampsNanos.map fun ts => ts.drop previous.toNat
    (state.1.insert entry.1 ⟨entry.2.count - previous, timestampsNanos⟩,
      ⟨state.2.counts.insert entry.1 entry.2.count⟩)
  else state

def delta (cursor : RawProfileCursor) (profile : RawProfile)
    (order : List (StackKey × RawSampleSeries)) : Option RawProfile × RawProfileCursor :=
  let state := order.foldl deltaStep (∅, cursor)
  if state.1.isEmpty then (none, state.2)
  else (some { profile with stackSeries := state.1 }, state.2)

end RawProfileCursor

/-- The timestamps of the observations, in order; nothing where they are untimed. -/
def RawSampleSeries.observations (series : RawSampleSeries) : List (Option UInt64) :=
  match series.timestampsNanos with
  | some timestamps => timestamps.map some
  | none => List.replicate series.count.toNat none

def observationsIn (map : StackMap) (key : StackKey) : List (Option UInt64) :=
  (map[key]?.map RawSampleSeries.observations).getD []

def RawProfile.observations (profile : RawProfile) : StackKey → List (Option UInt64) :=
  observationsIn profile.stackSeries

/-- A timed series counts its timestamps. -/
def RawSampleSeries.Counted (series : RawSampleSeries) : Prop :=
  ∀ timestamps, series.timestampsNanos = some timestamps → series.count.toNat = timestamps.length

/-- Every timed series counts its timestamps. -/
def RawProfile.Counted (profile : RawProfile) : Prop :=
  ∀ (key : StackKey) (series : RawSampleSeries), profile.stackSeries[key]? = some series →
    series.Counted

/-- Non-empty stackSeries, and timed series that count their timestamps. -/
structure RawProfile.Regular (profile : RawProfile) : Prop where
  stack : ∀ (key : StackKey) (series : RawSampleSeries), profile.stackSeries[key]? = some series →
    key.2 ≠ []
  counted : ∀ (key : StackKey) (series : RawSampleSeries), profile.stackSeries[key]? = some series →
    series.Counted

/-- Under every key the observations go on from those that have been seen. -/
def RawProfile.Grows (seen : StackKey → List (Option UInt64)) (profile : RawProfile) : Prop :=
  ∀ key, seen key <+: profile.observations key

theorem RawSampleSeries.observations_length {series : RawSampleSeries} (h : series.Counted) :
    series.observations.length = series.count.toNat := by
  unfold observations
  cases ht : series.timestampsNanos with
  | none => simp
  | some timestamps => simp [h timestamps ht]

theorem RawSampleSeries.observations_drop {series : RawSampleSeries} {n : UInt64}
    (hn : n < series.count) :
    (RawSampleSeries.mk (series.count - n)
      (series.timestampsNanos.map fun ts => ts.drop n.toNat)).observations =
      series.observations.drop n.toNat := by
  unfold observations
  cases series.timestampsNanos with
  | none =>
    have hle : n ≤ series.count := UInt64.le_of_lt hn
    simp [UInt64.toNat_sub_of_le _ _ hle]
  | some timestamps => simp

namespace RawProfileCursor

def Counts (cursor : RawProfileCursor) (seen : StackKey → List (Option UInt64)) : Prop :=
  ∀ key, (cursor.previous key).toNat = (seen key).length

@[simp] theorem previous_new (key : StackKey) : new.previous key = 0 := by
  simp [new, previous]

@[simp] theorem previous_insert_self (cursor : RawProfileCursor) (key : StackKey)
    (count : UInt64) : previous ⟨cursor.counts.insert key count⟩ key = count := by
  simp [previous]

theorem previous_insert_of_ne (cursor : RawProfileCursor) {key other : StackKey}
    (h : key ≠ other) (count : UInt64) :
    previous ⟨cursor.counts.insert key count⟩ other = cursor.previous other := by
  simp [previous, Std.ExtHashMap.getElem?_insert, h]

theorem new_counts : new.Counts fun _ => [] := by
  intro key
  rw [previous_new]
  rfl

theorem deltaStep_of_lt {state : StackMap × RawProfileCursor} {key : StackKey}
    {series : RawSampleSeries} (h : state.2.previous key < series.count) :
    deltaStep state (key, series) =
      (state.1.insert key ⟨series.count - state.2.previous key,
          series.timestampsNanos.map fun ts => ts.drop (state.2.previous key).toNat⟩,
        ⟨state.2.counts.insert key series.count⟩) := if_pos h

theorem deltaStep_of_not_lt {state : StackMap × RawProfileCursor} {key : StackKey}
    {series : RawSampleSeries} (h : ¬state.2.previous key < series.count) :
    deltaStep state (key, series) = state := if_neg h

theorem deltaStep_spec {state : StackMap × RawProfileCursor} {key : StackKey}
    {series : RawSampleSeries} (hc : series.Counted)
    (hle : (state.2.previous key).toNat ≤ series.observations.length)
    (hnew : state.1[key]? = none) (k : StackKey) :
    (observationsIn (deltaStep state (key, series)).1 k =
      if key = k then series.observations.drop (state.2.previous key).toNat
      else observationsIn state.1 k) ∧
    ((deltaStep state (key, series)).2.previous k).toNat =
      if key = k then series.observations.length else (state.2.previous k).toNat := by
  have hlen := RawSampleSeries.observations_length hc
  by_cases hlt : state.2.previous key < series.count
  · rw [deltaStep_of_lt hlt]
    unfold observationsIn previous
    rw [Std.ExtHashMap.getElem?_insert, Std.ExtHashMap.getElem?_insert]
    by_cases hk : key = k
    · subst hk
      simp only [BEq.rfl, if_true, Option.map_some, Option.getD_some]
      exact ⟨RawSampleSeries.observations_drop hlt, hlen.symm⟩
    · simp [hk]
  · rw [deltaStep_of_not_lt hlt]
    have heq : (state.2.previous key).toNat = series.observations.length := by
      rw [UInt64.lt_iff_toNat_lt] at hlt
      omega
    by_cases hk : key = k
    · subst hk
      rw [if_pos rfl, if_pos rfl, heq, List.drop_length]
      simp [observationsIn, hnew]
    · simp [hk]

/-- The loop of `delta`, over entries with distinct keys that are new to the map. -/
theorem deltaLoop_spec {entries : List (StackKey × RawSampleSeries)}
    (hnodup : (entries.map Prod.fst).Nodup) (hc : ∀ e ∈ entries, e.2.Counted)
    (state : StackMap × RawProfileCursor)
    (hle : ∀ e ∈ entries, (state.2.previous e.1).toNat ≤ e.2.observations.length)
    (hnew : ∀ e ∈ entries, state.1[e.1]? = none) (k : StackKey) :
    (∀ e ∈ entries, e.1 = k →
      observationsIn (entries.foldl deltaStep state).1 k =
        e.2.observations.drop (state.2.previous k).toNat ∧
      ((entries.foldl deltaStep state).2.previous k).toNat = e.2.observations.length) ∧
    (k ∉ entries.map Prod.fst →
      observationsIn (entries.foldl deltaStep state).1 k = observationsIn state.1 k ∧
      ((entries.foldl deltaStep state).2.previous k).toNat = (state.2.previous k).toNat) := by
  induction entries generalizing state with
  | nil => simp
  | cons e entries ih =>
    obtain ⟨key, series⟩ := e
    rw [List.map_cons, List.nodup_cons] at hnodup
    rw [List.forall_mem_cons] at hc hle hnew
    have hstep := deltaStep_spec hc.1 hle.1 hnew.1
    have hother : ∀ e ∈ entries, key ≠ e.1 := by
      rintro e he rfl
      exact hnodup.1 (List.mem_map.mpr ⟨e, he, rfl⟩)
    have hkept : ∀ e ∈ entries, ((deltaStep state (key, series)).2.previous e.1).toNat =
        (state.2.previous e.1).toNat := by
      intro e he
      rw [(hstep e.1).2, if_neg (hother e he)]
    have hfresh : ∀ e ∈ entries, (deltaStep state (key, series)).1[e.1]? = none := by
      intro e he
      by_cases hlt : state.2.previous key < series.count
      · rw [deltaStep_of_lt hlt, Std.ExtHashMap.getElem?_insert,
          if_neg (by simpa using hother e he)]
        exact hnew.2 e he
      · rw [deltaStep_of_not_lt hlt]
        exact hnew.2 e he
    obtain ⟨hin, hout⟩ := ih hnodup.2 hc.2 (deltaStep state (key, series))
      (fun e he => by rw [hkept e he]; exact hle.2 e he)
      hfresh
    rw [List.foldl_cons]
    constructor
    · intro e he hk
      rcases List.mem_cons.mp he with rfl | he
      · dsimp only at hk
        subst hk
        obtain ⟨hobs, hprev⟩ := hout hnodup.1
        rw [hobs, hprev, (hstep key).1, (hstep key).2, if_pos rfl, if_pos rfl]
        exact ⟨rfl, rfl⟩
      · have hne := hother e he
        rw [hk] at hne
        obtain ⟨hobs, hprev⟩ := hin e he hk
        rw [hobs, hprev, (hstep k).2, if_neg hne]
        exact ⟨rfl, rfl⟩
    · intro hk
      rw [List.map_cons, List.mem_cons, not_or] at hk
      obtain ⟨hobs, hprev⟩ := hout hk.2
      have hne : key ≠ k := fun h => hk.1 h.symm
      rw [hobs, hprev, (hstep k).1, (hstep k).2, if_neg hne, if_neg hne]
      exact ⟨rfl, rfl⟩

/-- The delta holds exactly the observations that are new, and the cursor then
counts all of them. -/
theorem delta_spec {cursor : RawProfileCursor} {seen : StackKey → List (Option UInt64)}
    (hcursor : cursor.Counts seen) {profile : RawProfile} (hr : profile.Counted)
    (hg : profile.Grows seen) {order : List (StackKey × RawSampleSeries)}
    (ho : Enumerates order profile.stackSeries) :
    (cursor.delta profile order).2.Counts profile.observations ∧
    match (cursor.delta profile order).1 with
    | none => ∀ key, profile.observations key = seen key
    | some d => { profile with stackSeries := d.stackSeries } = d ∧
        ∀ key, profile.observations key = seen key ++ d.observations key := by
  have hobs : ∀ e ∈ order, profile.observations e.1 = e.2.observations := by
    rintro ⟨k, s⟩ he
    simp [RawProfile.observations, observationsIn, (ho.mem_iff k s).mp he]
  have hloop := deltaLoop_spec ho.keys_nodup
    (fun e he => hr e.1 e.2 ((ho.mem_iff _ _).mp he)) (∅, cursor)
    (fun e he => by
      rw [hcursor, ← hobs e he]
      exact (hg e.1).length_le)
    (fun _ _ => by simp)
  have hkey : ∀ k, observationsIn (order.foldl deltaStep (∅, cursor)).1 k =
        (profile.observations k).drop (seen k).length ∧
      ((order.foldl deltaStep (∅, cursor)).2.previous k).toNat =
        (profile.observations k).length := by
    intro k
    obtain ⟨hin, hout⟩ := hloop k
    by_cases hk : k ∈ order.map Prod.fst
    · obtain ⟨e, he, rfl⟩ := List.mem_map.mp hk
      obtain ⟨h₁, h₂⟩ := hin e he rfl
      rw [h₁, h₂, hobs e he, hcursor]
      exact ⟨rfl, rfl⟩
    · obtain ⟨h₁, h₂⟩ := hout hk
      have hnone : profile.observations k = [] := by
        unfold RawProfile.observations observationsIn
        cases hs : profile.stackSeries[k]? with
        | none => rfl
        | some s => exact absurd (List.mem_map_of_mem ((ho.mem_iff k s).mpr hs)) hk
      have hseen : seen k = [] := List.prefix_nil.mp (hnone ▸ hg k)
      rw [h₁, h₂, hcursor, hnone, hseen]
      exact ⟨by simp [observationsIn], rfl⟩
  have hsplit : ∀ k, profile.observations k = seen k ++
      observationsIn (order.foldl deltaStep (∅, cursor)).1 k := by
    intro k
    rw [(hkey k).1]
    obtain ⟨rest, hrest⟩ := hg k
    rw [← hrest, List.drop_left]
  have hdelta : cursor.delta profile order =
      if (order.foldl deltaStep (∅, cursor)).1.isEmpty then
        (none, (order.foldl deltaStep (∅, cursor)).2)
      else (some { profile with stackSeries := (order.foldl deltaStep (∅, cursor)).1 },
        (order.foldl deltaStep (∅, cursor)).2) := rfl
  rw [hdelta]
  split_ifs with hempty
  · refine ⟨fun k => (hkey k).2, fun k => ?_⟩
    rw [hsplit k, Std.ExtHashMap.isEmpty_iff.mp hempty]
    simp [observationsIn]
  · exact ⟨fun k => (hkey k).2, rfl, hsplit⟩

def RegularMap (map : StackMap) : Prop :=
  ∀ (key : StackKey) (series : RawSampleSeries), map[key]? = some series →
    key.2 ≠ [] ∧ series.Counted

/-- The series of a delta are what is left of the profile's behind some count. -/
theorem delta_forall {P : StackKey → RawSampleSeries → Prop} {cursor : RawProfileCursor}
    {profile d : RawProfile} {order : List (StackKey × RawSampleSeries)}
    (ho : Enumerates order profile.stackSeries)
    (hP : ∀ (key : StackKey) (series : RawSampleSeries) (n : UInt64),
      profile.stackSeries[key]? = some series → n < series.count →
      P key ⟨series.count - n, series.timestampsNanos.map fun ts => ts.drop n.toNat⟩)
    (h : (cursor.delta profile order).1 = some d) (key : StackKey) (series : RawSampleSeries)
    (hs : d.stackSeries[key]? = some series) : P key series := by
  have hloop : ∀ (entries : List (StackKey × RawSampleSeries))
      (state : StackMap × RawProfileCursor), (∀ e ∈ entries, e ∈ order) →
      (∀ (k : StackKey) (t : RawSampleSeries), state.1[k]? = some t → P k t) →
      ∀ (k : StackKey) (t : RawSampleSeries),
        (entries.foldl deltaStep state).1[k]? = some t → P k t := by
    intro entries
    induction entries with
    | nil => exact fun _ _ hs => hs
    | cons e entries ih =>
      intro state hmem hstate
      rw [List.forall_mem_cons] at hmem
      refine ih _ hmem.2 ?_
      by_cases hlt : state.2.previous e.1 < e.2.count
      · rw [deltaStep_of_lt hlt]
        intro k t ht
        rw [Std.ExtHashMap.getElem?_insert] at ht
        split_ifs at ht with hk
        · rw [← LawfulBEq.eq_of_beq hk, ← Option.some.inj ht]
          exact hP e.1 e.2 _ ((ho.mem_iff e.1 e.2).mp hmem.1) hlt
        · exact hstate k t ht
      · rw [deltaStep_of_not_lt hlt]
        exact hstate
  have hmap := hloop order (∅, cursor) (fun _ he => he) (by simp)
  unfold delta at h
  dsimp only at h
  split_ifs at h
  cases h
  exact hmap key series hs

theorem counted_drop {series : RawSampleSeries} (hc : series.Counted) {n : UInt64}
    (hn : n < series.count) : (RawSampleSeries.mk (series.count - n)
      (series.timestampsNanos.map fun ts => ts.drop n.toNat)).Counted := by
  intro timestamps ht
  obtain ⟨ts, hts, rfl⟩ := Option.map_eq_some_iff.mp ht
  rw [UInt64.toNat_sub_of_le _ _ (UInt64.le_of_lt hn), hc ts hts, List.length_drop]

theorem delta_regular {cursor : RawProfileCursor} {profile d : RawProfile} (hr : profile.Regular)
    {order : List (StackKey × RawSampleSeries)} (ho : Enumerates order profile.stackSeries)
    (h : (cursor.delta profile order).1 = some d) : d.Regular := by
  have hmap : RegularMap d.stackSeries := delta_forall ho
    (fun key series n hs hn => ⟨hr.stack key series hs, counted_drop (hr.counted key series hs) hn⟩)
    h
  exact ⟨fun key series hs => (hmap key series hs).1, fun key series hs => (hmap key series hs).2⟩

end RawProfileCursor

end PProfessor.Capture
