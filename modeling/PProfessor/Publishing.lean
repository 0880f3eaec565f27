import PProfessor.LiveRun

set_option autoImplicit false

/-!
# Deltas telescope

`publish_update` of `src/main.rs`: the cursor moves to a snapshot only when its
delta was sent, so what one send loses the next delta repeats.
-/
namespace PProfessor.Publishing
open Capture KeyedSum LiveView

/-- One call: the snapshot, the order in which its stacks are visited, whether
`ensure_connected` and `send` return `Ok(true)`. -/
structure Update where
  snapshot : RawProfile
  order : List (StackKey × RawSampleSeries)
  connected : Bool
  accepted : Bool

/-- The cursor after the call, and the delta if one was sent. -/
def publishUpdate (cursor : RawProfileCursor) (u : Update) :
    RawProfileCursor × Option RawProfile :=
  if u.connected then
    match cursor.delta u.snapshot u.order with
    | (none, _) => (cursor, none)
    | (some delta, candidate) =>
      if u.accepted then (candidate, some delta) else (cursor, none)
  else (cursor, none)

structure Progress where
  cursor : RawProfileCursor
  sent : List (RawProfile × RawProfile)

namespace Progress

def start : Progress := ⟨.new, []⟩

def publish (progress : Progress) (u : Update) : Progress :=
  match publishUpdate progress.cursor u with
  | (cursor, some delta) => ⟨cursor, progress.sent ++ [(u.snapshot, delta)]⟩
  | (cursor, none) => ⟨cursor, progress.sent⟩

def run (updates : List Update) : Progress := updates.foldl publish start

theorem run_concat (updates : List Update) (u : Update) :
    run (updates ++ [u]) = (run updates).publish u := by
  rw [run, List.foldl_append]
  rfl

/-- The snapshot of the last delta sent. -/
def published (progress : Progress) : Option RawProfile := progress.sent.getLast?.map Prod.fst

end Progress

/-- The count of a key, 0 where it has no series. -/
def countOf (profile : RawProfile) (key : StackKey) : ℕ :=
  (profile.stackSeries[key]?.map fun series => series.count.toNat).getD 0

def timestampsOf (profile : RawProfile) (key : StackKey) : List UInt64 :=
  (profile.stackSeries[key]?.bind RawSampleSeries.timestampsNanos).getD []

theorem observations_length {profile : RawProfile} (h : profile.Counted) (key : StackKey) :
    (profile.observations key).length = countOf profile key := by
  unfold RawProfile.observations observationsIn countOf
  cases hs : profile.stackSeries[key]? with
  | none => rfl
  | some series => exact RawSampleSeries.observations_length (h key series hs)

theorem observations_timestamps (profile : RawProfile) (key : StackKey) :
    (profile.observations key).filterMap (fun t => t) = timestampsOf profile key := by
  unfold RawProfile.observations observationsIn timestampsOf RawSampleSeries.observations
  cases profile.stackSeries[key]? with
  | none => rfl
  | some series =>
    cases hts : series.timestampsNanos with
    | none => simp [hts]
    | some timestamps => simp [hts]

/-- No count decreases, and timed series are extended at their end. -/
structure Extends (later earlier : RawProfile) : Prop where
  counts : ∀ key, countOf earlier key ≤ countOf later key
  timestamps : ∀ key, timestampsOf earlier key <+: timestampsOf later key

/-- A key that counts something stays timed, or stays untimed. -/
def KeepsKinds (later earlier : RawProfile) : Prop :=
  ∀ (key : StackKey) (series series' : RawSampleSeries),
    earlier.stackSeries[key]? = some series → later.stackSeries[key]? = some series' →
    series.count ≠ 0 → series.timestampsNanos.isSome = series'.timestampsNanos.isSome

/-- Untimed and timed observations go on in each other only where there are none. -/
theorem observations_prefix_of_ne {series series' : RawSampleSeries} (h : series.Counted)
    (hkinds : series.timestampsNanos.isSome ≠ series'.timestampsNanos.isSome) :
    series.observations <+: series'.observations ↔ series.count = 0 := by
  have hzero : series.count = 0 ↔ series.observations = [] := by
    rw [← List.length_eq_zero_iff, RawSampleSeries.observations_length h, ← UInt64.toNat_inj]
    rfl
  rw [hzero]
  refine ⟨fun hbegins => List.eq_nil_iff_forall_not_mem.mpr fun observed hmem => ?_,
    fun hnil => hnil ▸ List.nil_prefix⟩
  have hmem' := hbegins.subset hmem
  unfold RawSampleSeries.observations at hmem hmem'
  cases ht : series.timestampsNanos with
  | none =>
    rw [ht] at hmem hkinds
    cases ht' : series'.timestampsNanos with
    | none => exact hkinds (by rw [ht'])
    | some timestamps' =>
      rw [ht'] at hmem'
      obtain ⟨t, -, rfl⟩ := List.mem_map.mp hmem'
      cases List.eq_of_mem_replicate hmem
  | some timestamps =>
    rw [ht] at hmem hkinds
    cases ht' : series'.timestampsNanos with
    | none =>
      rw [ht'] at hmem'
      obtain ⟨t, -, rfl⟩ := List.mem_map.mp hmem
      cases List.eq_of_mem_replicate hmem'
    | some timestamps' => exact hkinds (by rw [ht']; rfl)

theorem observations_prefix_of_eq {series series' : RawSampleSeries} (h : series.Counted)
    (h' : series'.Counted)
    (hkinds : series.timestampsNanos.isSome = series'.timestampsNanos.isSome) :
    series.observations <+: series'.observations ↔ series.count.toNat ≤ series'.count.toNat ∧
      series.timestampsNanos.getD [] <+: series'.timestampsNanos.getD [] := by
  have hle (hbegins : series.observations <+: series'.observations) :
      series.count.toNat ≤ series'.count.toNat := by
    rw [← RawSampleSeries.observations_length h, ← RawSampleSeries.observations_length h']
    exact hbegins.length_le
  unfold RawSampleSeries.observations at hle ⊢
  cases ht : series.timestampsNanos with
  | none =>
    have ht' : series'.timestampsNanos = none := by
      rw [← Option.not_isSome_iff_eq_none, ← hkinds, ht]
      exact Bool.false_ne_true
    rw [ht, ht'] at hle
    rw [ht']
    refine ⟨fun hbegins => ⟨hle hbegins, List.prefix_refl _⟩, fun hgrown => ?_⟩
    refine ⟨List.replicate (series'.count.toNat - series.count.toNat) none, ?_⟩
    rw [List.replicate_append_replicate, Nat.add_sub_cancel' hgrown.1]
  | some timestamps =>
    obtain ⟨timestamps', ht'⟩ : ∃ timestamps', series'.timestampsNanos = some timestamps' := by
      rw [← Option.isSome_iff_exists, ← hkinds, ht]
      rfl
    rw [ht, ht'] at hle
    rw [ht']
    refine ⟨fun hbegins => ⟨hle hbegins, ?_⟩, fun hgrown => hgrown.2.map _⟩
    exact (List.prefix_map_iff_of_injective (Option.some_injective _)).mp hbegins

theorem observations_prefix_iff {series series' : RawSampleSeries} (h : series.Counted)
    (h' : series'.Counted) : series.observations <+: series'.observations ↔
      series.count.toNat ≤ series'.count.toNat ∧
      series.timestampsNanos.getD [] <+: series'.timestampsNanos.getD [] ∧
      (series.count ≠ 0 → series.timestampsNanos.isSome = series'.timestampsNanos.isSome) := by
  by_cases hkinds : series.timestampsNanos.isSome = series'.timestampsNanos.isSome
  · rw [observations_prefix_of_eq h h' hkinds]
    exact ⟨fun hgrown => ⟨hgrown.1, hgrown.2, fun _ => hkinds⟩,
      fun hgrown => ⟨hgrown.1, hgrown.2.1⟩⟩
  · rw [observations_prefix_of_ne h hkinds]
    refine ⟨fun hzero => ⟨hzero ▸ Nat.zero_le _, ?_, fun hpos => absurd hzero hpos⟩,
      fun hgrown => by_contra fun hpos => hkinds (hgrown.2.2 hpos)⟩
    cases ht : series.timestampsNanos with
    | none => exact List.nil_prefix
    | some timestamps =>
      have hlength := h timestamps ht
      rw [hzero] at hlength
      rw [List.eq_nil_of_length_eq_zero hlength.symm]
      exact List.nil_prefix

theorem observations_key_iff {earlier later : RawProfile} (he : earlier.Counted)
    (hl : later.Counted) (key : StackKey) :
    earlier.observations key <+: later.observations key ↔
      countOf earlier key ≤ countOf later key ∧
      timestampsOf earlier key <+: timestampsOf later key ∧
      ∀ series series', earlier.stackSeries[key]? = some series →
        later.stackSeries[key]? = some series' → series.count ≠ 0 →
        series.timestampsNanos.isSome = series'.timestampsNanos.isSome := by
  have hcount := observations_length he key
  have htimes := observations_timestamps earlier key
  unfold RawProfile.observations observationsIn countOf timestampsOf at *
  cases hs : earlier.stackSeries[key]? with
  | none => simp
  | some series =>
    rw [hs] at hcount htimes
    cases hs' : later.stackSeries[key]? with
    | none =>
      refine ⟨fun hbegins => ?_, fun hgrown => ?_⟩
      · have hnil := List.prefix_nil.mp hbegins
        rw [hnil] at hcount htimes
        exact ⟨hcount.symm.le, List.prefix_nil.mpr htimes.symm,
          fun _ _ _ h => absurd h.symm (Option.some_ne_none _)⟩
      · exact List.prefix_nil.mpr
          (List.eq_nil_of_length_eq_zero (hcount.trans (Nat.le_zero.mp hgrown.1)))
    | some series' =>
      refine (observations_prefix_iff (he key series hs) (hl key series' hs')).trans ?_
      refine and_congr_right fun _ => and_congr_right fun _ =>
        ⟨fun h s s' hs hs' => ?_, fun h => ?_⟩
      · cases hs
        cases hs'
        exact h
      · exact h series series' rfl rfl

theorem grows_iff {earlier later : RawProfile} (he : earlier.Counted) (hl : later.Counted) :
    later.Grows earlier.observations ↔ Extends later earlier ∧ KeepsKinds later earlier := by
  unfold RawProfile.Grows
  simp only [observations_key_iff he hl]
  exact ⟨fun h => ⟨⟨fun key => (h key).1, fun key => (h key).2.1⟩, fun key => (h key).2.2⟩,
    fun h key => ⟨h.1.counts key, h.1.timestamps key, h.2 key⟩⟩

theorem publishUpdate_some_iff (cursor candidate : RawProfileCursor) (u : Update)
    (delta : RawProfile) : publishUpdate cursor u = (candidate, some delta) ↔
      u.connected ∧ u.accepted ∧ cursor.delta u.snapshot u.order = (some delta, candidate) := by
  unfold publishUpdate
  cases u.connected <;> cases u.accepted <;>
    rcases cursor.delta u.snapshot u.order with ⟨_ | d, c⟩ <;> simp [and_comm]

theorem publishUpdate_none {cursor candidate : RawProfileCursor} {u : Update}
    (h : publishUpdate cursor u = (candidate, none)) : candidate = cursor := by
  unfold publishUpdate at h
  cases hc : u.connected <;> cases ha : u.accepted <;>
    rcases hd : cursor.delta u.snapshot u.order with ⟨_ | d, c⟩ <;> simp_all

theorem publish_accepted {progress : Progress} {snapshot delta : RawProfile}
    {order : List (StackKey × RawSampleSeries)}
    (h : (progress.cursor.delta snapshot order).1 = some delta) :
    (progress.publish ⟨snapshot, order, true, true⟩).sent =
      progress.sent ++ [(snapshot, delta)] := by
  unfold Progress.publish publishUpdate
  rcases hd : progress.cursor.delta snapshot order with ⟨d, candidate⟩
  rw [hd] at h
  cases h
  rfl

theorem publish_rejected (progress : Progress) (snapshot : RawProfile)
    (order : List (StackKey × RawSampleSeries)) :
    progress.publish ⟨snapshot, order, true, false⟩ = progress := by
  unfold Progress.publish publishUpdate
  rcases progress.cursor.delta snapshot order with ⟨_ | d, candidate⟩ <;> rfl

theorem delta_nonempty {cursor : RawProfileCursor} {profile d : RawProfile}
    {order : List (StackKey × RawSampleSeries)} (ho : Enumerates order profile.stackSeries)
    (h : (cursor.delta profile order).1 = some d) : ∃ key, 0 < countOf d key := by
  have hpos := RawProfileCursor.delta_forall (P := fun _ s => 0 < s.count.toNat) ho
    (fun key series n _ hn => by
      rw [UInt64.toNat_sub_of_le _ _ (UInt64.le_of_lt hn)]
      exact Nat.sub_pos_of_lt (UInt64.lt_iff_toNat_lt.mp hn)) h
  have hne : d.stackSeries ≠ ∅ := by
    unfold RawProfileCursor.delta at h
    dsimp only at h
    split_ifs at h with hempty
    cases h
    rwa [Std.ExtHashMap.isEmpty_iff] at hempty
  obtain ⟨order', ho'⟩ := Enumerates.exists_order d.stackSeries
  cases order' with
  | nil =>
    refine absurd (Std.ExtHashMap.ext_getElem? fun key => ?_) hne
    rw [Std.ExtHashMap.getElem?_empty, Option.eq_none_iff_forall_ne_some]
    intro series hs
    exact absurd ((ho'.mem_iff key series).mpr hs) List.not_mem_nil
  | cons e rest =>
    have he := (ho'.mem_iff e.1 e.2).mp List.mem_cons_self
    refine ⟨e.1, ?_⟩
    rw [countOf, he]
    exact hpos e.1 e.2 he

theorem grows_published {progress : Progress} {updates : List Update}
    (hlast : ∀ p ∈ progress.published, ∃ u ∈ updates, u.snapshot = p) {profile : RawProfile}
    (hg : ∀ v ∈ updates, profile.Grows v.snapshot.observations) :
    profile.Grows fun key => (progress.published.map fun p => p.observations key).getD [] := by
  intro key
  cases hp : progress.published with
  | none => exact List.nil_prefix
  | some p =>
    obtain ⟨v, hv, rfl⟩ := hlast p (by rw [hp]; exact Option.mem_some_self p)
    exact hg v hv key

structure Telescopes (progress : Progress) : Prop where
  cursor : progress.cursor.Counts fun key =>
    (progress.published.map fun p => p.observations key).getD []
  observed : ∀ key, (progress.published.map fun p => p.observations key).getD [] =
    progress.sent.flatMap fun x => x.2.observations key
  counted : ∀ x ∈ progress.sent, x.1.Counted ∧ x.2.Counted

namespace Telescopes

theorem start : Telescopes Progress.start :=
  ⟨RawProfileCursor.new_counts, fun _ => rfl, fun _ hx => absurd hx List.not_mem_nil⟩

variable {progress : Progress} (h : Telescopes progress)
include h

theorem publish {u : Update} (hc : u.snapshot.Counted)
    (ho : Enumerates u.order u.snapshot.stackSeries)
    (hg : u.snapshot.Grows fun key =>
      (progress.published.map fun p => p.observations key).getD []) :
    Telescopes (progress.publish u) := by
  unfold Progress.publish
  split
  · rename_i cursor delta heq
    obtain ⟨-, -, hdelta⟩ := (publishUpdate_some_iff _ _ _ _).mp heq
    obtain ⟨hcursor, hsplit⟩ := RawProfileCursor.delta_spec h.cursor hc hg ho
    rw [hdelta] at hcursor hsplit
    have hpublished : (Progress.mk cursor (progress.sent ++ [(u.snapshot, delta)])).published =
        some u.snapshot := by
      simp [Progress.published]
    refine ⟨?_, ?_, ?_⟩
    · rw [hpublished]
      exact hcursor
    · intro key
      rw [hpublished, List.flatMap_append, ← h.observed key]
      simpa using hsplit.2 key
    · intro x hx
      rcases List.mem_append.mp hx with hx | hx
      · exact h.counted x hx
      · rw [List.mem_singleton.mp hx]
        refine ⟨hc, RawProfileCursor.delta_forall ho (fun key series n hs hn => ?_)
          (congrArg Prod.fst hdelta)⟩
        exact RawProfileCursor.counted_drop (hc key series hs) hn
  · rename_i cursor heq
    rw [publishUpdate_none heq]
    exact h

omit h in
theorem run {updates : List Update} (hc : ∀ u ∈ updates, u.snapshot.Counted)
    (ho : ∀ u ∈ updates, Enumerates u.order u.snapshot.stackSeries)
    (hg : updates.Pairwise fun u v => v.snapshot.Grows u.snapshot.observations) :
    Telescopes (Progress.run updates) ∧
      ∀ p ∈ (Progress.run updates).published, ∃ u ∈ updates, u.snapshot = p := by
  induction updates using List.reverseRecOn with
  | nil =>
    exact ⟨start, fun p hp => by simp [Progress.run, Progress.start, Progress.published] at hp⟩
  | append_singleton updates u ih =>
    rw [List.pairwise_append] at hg
    simp only [List.forall_mem_append, List.forall_mem_singleton] at hc ho
    obtain ⟨hbefore, hlast⟩ := ih hc.1 ho.1 hg.1
    have hgrows := grows_published hlast fun v hv => hg.2.2 v hv u List.mem_cons_self
    rw [Progress.run_concat]
    refine ⟨hbefore.publish hc.2 ho.2 hgrows, fun p hp => ?_⟩
    unfold Progress.publish at hp
    split at hp
    · refine ⟨u, by simp, ?_⟩
      simpa [Progress.published] using hp
    · obtain ⟨v, hv, hvp⟩ := hlast p hp
      exact ⟨v, List.mem_append_left _ hv, hvp⟩

end Telescopes

theorem sum_countOf {ds : List (RawProfile × RawProfile)} (h : ∀ x ∈ ds, x.2.Counted)
    (key : StackKey) : (ds.map fun x => countOf x.2 key).sum =
      (ds.flatMap fun x => x.2.observations key).length := by
  rw [List.length_flatMap]
  congr 1
  apply List.map_congr_left
  intro x hx
  exact (observations_length (h x hx) key).symm

theorem flatMap_timestampsOf (ds : List (RawProfile × RawProfile)) (key : StackKey) :
    (ds.flatMap fun x => timestampsOf x.2 key) =
      (ds.flatMap fun x => x.2.observations key).filterMap fun t => t := by
  rw [List.filterMap_flatMap]
  simp only [observations_timestamps]

/-- Whatever sends have failed, after one that succeeds the deltas sent add up to
its snapshot, and no delta is produced only if nothing has grown since the last. -/
theorem deltas_telescope (updates : List Update) (u : Update)
    (hcounted : ∀ v ∈ updates ++ [u], v.snapshot.Counted)
    (horder : ∀ v ∈ updates ++ [u], Enumerates v.order v.snapshot.stackSeries)
    (hextends : (updates ++ [u]).Pairwise fun v w => Extends w.snapshot v.snapshot)
    (hkinds : (updates ++ [u]).Pairwise fun v w => KeepsKinds w.snapshot v.snapshot) :
    ((publishUpdate (Progress.run updates).cursor u).2 ≠ none → ∀ key,
      ((Progress.run (updates ++ [u])).sent.map fun x => countOf x.2 key).sum =
        countOf u.snapshot key ∧
      ((Progress.run (updates ++ [u])).sent.flatMap fun x => timestampsOf x.2 key) =
        timestampsOf u.snapshot key) ∧
    (((Progress.run updates).cursor.delta u.snapshot u.order).1 = none ↔
      ∀ key, countOf u.snapshot key ≤
        ((Progress.run updates).published.map fun p => countOf p key).getD 0) := by
  have hgrows : (updates ++ [u]).Pairwise fun v w =>
      w.snapshot.Grows v.snapshot.observations :=
    (hextends.and hkinds).imp_of_mem fun hv hw h =>
      (grows_iff (hcounted _ hv) (hcounted _ hw)).mpr h
  obtain ⟨hall, -⟩ := Telescopes.run hcounted horder hgrows
  rw [List.pairwise_append] at hgrows
  simp only [List.forall_mem_append, List.forall_mem_singleton] at hcounted horder
  obtain ⟨hbefore, hlast⟩ := Telescopes.run hcounted.1 horder.1 hgrows.1
  constructor
  · intro hsent key
    have hpublished : (Progress.run (updates ++ [u])).published = some u.snapshot := by
      rw [Progress.run_concat, Progress.publish]
      split
      · simp [Progress.published]
      · rename_i heq
        rw [heq] at hsent
        exact absurd rfl hsent
    have hobserved := hall.observed key
    rw [hpublished] at hobserved
    change u.snapshot.observations key = _ at hobserved
    rw [sum_countOf (fun x hx => (hall.counted x hx).2), flatMap_timestampsOf, ← hobserved]
    exact ⟨observations_length hcounted.2 key, observations_timestamps u.snapshot key⟩
  · have hcount : ∀ key, ((Progress.run updates).published.map fun p => countOf p key).getD 0 =
        (((Progress.run updates).published.map fun p => p.observations key).getD []).length := by
      intro key
      cases hp : (Progress.run updates).published with
      | none => rfl
      | some p =>
        obtain ⟨v, hv, rfl⟩ := hlast p (by rw [hp]; exact Option.mem_some_self p)
        exact (observations_length (hcounted.1 v hv) key).symm
    have hg := grows_published hlast fun v hv => hgrows.2.2 v hv u List.mem_cons_self
    obtain ⟨-, hsplit⟩ := RawProfileCursor.delta_spec hbefore.cursor hcounted.2 hg horder.2
    simp only [hcount, ← observations_length hcounted.2]
    cases hd : ((Progress.run updates).cursor.delta u.snapshot u.order).1 with
    | none =>
      rw [hd] at hsplit
      simp only [true_iff]
      intro key
      rw [hsplit key]
    | some d =>
      rw [hd] at hsplit
      simp only [reduceCtorEq, false_iff, not_forall, Nat.not_le]
      obtain ⟨key, hkey⟩ := delta_nonempty horder.2 hd
      have hd' : d.Counted := RawProfileCursor.delta_forall horder.2
        (fun k series n hs hn => RawProfileCursor.counted_drop (hcounted.2 k series hs) hn) hd
      refine ⟨key, ?_⟩
      rw [hsplit.2 key, List.length_append, observations_length hd']
      omega

def oneUpdate (count : UInt64) (accepted : Bool) : Update where
  snapshot := oneSnapshot count
  order := [(oneKey, ⟨count, none⟩)]
  connected := true
  accepted := accepted

theorem oneUpdate_publish {cursor : RawProfileCursor} {count : UInt64}
    (h : cursor.previous oneKey < count) (accepted : Bool) :
    publishUpdate cursor (oneUpdate count accepted) =
      if accepted then (⟨cursor.counts.insert oneKey count⟩,
        some (oneSnapshot (count - cursor.previous oneKey))) else (cursor, none) := by
  simp only [publishUpdate, oneUpdate, oneDelta cursor count h, if_true]
  cases accepted <;> rfl

theorem oneSnapshot_grows {m n : UInt64} (h : m ≤ n) :
    (oneSnapshot n).Grows (oneSnapshot m).observations := by
  intro key
  rw [oneSnapshot_observations, oneSnapshot_observations]
  split_ifs
  · rw [UInt64.le_iff_toNat_le] at h
    exact ⟨List.replicate (n.toNat - m.toNat) none, by
      rw [List.replicate_append_replicate, Nat.add_sub_cancel' h]⟩
  · exact List.prefix_refl _

/-- Counts 2, 5 and 6 with the second send failing: 2 and 4 are sent. -/
theorem deltas_telescope_retry :
    ((Progress.run [oneUpdate 2 true, oneUpdate 5 false, oneUpdate 6 true]).sent.map
      fun x => countOf x.2 oneKey).sum = countOf (oneSnapshot 6) oneKey := by
  have hold := RawProfileCursor.new.previous_insert_self oneKey 2
  have hrun : (Progress.run [oneUpdate 2 true, oneUpdate 5 false]).cursor =
      ⟨RawProfileCursor.new.counts.insert oneKey 2⟩ := by
    have hlt : RawProfileCursor.new.previous oneKey < 2 := by
      rw [RawProfileCursor.previous_new]
      decide
    have hlt' : (RawProfileCursor.mk
        (RawProfileCursor.new.counts.insert oneKey 2)).previous oneKey < 5 := by
      rw [hold]
      decide
    have hfirst := oneUpdate_publish hlt true
    have hsecond := oneUpdate_publish hlt' false
    rw [if_pos rfl] at hfirst
    rw [if_neg (by decide)] at hsecond
    simp only [Progress.run, Progress.start, Progress.publish, List.foldl_cons, List.foldl_nil,
      hfirst, hsecond]
  have hgrows {m n : UInt64} (h : m ≤ n) := (grows_iff (oneSnapshot_regular m).counted
    (oneSnapshot_regular n).counted).mp (oneSnapshot_grows h)
  refine ((deltas_telescope [oneUpdate 2 true, oneUpdate 5 false] (oneUpdate 6 true) ?_ ?_ ?_ ?_).1
    ?_ oneKey).1
  · simp only [List.cons_append, List.nil_append, List.forall_mem_cons]
    exact ⟨(oneSnapshot_regular 2).counted, (oneSnapshot_regular 5).counted,
      (oneSnapshot_regular 6).counted, by simp⟩
  · simp only [List.cons_append, List.nil_append, List.forall_mem_cons]
    exact ⟨oneSnapshot_enumerates 2, oneSnapshot_enumerates 5, oneSnapshot_enumerates 6, by simp⟩
  · simp only [List.cons_append, List.nil_append, List.pairwise_cons, List.forall_mem_cons]
    exact ⟨⟨(hgrows (by decide)).1, (hgrows (by decide)).1, by simp⟩,
      ⟨(hgrows (by decide)).1, by simp⟩, by simp, .nil⟩
  · simp only [List.cons_append, List.nil_append, List.pairwise_cons, List.forall_mem_cons]
    exact ⟨⟨(hgrows (by decide)).2, (hgrows (by decide)).2, by simp⟩,
      ⟨(hgrows (by decide)).2, by simp⟩, by simp, .nil⟩
  · rw [hrun, oneUpdate_publish (by rw [hold]; decide), if_pos rfl]
    exact Option.some_ne_none _

end PProfessor.Publishing
