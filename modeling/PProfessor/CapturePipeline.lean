import PProfessor.Publishing
import PProfessor.SamplingRun

set_option autoImplicit false

/-!
# From the sampler to the app

A sampling loop and the thread that publishes what it shares, as `run_command` and
`attach_command` of `src/main.rs` run them: the updates fall between the accesses of the loop in
any way, and any of them may find no app or lose its frame.
-/
namespace PProfessor.CapturePipeline
open Capture CheckedArith KeyedSum Kit Kit.LiveProfileAccumulator LiveView Pprof Publishing

/-- What a call of `publish_update` finds: the orders in which it visits the maps, the symbolizer
and the files, the wall clock, whether there is a connection, and whether the frame is taken. -/
structure Attempt where
  order : List (StackKey × RawSampleSeries)
  deltaOrder : List (StackKey × RawSampleSeries)
  symbolizer : Symbolizer
  fileLen : String → Option UInt64
  startWall : ℤ
  connected : Bool
  accepted : Bool

namespace Attempt

def update (attempt : Attempt) (snapshot : RawProfile) : Update :=
  ⟨snapshot, attempt.order, attempt.connected, attempt.accepted⟩

def publication (attempt : Attempt) (snapshot : RawProfile) : Publication :=
  ⟨snapshot, attempt.order, attempt.deltaOrder, attempt.symbolizer, attempt.fileLen,
    attempt.startWall⟩

end Attempt

inductive Event where
  | access (access : Access)
  | publish (attempt : Attempt)

/-- The accesses among the events. -/
def accessesOf (events : List Event) : List Access :=
  events.filterMap fun event =>
    match event with
    | .access access => some access
    | .publish _ => none

/-- The shared profile, the cursor, and the deltas whose frames were taken. -/
structure System where
  live : RawProfile
  cursor : RawProfileCursor
  sent : List (Publication × RawProfile)

namespace System

def start (live : RawProfile) : System := ⟨live, .new, []⟩

def publish (s : System) (attempt : Attempt) : System :=
  match publishUpdate s.cursor (attempt.update s.live) with
  | (cursor, some delta) => ⟨s.live, cursor, s.sent ++ [(attempt.publication s.live, delta)]⟩
  | (cursor, none) => { s with cursor := cursor }

def step (s : System) : Event → System
  | .access access => { s with live := access.apply s.live }
  | .publish attempt => s.publish attempt

def run (s : System) (events : List Event) : System := events.foldl step s

/-- Every map is visited in an order that lists its entries. -/
def Ordered (s : System) : List Event → Prop
  | [] => True
  | .access access :: events => Ordered (s.step (.access access)) events
  | .publish attempt :: events =>
    Enumerates attempt.order s.live.stackSeries ∧
      (∀ delta ∈ (publishUpdate s.cursor (attempt.update s.live)).2,
        Enumerates attempt.deltaOrder delta.stackSeries) ∧
      Ordered (s.publish attempt) events

theorem publish_eq_of_none {s : System} {attempt : Attempt} {cursor : RawProfileCursor}
    (h : publishUpdate s.cursor (attempt.update s.live) = (cursor, none)) :
    s.publish attempt = s := by
  rw [publish, h, publishUpdate_none h]

theorem publish_eq_of_some {s : System} {attempt : Attempt} {cursor : RawProfileCursor}
    {delta : RawProfile}
    (h : publishUpdate s.cursor (attempt.update s.live) = (cursor, some delta)) :
    s.publish attempt =
      ⟨s.live, cursor, s.sent ++ [(attempt.publication s.live, delta)]⟩ := by
  rw [publish, h]

end System

/-- The observations of a log under each thread and stack. -/
def observationsOf (log : List ThreadSample) (key : StackKey) : List (Option UInt64) :=
  (sampledAt log key).map some

/-- The deltas that were sent add up to the samples that had been taken at some time. -/
structure Inv (s : System) (log seen : List ThreadSample) : Prop where
  live : Represents s.live log
  earlier : seen <+: log
  cursor : s.cursor.Counts (observationsOf seen)
  sent : ∀ key, observed s.sent key = observationsOf seen key
  regular : ∀ x ∈ s.sent, x.2.Regular
  ordered : ∀ x ∈ s.sent, Enumerates x.1.deltaOrder x.2.stackSeries

namespace Inv

variable {s : System} {log seen : List ThreadSample}

theorem start {live : RawProfile} (h : Represents live []) : Inv (.start live) [] [] :=
  ⟨h, List.prefix_refl _, RawProfileCursor.new_counts, fun _ => rfl, List.forall_mem_nil _,
    List.forall_mem_nil _⟩

theorem access (h : Inv s log seen) (access : Access) :
    Inv (s.step (.access access)) (log ++ access.samples) seen :=
  ⟨h.live.apply access, h.earlier.trans (List.prefix_append _ _), h.cursor, h.sent, h.regular,
    h.ordered⟩

/-- An update that is taken brings the deltas up to the log. -/
theorem publish (h : Inv s log seen) (hstack : ∀ sample ∈ log, sample.stack ≠ [])
    (hlength : log.length < 2 ^ 64) {attempt : Attempt}
    (horder : Enumerates attempt.order s.live.stackSeries)
    (hdelta : ∀ delta ∈ (publishUpdate s.cursor (attempt.update s.live)).2,
      Enumerates attempt.deltaOrder delta.stackSeries) :
    ∃ now, Inv (s.publish attempt) log now ∧
      (attempt.connected → attempt.accepted → now = log) := by
  have hregular := h.live.regular hstack hlength
  have hlive : s.live.observations = observationsOf log := funext h.live.observations
  have hgrows : s.live.Grows (observationsOf seen) := by
    obtain ⟨more, rfl⟩ := h.earlier
    intro key
    rw [h.live.observations, sampledAt_append, List.map_append]
    exact List.prefix_append _ _
  obtain ⟨hcursor, hsplit⟩ := RawProfileCursor.delta_spec h.cursor hregular.counted hgrows horder
  rw [hlive] at hcursor hsplit
  rcases hupdate : publishUpdate s.cursor (attempt.update s.live) with ⟨cursor, _ | delta⟩
  · rw [System.publish_eq_of_none hupdate]
    by_cases htaken : attempt.connected ∧ attempt.accepted
    · -- Nothing was new.
      have hnone : (s.cursor.delta s.live attempt.order).1 = none := by
        rcases hd : s.cursor.delta s.live attempt.order with ⟨_ | delta, candidate⟩
        · rfl
        · have hsome := (publishUpdate_some_iff s.cursor candidate (attempt.update s.live)
            delta).mpr ⟨htaken.1, htaken.2, hd⟩
          exact absurd (congrArg Prod.snd (hupdate.symm.trans hsome)) (by simp)
      rw [hnone] at hsplit
      have hsame : observationsOf seen = observationsOf log := (funext hsplit).symm
      refine ⟨log, ⟨h.live, List.prefix_refl _, hsame ▸ h.cursor, fun key => ?_, h.regular,
        h.ordered⟩, fun _ _ => rfl⟩
      rw [← hsame]
      exact h.sent key
    · exact ⟨seen, h,
        fun hconnected haccepted => absurd ⟨hconnected, haccepted⟩ htaken⟩
  · obtain ⟨-, -, hd⟩ := (publishUpdate_some_iff _ _ _ _).mp hupdate
    change s.cursor.delta s.live attempt.order = (some delta, cursor) at hd
    rw [hd] at hcursor hsplit
    rw [hupdate] at hdelta
    rw [System.publish_eq_of_some hupdate]
    refine ⟨log, ⟨h.live, List.prefix_refl _, hcursor, fun key => ?_, ?_, ?_⟩, fun _ _ => rfl⟩
    · rw [hsplit.2 key, ← h.sent key]
      unfold observed
      rw [List.flatMap_append, List.flatMap_singleton]
    · refine List.forall_mem_append.mpr ⟨h.regular, List.forall_mem_singleton.mpr ?_⟩
      exact RawProfileCursor.delta_regular hregular horder (congrArg Prod.fst hd)
    · exact List.forall_mem_append.mpr ⟨h.ordered, List.forall_mem_singleton.mpr (hdelta delta rfl)⟩

/-- What a run preserves. -/
theorem run {events : List Event} (h : Inv s log seen)
    (hstack : ∀ sample ∈ log ++ (accessesOf events).flatMap Access.samples, sample.stack ≠ [])
    (hlength : (log ++ (accessesOf events).flatMap Access.samples).length < 2 ^ 64)
    (hordered : s.Ordered events) :
    ∃ now, Inv (s.run events) (log ++ (accessesOf events).flatMap Access.samples) now ∧
      ∀ attempt, events.getLast? = some (.publish attempt) → attempt.connected →
        attempt.accepted → now = log ++ (accessesOf events).flatMap Access.samples := by
  induction events generalizing s log seen with
  | nil =>
    refine ⟨seen, ?_, fun attempt hlast => absurd hlast (by simp)⟩
    rw [show accessesOf [] = [] from rfl, List.flatMap_nil, List.append_nil]
    exact h
  | cons event events ih =>
    cases event with
    | access access =>
      have haccesses : accessesOf (.access access :: events) = access :: accessesOf events := rfl
      rw [haccesses, List.flatMap_cons, ← List.append_assoc] at hstack hlength ⊢
      obtain ⟨now, hnow, hlast⟩ := ih (h.access access) hstack hlength hordered
      refine ⟨now, hnow, fun attempt hget => hlast attempt ?_⟩
      cases events with
      | nil => cases hget
      | cons event events => rwa [List.getLast?_cons_cons] at hget
    | publish attempt =>
      have haccesses : accessesOf (.publish attempt :: events) = accessesOf events := rfl
      rw [haccesses] at hstack hlength ⊢
      obtain ⟨horder, hdelta, hrest⟩ := hordered
      obtain ⟨now, hnow, htaken⟩ := h.publish
        (fun sample hsample => hstack sample (List.mem_append_left _ hsample))
        (lt_of_le_of_lt (List.sublist_append_left _ _).length_le hlength) horder hdelta
      cases events with
      | nil =>
        rw [show accessesOf [] = [] from rfl, List.flatMap_nil, List.append_nil]
        refine ⟨now, hnow, fun last hget => ?_⟩
        cases hget
        exact htaken
      | cons event events =>
        obtain ⟨later, hlater, hlast⟩ := ih hnow hstack hlength hrest
        refine ⟨later, hlater, fun attempt hget => hlast attempt ?_⟩
        rwa [List.getLast?_cons_cons] at hget

end Inv

section Pipeline

variable {text : List UInt8 → Option String} (htext : ∀ s, text (utf8 s) = some s)
  {canon : String → String} (hcanon : Canonical canon) {freqHz : UInt32} (hfreq : freqHz ≠ 0)
include htext hcanon hfreq

theorem liveView_shows {xs : List (Publication × RawProfile)} (hregular : ∀ x ∈ xs, x.2.Regular)
    (horder : ∀ x ∈ xs, Enumerates x.1.deltaOrder x.2.stackSeries)
    (hfit : ∀ x ∈ xs, VecsFit (published freqHz x)) (hrange : InRange freqHz (observed xs))
    (hsize : 1 + (xs.map fun x => cost (.ofModel (published freqHz x) none)).sum < 2 ^ 63) :
    ∃ payloads acc, xs.mapM (payload freqHz) = .ok payloads ∧
      liveView text canon payloads = .ok acc ∧
      ∀ k j, amount canon acc.profile k j = scale freqHz j * occurrences (observed xs) k := by
  obtain ⟨ds, hds⟩ := exists_forall₂ fun x hx => delivers htext hcanon (hregular x hx)
    (horder x hx) (hfit x hx)
    (hrange.of_sublist fun key => List.sublist_flatten_of_mem (List.mem_map_of_mem hx))
  obtain ⟨acc, hacc, hamount⟩ := mergeAll_shows hds hrange hsize
  exact ⟨_, acc, payloads_eq hfreq xs, (liveView_eq_mergeAll hds).trans hacc, hamount⟩

variable
  {deadline : Option ℕ} {startTime : ℕ} {final : List LoadedImage × ℕ} (loop : PlatformLoop)
  {live : RawProfile} (hlive : Represents live [])
  (hlength : (loop.samples deadline startTime).length < 2 ^ 64)
  (hrange : InRange freqHz (observationsOf (loop.samples deadline startTime)))
include hlive hlength hrange

/-- However the updates fall between the accesses of a loop, and whichever of them fail, the app
shows the samples that had been taken at some time, each once. After an update that is taken these
are all samples so far. -/
theorem live_pipeline {events : List Event}
    (haccesses : accessesOf events <+: (loop.run deadline startTime final).accesses)
    (hordered : (System.start live).Ordered events)
    (hfit : ∀ x ∈ ((System.start live).run events).sent, VecsFit (published freqHz x))
    (hsize : 1 + (((System.start live).run events).sent.map fun x =>
      cost (.ofModel (published freqHz x) none)).sum < 2 ^ 63) :
    ∃ seen payloads acc,
      ((System.start live).run events).sent.mapM (payload freqHz) = .ok payloads ∧
      liveView text canon payloads = .ok acc ∧
      (∀ (thread : UInt64) (stack : List UInt64) (t : Option UInt64),
        amount canon acc.profile (some ((thread, stack), t)) 0 =
          (observationsOf seen (thread, stack)).count t ∧
        amount canon acc.profile (some ((thread, stack), t)) 1 =
          (observationsOf seen (thread, stack)).count t * (periodNanos freqHz).toInt) ∧
      seen <+: (accessesOf events).flatMap Access.samples ∧
      (accessesOf events).flatMap Access.samples <+: loop.samples deadline startTime ∧
      ∀ attempt, events.getLast? = some (.publish attempt) → attempt.connected →
        attempt.accepted → seen = (accessesOf events).flatMap Access.samples := by
  obtain ⟨hsamples, -⟩ := @PlatformLoop.run_spec deadline startTime final loop
  have htaken : (accessesOf events).flatMap Access.samples <+:
      loop.samples deadline startTime := by
    obtain ⟨rest, hrest⟩ := haccesses
    rw [← hsamples, ← hrest, List.flatMap_append]
    exact List.prefix_append _ _
  obtain ⟨seen, hinv, hlast⟩ := (Inv.start hlive).run
    (fun sample hsample => loop.samples_ne_nil sample (htaken.subset hsample))
    (lt_of_le_of_lt htaken.length_le hlength) hordered
  rw [List.nil_append] at hinv hlast
  have hseen : observed ((System.start live).run events).sent = observationsOf seen :=
    funext hinv.sent
  have hsub (key : StackKey) : (observationsOf seen key).Sublist
      (observationsOf (loop.samples deadline startTime) key) :=
    ((((hinv.earlier.trans htaken).sublist).filter _).map _).map _
  obtain ⟨payloads, acc, hpayloads, hacc, hamount⟩ := liveView_shows htext hcanon hfreq
    hinv.regular hinv.ordered hfit (hseen ▸ hrange.of_sublist hsub) hsize
  refine ⟨seen, payloads, acc, hpayloads, hacc, fun thread stack t => ?_, hinv.earlier, htaken,
    hlast⟩
  rw [hamount, hamount, hseen, periodNanos_toInt, scale, scale, one_mul, mul_comm]
  exact ⟨rfl, rfl⟩

/-- The file that is written once a loop has ended holds every sample that the loop took, once. -/
theorem final_profile {profile : RawProfile}
    (hprofile : (loop.run deadline startTime final).result live = some profile)
    {order : List (StackKey × RawSampleSeries)} (horder : Enumerates order profile.stackSeries)
    (symbolizer : Symbolizer) (fileLen : String → Option UInt64) (startWall : ℤ)
    (hfit : VecsFit (builtProfile fileLen
      (fromRawWithSymbolizer profile order symbolizer .hex freqHz startWall))) :
    ∃ bytes d,
      buildProto fileLen (fromRawWithSymbolizer profile order symbolizer .hex freqHz startWall) =
        .ok bytes ∧
      DecodedProfile.decode text bytes = .ok d ∧
      ∀ (thread : UInt64) (stack : List UInt64) (t : Option UInt64),
        amount canon d (some ((thread, stack), t)) 0 =
          (observationsOf (loop.samples deadline startTime) (thread, stack)).count t ∧
        amount canon d (some ((thread, stack), t)) 1 =
          (observationsOf (loop.samples deadline startTime) (thread, stack)).count t *
            (periodNanos freqHz).toInt := by
  have hrepresents : Represents profile (loop.samples deadline startTime) :=
    loop.result_represents hlive hprofile
  have hregular := hrepresents.regular loop.samples_ne_nil hlength
  have hobserved : profile.observations = observationsOf (loop.samples deadline startTime) :=
    funext hrepresents.observations
  have hdelivers := @delivers text htext canon hcanon freqHz
    (⟨profile, order, order, symbolizer, fileLen, startWall⟩, profile) hregular horder hfit
    (hobserved ▸ hrange)
  obtain ⟨d, hd⟩ := hdelivers
  refine ⟨_, d, if_neg hfreq, hd.decoded, fun thread stack t => ?_⟩
  rw [amount_eq_total, amount_eq_total, hd.parts, hd.parts, periodNanos_toInt, scale, scale,
    one_mul, mul_comm, ← hobserved]
  exact ⟨rfl, rfl⟩

end Pipeline

/-! ## Three samples of one thread -/

def mainKey : StackKey := (7, [0x1000])

def workKey : StackKey := (7, [0x1020, 0x1000])

def appLive (series : RawSampleSeries) (endTime : ℕ) : RawProfile where
  stackSeries := ((∅ : StackMap).insert mainKey series).insert workKey ⟨1, some [5]⟩
  threadNames := (∅ : Std.ExtHashMap UInt64 String).insert 7 "worker"
  startTime := 0
  endTime := endTime
  images := [⟨0x1000, "app"⟩]

theorem appLive_main (series : RawSampleSeries) (endTime : ℕ) :
    (appLive series endTime).stackSeries[mainKey]? = some series := by
  rw [appLive, Std.ExtHashMap.getElem?_insert, if_neg (by decide),
    Std.ExtHashMap.getElem?_insert_self]

theorem record_worker {current : RawProfile} {stack : List UInt64} {timestampNanos : UInt64}
    {series : Option RawSampleSeries}
    (hseries : current.stackSeries[((7, stack) : StackKey)]? = series)
    (hnames : current.threadNames = (∅ : Std.ExtHashMap UInt64 String).insert 7 "worker" ∨
      current.threadNames = ∅) :
    current.record ⟨7, "worker", stack, timestampNanos⟩ =
      { current with
        stackSeries := current.stackSeries.insert (7, stack)
          ((series.getD (.timed [])).pushTimestamp timestampNanos)
        threadNames := (∅ : Std.ExtHashMap UInt64 String).insert 7 "worker" } := by
  have hinsert : current.threadNames.insert 7 "worker" =
      (∅ : Std.ExtHashMap UInt64 String).insert 7 "worker" := by
    rcases hnames with h | h
    · rw [h]
      ext1 threadId
      simp [Std.ExtHashMap.getElem?_insert]
    · rw [h]
  unfold RawProfile.record ThreadSample.key
  dsimp only
  rw [hseries, if_neg (by decide), hinsert]

theorem firstDrain_apply : Access.apply emptyLive firstDrain = appLive ⟨1, some [5]⟩ 6 := by
  have hnext : ((∅ : StackMap).insert mainKey ⟨1, some [5]⟩)[workKey]? = none := by
    rw [Std.ExtHashMap.getElem?_insert, if_neg (by decide), Std.ExtHashMap.getElem?_empty]
  have hmain := @record_worker emptyLive [0x1000] 5 none Std.ExtHashMap.getElem?_empty (.inr rfl)
  have hwork := @record_worker { appLive ⟨1, some [5]⟩ 0 with
    stackSeries := (∅ : StackMap).insert mainKey ⟨1, some [5]⟩ } [0x1020, 0x1000] 5 none hnext
    (.inl rfl)
  have hboth : RawProfile.record (RawProfile.record emptyLive ⟨7, "worker", [0x1000], 5⟩)
      ⟨7, "worker", [0x1020, 0x1000], 5⟩ = appLive ⟨1, some [5]⟩ 0 := by
    rw [hmain]
    exact hwork
  exact congrArg (fun live : RawProfile => { live with endTime := 6 }) hboth

theorem secondDrain_apply :
    Access.apply (appLive ⟨1, some [5]⟩ 6) secondDrain = appLive ⟨2, some [5, 12]⟩ 13 := by
  have hmain := @record_worker (appLive ⟨1, some [5]⟩ 6) [0x1000] 12 _ (appLive_main _ _) (.inl rfl)
  have hinsert : (appLive ⟨1, some [5]⟩ 6).stackSeries.insert mainKey ⟨2, some [5, 12]⟩ =
      (appLive ⟨2, some [5, 12]⟩ 13).stackSeries := by
    ext1 key
    simp only [appLive, Std.ExtHashMap.getElem?_insert]
    by_cases hk : mainKey = key
    · subst hk
      rfl
    · simp [hk]
  have hrecord : (appLive ⟨1, some [5]⟩ 6).record ⟨7, "worker", [0x1000], 12⟩ =
      appLive ⟨2, some [5, 12]⟩ 6 :=
    hmain.trans (congrArg (fun map => { appLive ⟨2, some [5, 12]⟩ 6 with stackSeries := map })
      hinsert)
  exact congrArg (fun live : RawProfile => { live with endTime := 13 }) hrecord

theorem appLoop_result :
    (appLoop.run none 0 ([], 30)).result emptyLive = some (appLive ⟨2, some [5, 12]⟩ 30) := by
  have hended : (appLoop.run none 0 ([], 30)).ended = true := by decide
  rw [LoopRun.result, hended, if_pos rfl, appLoop_accesses, List.foldl_cons, firstDrain_apply,
    List.foldl_cons, secondDrain_apply]
  rfl

theorem appLive_enumerates (series : RawSampleSeries) (endTime : ℕ) :
    Enumerates [(mainKey, series), (workKey, ⟨1, some [5]⟩)]
      (appLive series endTime).stackSeries := by
  refine ⟨by simp [mainKey, workKey], fun key other => ?_⟩
  have hne : mainKey ≠ workKey := by decide
  rw [appLive, Std.ExtHashMap.getElem?_insert, Std.ExtHashMap.getElem?_insert]
  simp only [List.mem_cons, List.not_mem_nil, or_false, Prod.mk.injEq, beq_iff_eq]
  by_cases hwork : key = workKey
  · rw [if_pos hwork.symm, Option.some.injEq]
    exact ⟨fun h => h.elim (fun hmain => absurd (hmain.1.symm.trans hwork) hne) (·.2.symm),
      fun h => .inr ⟨hwork, h.symm⟩⟩
  · rw [if_neg (Ne.symm hwork)]
    by_cases hmain : key = mainKey
    · rw [if_pos hmain.symm, Option.some.injEq]
      exact ⟨fun h => h.elim (·.2.symm) fun h => absurd h.1 hwork, fun h => .inl ⟨hmain, h.symm⟩⟩
    · rw [if_neg (Ne.symm hmain)]
      simp [hwork, hmain]

def appSymbolizer : Symbolizer := fun addr =>
  if addr = 0x1020 then some ⟨"work", "main.c", 7⟩
  else if addr = 0x1000 then some ⟨"main", "main.c", 3⟩
  else none

def appSymbolized (series : RawSampleSeries) (endTime : ℕ) : SymbolicatedProfile :=
  fromRawWithSymbolizer (appLive series endTime) [(mainKey, series), (workKey, ⟨1, some [5]⟩)]
    appSymbolizer .hex 1000 0

theorem appSymbolized_frames (series : RawSampleSeries) (endTime : ℕ) :
    (appSymbolized series endTime).frames = ((∅ : Std.ExtHashMap UInt64 StackFrame).insert 0x1020
      ⟨0x1020, "work", "main.c", 7⟩).insert 0x1000 ⟨0x1000, "main", "main.c", 3⟩ := rfl

theorem appSymbolized_onApp (series : RawSampleSeries) (endTime : ℕ) :
    OnApp (appSymbolized series endTime) where
  images := rfl
  main := by
    rw [appSymbolized_frames, Std.ExtHashMap.getElem?_insert_self]
  thread := Std.ExtHashMap.getElem?_insert_self
  freqHz := rfl

theorem appSymbolized_work (series : RawSampleSeries) (endTime : ℕ) :
    (appSymbolized series endTime).frames[(0x1020 : UInt64)]? =
      some ⟨0x1020, "work", "main.c", 7⟩ := by
  rw [appSymbolized_frames, Std.ExtHashMap.getElem?_insert, if_neg (by decide),
    Std.ExtHashMap.getElem?_insert_self]

theorem appFinal_vecsFit (fileLen : String → Option UInt64) (endTime : ℕ) :
    VecsFit (builtProfile fileLen (appSymbolized ⟨2, some [5, 12]⟩ endTime)) := by
  have hbuilt := @builtProfile_work fileLen _ (appSymbolized_onApp ⟨2, some [5, 12]⟩ endTime)
    ⟨7, [0x1000], 1, some 5⟩ [⟨7, [0x1000], 1, some 12⟩] ⟨7, [0x1020, 0x1000], 1, some 5⟩ rfl
    ⟨rfl, rfl⟩ (List.forall_mem_singleton.mpr ⟨rfl, rfl⟩) ⟨rfl, rfl⟩ (appSymbolized_work _ _)
  rw [hbuilt]
  exact workSeen_vecsFit _ _ (by decide)

theorem appLoop_inRange : InRange 1000 (observationsOf (appLoop.samples none 0)) := by
  rw [appLoop_samples]
  constructor
  · intro k j
    have hle : occurrences (observationsOf [⟨7, "worker", [0x1000], 5⟩,
        ⟨7, "worker", [0x1020, 0x1000], 5⟩, ⟨7, "worker", [0x1000], 12⟩]) k ≤ 3 := by
      cases k with
      | none => decide
      | some k =>
        refine Int.ofNat_le.mpr (List.count_le_length.trans ?_)
        rw [observationsOf, sampledAt, List.length_map, List.length_map]
        exact List.length_filter_le _ _
    exact scale_mul_lt 1000 j (hle.trans (by norm_num))
  · intro key t ht
    obtain ⟨u, hu, hut⟩ := List.mem_map.mp ht
    obtain ⟨sample, hsample, rfl⟩ := List.mem_map.mp hu
    rw [← Option.some.inj hut]
    exact (by decide : ∀ sample ∈ [⟨7, "worker", [0x1000], 5⟩,
      ⟨7, "worker", [0x1020, 0x1000], 5⟩, (⟨7, "worker", [0x1000], 12⟩ : ThreadSample)],
      sample.timestampNanos.toNat < 2 ^ 63) sample (List.mem_of_mem_filter hsample)

theorem final_profile_app : ∃ bytes d,
    buildProto (fun _ => none) (appSymbolized ⟨2, some [5, 12]⟩ 30) = .ok bytes ∧
    DecodedProfile.decode fromUtf8 bytes = .ok d ∧
    amount id d (some (mainKey, some 5)) 0 = 1 ∧ amount id d (some (mainKey, some 12)) 0 = 1 ∧
    amount id d (some (workKey, some 5)) 1 = 1000000 ∧
    amount id d (some (workKey, some 12)) 1 = 0 := by
  obtain ⟨bytes, d, hbytes, hd, hamount⟩ := @final_profile fromUtf8
    (fun s => (fromUtf8_eq_some_iff _ _).mpr rfl) id (fun _ _ => rfl) 1000 (by decide) none 0
    ([], 30) appLoop emptyLive (.empty rfl rfl) (by rw [appLoop_samples]; decide) appLoop_inRange
    _ appLoop_result _ (appLive_enumerates _ 30) appSymbolizer (fun _ => none) 0
    (appFinal_vecsFit _ 30)
  rw [appLoop_samples] at hamount
  exact ⟨bytes, d, hbytes, hd, (hamount 7 [0x1000] (some 5)).1.trans rfl,
    (hamount 7 [0x1000] (some 12)).1.trans rfl, (hamount 7 [0x1020, 0x1000] (some 5)).2.trans rfl,
    (hamount 7 [0x1020, 0x1000] (some 12)).2.trans rfl⟩

def firstAttempt : Attempt where
  order := [(mainKey, ⟨1, some [5]⟩), (workKey, ⟨1, some [5]⟩)]
  deltaOrder := [(mainKey, ⟨1, some [5]⟩), (workKey, ⟨1, some [5]⟩)]
  symbolizer := appSymbolizer
  fileLen := fun _ => none
  startWall := 0
  connected := true
  accepted := true

def secondAttempt : Attempt :=
  { firstAttempt with
    order := [(mainKey, ⟨2, some [5, 12]⟩), (workKey, ⟨1, some [5]⟩)]
    deltaOrder := [(mainKey, ⟨1, some [12]⟩)] }

def seenCounts (main : UInt64) : RawProfileCursor :=
  ⟨((∅ : Std.ExtHashMap StackKey UInt64).insert mainKey main).insert workKey 1⟩

def secondDelta : RawProfile :=
  { appLive ⟨2, some [5, 12]⟩ 13 with
    stackSeries := (∅ : StackMap).insert mainKey ⟨1, some [12]⟩ }

theorem previous_insert_main (cursor : RawProfileCursor) (count : UInt64) :
    RawProfileCursor.previous ⟨cursor.counts.insert mainKey count⟩ workKey =
      cursor.previous workKey :=
  cursor.previous_insert_of_ne (by decide) count

theorem seenCounts_main (main : UInt64) : (seenCounts main).previous mainKey = main :=
  (RawProfileCursor.previous_insert_of_ne ⟨_⟩ (by decide) 1).trans
    (RawProfileCursor.previous_insert_self ⟨_⟩ mainKey main)

theorem seenCounts_work (main : UInt64) : (seenCounts main).previous workKey = 1 :=
  RawProfileCursor.previous_insert_self ⟨_⟩ workKey 1

theorem firstAttempt_update :
    publishUpdate .new (firstAttempt.update (appLive ⟨1, some [5]⟩ 6)) =
      (seenCounts 1, some (appLive ⟨1, some [5]⟩ 6)) := by
  have hdelta : RawProfileCursor.new.delta (appLive ⟨1, some [5]⟩ 6) firstAttempt.order =
      (some (appLive ⟨1, some [5]⟩ 6), seenCounts 1) := by
    have hmain := RawProfileCursor.previous_new mainKey
    have hwork := (previous_insert_main .new 1).trans (RawProfileCursor.previous_new workKey)
    unfold RawProfileCursor.delta
    rw [firstAttempt, List.foldl_cons,
      RawProfileCursor.deltaStep_of_lt (by rw [hmain]; decide), List.foldl_cons,
      RawProfileCursor.deltaStep_of_lt (by rw [hwork]; decide), List.foldl_nil, hwork, hmain]
    dsimp only
    rw [if_neg (by simp)]
    rfl
  exact (publishUpdate_some_iff _ _ _ _).mpr ⟨rfl, rfl, hdelta⟩

theorem secondAttempt_update :
    publishUpdate (seenCounts 1) (secondAttempt.update (appLive ⟨2, some [5, 12]⟩ 13)) =
      (⟨(seenCounts 1).counts.insert mainKey 2⟩, some secondDelta) := by
  have hdelta : (seenCounts 1).delta (appLive ⟨2, some [5, 12]⟩ 13) secondAttempt.order =
      (some secondDelta, ⟨(seenCounts 1).counts.insert mainKey 2⟩) := by
    unfold RawProfileCursor.delta
    rw [secondAttempt, List.foldl_cons,
      RawProfileCursor.deltaStep_of_lt (by rw [seenCounts_main]; decide), List.foldl_cons,
      RawProfileCursor.deltaStep_of_not_lt
        (by rw [previous_insert_main, seenCounts_work]; decide),
      List.foldl_nil, seenCounts_main]
    dsimp only
    rw [if_neg (by simp)]
    rfl
  exact (publishUpdate_some_iff _ _ _ _).mpr ⟨rfl, rfl, hdelta⟩

def appEvents : List Event :=
  [.access firstDrain, .publish firstAttempt, .access secondDrain, .publish secondAttempt]

def appSent : List (Publication × RawProfile) :=
  [(firstAttempt.publication (appLive ⟨1, some [5]⟩ 6), appLive ⟨1, some [5]⟩ 6),
    (secondAttempt.publication (appLive ⟨2, some [5, 12]⟩ 13), secondDelta)]

theorem appEvents_run :
    (System.start emptyLive).step (.access firstDrain) = ⟨appLive ⟨1, some [5]⟩ 6, .new, []⟩ ∧
    System.publish ⟨appLive ⟨1, some [5]⟩ 6, .new, []⟩ firstAttempt =
      ⟨appLive ⟨1, some [5]⟩ 6, seenCounts 1, appSent.take 1⟩ ∧
    System.step ⟨appLive ⟨1, some [5]⟩ 6, seenCounts 1, appSent.take 1⟩ (.access secondDrain) =
      ⟨appLive ⟨2, some [5, 12]⟩ 13, seenCounts 1, appSent.take 1⟩ ∧
    (System.publish ⟨appLive ⟨2, some [5, 12]⟩ 13, seenCounts 1, appSent.take 1⟩
      secondAttempt).sent = appSent :=
  ⟨congrArg (System.mk · .new []) firstDrain_apply,
    @System.publish_eq_of_some ⟨appLive ⟨1, some [5]⟩ 6, .new, []⟩ firstAttempt _ _
      firstAttempt_update,
    congrArg (System.mk · (seenCounts 1) (appSent.take 1)) secondDrain_apply,
    congrArg System.sent (@System.publish_eq_of_some ⟨appLive ⟨2, some [5, 12]⟩ 13, seenCounts 1,
      appSent.take 1⟩ secondAttempt _ _ secondAttempt_update)⟩

theorem appEvents_sent : ((System.start emptyLive).run appEvents).sent = appSent := by
  obtain ⟨hfirst, hpublish, hsecond, hsent⟩ := appEvents_run
  change (System.publish (System.step (System.publish (System.step (.start emptyLive)
    (.access firstDrain)) firstAttempt) (.access secondDrain)) secondAttempt).sent = appSent
  rw [hfirst, hpublish, hsecond]
  exact hsent

theorem secondDelta_enumerates :
    Enumerates [(mainKey, ⟨1, some [12]⟩)] secondDelta.stackSeries := by
  refine ⟨List.nodup_singleton _, fun key series => ?_⟩
  rw [secondDelta, Std.ExtHashMap.getElem?_insert, List.mem_singleton, Prod.mk.injEq]
  by_cases h : mainKey = key
  · rw [if_pos (by simpa using h), Option.some.injEq]
    exact ⟨fun hk => hk.2.symm, fun hs => ⟨h.symm, hs.symm⟩⟩
  · rw [if_neg (by simpa using h)]
    simp [Ne.symm h]

theorem appEvents_ordered : (System.start emptyLive).Ordered appEvents := by
  obtain ⟨hfirst, hpublish, hsecond, -⟩ := appEvents_run
  change System.Ordered ((System.start emptyLive).step (.access firstDrain))
    [.publish firstAttempt, .access secondDrain, .publish secondAttempt]
  rw [hfirst]
  refine ⟨appLive_enumerates _ 6, fun delta hdelta => ?_, ?_⟩
  · rw [firstAttempt_update] at hdelta
    cases hdelta
    exact appLive_enumerates _ 6
  · rw [hpublish]
    change System.Ordered (System.step _ (.access secondDrain)) [.publish secondAttempt]
    rw [hsecond]
    refine ⟨appLive_enumerates _ 13, fun delta hdelta => ?_, trivial⟩
    rw [secondAttempt_update] at hdelta
    cases hdelta
    exact secondDelta_enumerates

theorem firstSent_built : published 1000 (firstAttempt.publication (appLive ⟨1, some [5]⟩ 6),
    appLive ⟨1, some [5]⟩ 6) = workSeen (fun _ => none) (appSymbolized ⟨1, some [5]⟩ 6)
      [appSample [1] ⟨7, [0x1000], 1, some 5⟩,
        appSample [2, 1] ⟨7, [0x1020, 0x1000], 1, some 5⟩] :=
  @builtProfile_work (fun _ => none) _ (appSymbolized_onApp ⟨1, some [5]⟩ 6)
    ⟨7, [0x1000], 1, some 5⟩ [] ⟨7, [0x1020, 0x1000], 1, some 5⟩ rfl ⟨rfl, rfl⟩
    (List.forall_mem_nil _) ⟨rfl, rfl⟩ (appSymbolized_work _ _)

def secondSymbolized : SymbolicatedProfile :=
  fromRawWithSymbolizer secondDelta [(mainKey, ⟨1, some [12]⟩)] appSymbolizer .hex 1000 0

theorem secondSent_built : published 1000 (secondAttempt.publication
    (appLive ⟨2, some [5, 12]⟩ 13), secondDelta) = mainSeen (fun _ => none) secondSymbolized
      [appSample [1] ⟨7, [0x1000], 1, some 12⟩] := by
  have honApp : OnApp secondSymbolized :=
    ⟨rfl, Std.ExtHashMap.getElem?_insert_self, Std.ExtHashMap.getElem?_insert_self, rfl⟩
  exact @builtProfile_main (fun _ => none) _ honApp ⟨7, [0x1000], 1, some 12⟩ [] rfl ⟨rfl, rfl⟩
    (List.forall_mem_nil _)

theorem live_pipeline_app : ∃ payloads acc,
    appSent.mapM (payload 1000) = .ok payloads ∧ liveView fromUtf8 id payloads = .ok acc ∧
    amount id acc.profile (some (mainKey, some 5)) 0 = 1 ∧
    amount id acc.profile (some (mainKey, some 12)) 0 = 1 ∧
    amount id acc.profile (some (workKey, some 5)) 1 = 1000000 := by
  have hfit : ∀ x ∈ appSent, VecsFit (published 1000 x) := by
    refine List.forall_mem_cons.mpr ⟨?_, List.forall_mem_singleton.mpr ?_⟩
    · rw [firstSent_built]
      exact workSeen_vecsFit _ _ (by decide)
    · rw [secondSent_built]
      exact mainSeen_vecsFit _ _ (by decide)
  have hsize : 1 + (appSent.map fun x => cost (.ofModel (published 1000 x) none)).sum < 2 ^ 63 := by
    rw [appSent, List.map_cons, List.map_singleton, firstSent_built, secondSent_built]
    change 1 + (41 + (27 + 0)) < 2 ^ 63
    norm_num
  have haccesses : accessesOf appEvents <+: (appLoop.run none 0 ([], 30)).accesses := by
    rw [appLoop_accesses]
    exact List.prefix_append [firstDrain, secondDrain] _
  obtain ⟨seen, payloads, acc, hpayloads, hacc, hamount, -, -, hlast⟩ := @live_pipeline fromUtf8
    (fun s => (fromUtf8_eq_some_iff _ _).mpr rfl) id (fun _ _ => rfl) 1000 (by decide) none 0
    ([], 30) appLoop emptyLive (.empty rfl rfl) (by rw [appLoop_samples]; decide) appLoop_inRange
    appEvents haccesses appEvents_ordered (appEvents_sent ▸ hfit) (appEvents_sent ▸ hsize)
  rw [appEvents_sent] at hpayloads
  have hseen : seen = [⟨7, "worker", [0x1000], 5⟩, ⟨7, "worker", [0x1020, 0x1000], 5⟩,
      ⟨7, "worker", [0x1000], 12⟩] := hlast secondAttempt rfl rfl rfl
  rw [hseen] at hamount
  exact ⟨payloads, acc, hpayloads, hacc, (hamount 7 [0x1000] (some 5)).1.trans rfl,
    (hamount 7 [0x1000] (some 12)).1.trans rfl, (hamount 7 [0x1020, 0x1000] (some 5)).2.trans rfl⟩

end PProfessor.CapturePipeline
