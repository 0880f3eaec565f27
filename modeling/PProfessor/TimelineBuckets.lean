import PProfessor.KitOverflow
import PProfessor.ProfileTimeline

set_option autoImplicit false

/-!
# The buckets of the timeline

Which bucket a sample falls into, and for which profiles the timeline gets that far.
-/
namespace PProfessor.Kit
open CheckedArith Fallible Pprof

theorem toInt_max (a b : Int64) : (max a b).toInt = max a.toInt b.toInt := by
  rcases le_total a b with h | h
  · rw [max_eq_right h, max_eq_right (Int64.le_iff_toInt_le.mp h)]
  · rw [max_eq_left h, max_eq_left (Int64.le_iff_toInt_le.mp h)]

theorem toInt_min (a b : Int64) : (min a b).toInt = min a.toInt b.toInt := by
  rcases le_total a b with h | h
  · rw [min_eq_left h, min_eq_left (Int64.le_iff_toInt_le.mp h)]
  · rw [min_eq_right h, min_eq_right (Int64.le_iff_toInt_le.mp h)]

theorem toInt_sub_of_inI64 {a b : Int64} (h : InI64 (a.toInt - b.toInt)) :
    (a - b).toInt = a.toInt - b.toInt := by
  rw [Int64.toInt_sub, bmod_eq_self h]

theorem addTrapping_returnsWhen (a b : Int64) :
    ReturnsWhen (InI64 (a.toInt + b.toInt)) (a + b) (addTrapping a b) := by
  by_cases h : InI64 (a.toInt + b.toInt)
  · rw [addTrapping, addI64, if_pos h]
    exact (ReturnsWhen.of_ok _).iff (by simp [h])
  · rw [addTrapping_overflows h]
    exact .of_error h

theorem mulTrapping_returnsWhen (a b : Int64) :
    ReturnsWhen (InI64 (a.toInt * b.toInt)) (a * b) (mulTrapping a b) := by
  unfold mulTrapping
  split_ifs with h
  · exact (ReturnsWhen.of_ok _).iff (by simp [h])
  · exact .of_error h

namespace DecodedProfile

variable (canon : String → String) (profile : DecodedProfile)

def textAt (index : UInt64) : String := (profile.stringTable[index.toNat]?).getD ""

theorem string_returnsWhen (index : UInt64) :
    ReturnsWhen (index.toNat < 2 ^ 63) (profile.textAt index) (profile.string index) := by
  unfold string textAt
  split_ifs with htrap hout
  · exact .of_error (by omega)
  · rw [List.getElem?_eq_none hout]
    exact (ReturnsWhen.of_ok _).iff (by simp; omega)
  · rw [List.getElem?_eq_getElem (by omega)]
    exact (ReturnsWhen.of_ok _).iff (by simp; omega)

/-- The timestamp that the labels carry. -/
def timestampOf : List Label → Option Int64
  | [] => none
  | label :: rest =>
    if sameString canon (profile.textAt label.key) pprofessorTimestampLabel then
      let unit := if label.numUnit = 0 then "" else profile.textAt label.numUnit
      if unit = "" ∨ sameString canon unit "nanoseconds" then some label.num else none
    else timestampOf rest

/-- `Int(_:)` converts the indexes that looking for the timestamp comes across. -/
def TimestampConverts : List Label → Prop
  | [] => True
  | label :: rest =>
    label.key.toNat < 2 ^ 63 ∧
      if sameString canon (profile.textAt label.key) pprofessorTimestampLabel then
        label.numUnit.toNat < 2 ^ 63
      else TimestampConverts rest

theorem timestampIn_returnsWhen (labels : List Label) :
    ReturnsWhen (TimestampConverts canon profile labels) (timestampOf canon profile labels)
      (timestampIn canon profile labels) := by
  induction labels with
  | nil => exact .of_ok none
  | cons label rest ih =>
    unfold timestampIn timestampOf TimestampConverts
    refine (string_returnsWhen profile label.key).bind fun _ => ?_
    by_cases hkey : sameString canon (profile.textAt label.key) pprofessorTimestampLabel = true
    · simp only [hkey, if_true]
      by_cases hzero : label.numUnit = 0
      · simp only [hzero, if_true]
        exact (ReturnsWhen.of_ok _).iff (by simp)
      · simp only [hzero, if_false]
        exact (string_returnsWhen profile label.numUnit).bind_ok fun _ => rfl
    · simp only [hkey]
      exact ih

def threadLabelOf : List Label → Option String
  | [] => none
  | label :: rest =>
    if threadKeys.any (sameString canon (profile.textAt label.key)) then
      if label.strIndex ≠ 0 then some (profile.textAt label.strIndex)
      else if label.num ≠ 0 then some (toString label.num.toInt)
      else threadLabelOf rest
    else threadLabelOf rest

/-- `Int(_:)` converts the indexes that looking for the thread label comes across. -/
def ThreadLabelConverts : List Label → Prop
  | [] => True
  | label :: rest =>
    label.key.toNat < 2 ^ 63 ∧
      if threadKeys.any (sameString canon (profile.textAt label.key)) then
        if label.strIndex ≠ 0 then label.strIndex.toNat < 2 ^ 63
        else label.num ≠ 0 ∨ ThreadLabelConverts rest
      else ThreadLabelConverts rest

theorem threadLabelIn_returnsWhen (labels : List Label) :
    ReturnsWhen (ThreadLabelConverts canon profile labels) (threadLabelOf canon profile labels)
      (threadLabelIn canon profile labels) := by
  induction labels with
  | nil => exact .of_ok none
  | cons label rest ih =>
    unfold threadLabelIn threadLabelOf ThreadLabelConverts
    refine (string_returnsWhen profile label.key).bind fun _ => ?_
    split_ifs with hkey hstr hnum
    · exact (string_returnsWhen profile label.strIndex).map some
    · exact (ReturnsWhen.of_ok _).iff (by simp [hnum])
    · exact ih.iff (by simp [hnum])
    · exact ih

end DecodedProfile

namespace ProfileTimeline

variable {D : Type}

def clampedTimestamp (duration : ℤ) (timestamp : Int64) : ℤ :=
  max 0 (min timestamp.toInt (duration - 1))

def bucketIndex (duration : ℤ) (count : ℕ) (timestamp : Int64) : ℕ :=
  (clampedTimestamp duration timestamp * count / duration).toNat

def effectiveBucketCount (bucketCount eligible : ℕ) : ℕ := min bucketCount (max 16 (eligible / 3))

theorem effectiveBucketCount_pos {bucketCount : ℕ} (h : 0 < bucketCount) (eligible : ℕ) :
    0 < effectiveBucketCount bucketCount eligible := by
  unfold effectiveBucketCount
  omega

theorem clampedTimestamp_nonneg (duration : ℤ) (timestamp : Int64) :
    0 ≤ clampedTimestamp duration timestamp := le_max_left _ _

theorem clampedTimestamp_lt {duration : ℤ} (hpos : 1 ≤ duration) (timestamp : Int64) :
    clampedTimestamp duration timestamp < duration := by
  unfold clampedTimestamp
  omega

theorem clampedTimestamp_mono (duration : ℤ) {t t' : Int64} (h : t ≤ t') :
    clampedTimestamp duration t ≤ clampedTimestamp duration t' := by
  have hle := Int64.le_iff_toInt_le.mp h
  unfold clampedTimestamp
  omega

theorem quotient_lt {duration : ℤ} (hpos : 1 ≤ duration) {count : ℕ} (hcount : 0 < count)
    (timestamp : Int64) : clampedTimestamp duration timestamp * count / duration < count := by
  have hlt := clampedTimestamp_lt hpos timestamp
  have hc : (0 : ℤ) < count := by exact_mod_cast hcount
  apply Int.ediv_lt_of_lt_mul (by omega)
  rw [mul_comm (count : ℤ)]
  exact mul_lt_mul_of_pos_right hlt hc

theorem bucketIndex_lt {duration : ℤ} (hpos : 1 ≤ duration) {count : ℕ} (hcount : 0 < count)
    (timestamp : Int64) : bucketIndex duration count timestamp < count := by
  have hlt := quotient_lt hpos hcount timestamp
  unfold bucketIndex
  omega

theorem bucketIndex_mono {duration : ℤ} (hpos : 1 ≤ duration) (count : ℕ) {t t' : Int64}
    (h : t ≤ t') : bucketIndex duration count t ≤ bucketIndex duration count t' := by
  have hle := mul_le_mul_of_nonneg_right (clampedTimestamp_mono duration h)
    (by omega : (0 : ℤ) ≤ count)
  exact Int.toNat_le_toNat (Int.ediv_le_ediv (by omega) hle)

def ProductFits (duration : ℤ) (count : ℕ) (timestamp : Int64) : Prop :=
  clampedTimestamp duration timestamp * count < 2 ^ 63

instance (duration : ℤ) (count : ℕ) (timestamp : Int64) :
    Decidable (ProductFits duration count timestamp) := inferInstanceAs (Decidable (_ < _))

def gain (P : Platform D) (weights : Std.ExtHashMap (List UInt64) D × D) (e : EligibleSample D) :
    D :=
  let stackWeight := weights.1.getD e.sample.locationIds e.value
  let surprise := if P.doubles.lt (P.doubles.ofRat 0) weights.2 then
      P.doubles.log2 (P.doubles.div weights.2 stackWeight)
    else P.doubles.ofRat 0
  P.doubles.mul e.value (P.doubles.add (P.doubles.ofRat 1) surprise)

def put (P : Platform D) (weights : Std.ExtHashMap (List UInt64) D × D) (duration : ℤ) (count : ℕ)
    (rawBuckets : List D) (e : EligibleSample D) : List D :=
  rawBuckets.modify (bucketIndex duration count e.timestamp) fun bucket =>
    P.doubles.add bucket (gain P weights e)

theorem toInt_clamped {duration : Int64} (hpos : 1 ≤ duration.toInt) (timestamp : Int64) :
    (min (max 0 timestamp) (duration - 1)).toInt =
      clampedTimestamp duration.toInt timestamp := by
  have hlt := duration.toInt_lt
  have hpred : (duration - 1).toInt = duration.toInt - 1 :=
    toInt_sub_of_inI64 ⟨by change _ ≤ duration.toInt - 1; omega,
      by change duration.toInt - 1 < _; omega⟩
  rw [toInt_min, toInt_max, hpred]
  change min (max 0 timestamp.toInt) (duration.toInt - 1) = _
  unfold clampedTimestamp
  omega

theorem fill_returnsWhen (P : Platform D) (weights : Std.ExtHashMap (List UInt64) D × D)
    {duration : Int64} (hpos : 1 ≤ duration.toInt) {count : ℕ} (hcount : 0 < count)
    (hsize : count < 2 ^ 63) (rawBuckets : List D) (e : EligibleSample D) :
    ReturnsWhen (ProductFits duration.toInt count e.timestamp)
      (put P weights duration.toInt count rawBuckets e)
      (fill P weights duration count rawBuckets e) := by
  have hclamped := toInt_clamped hpos e.timestamp
  have hofNat : (Int64.ofNat count).toInt = count := Int64.toInt_ofNat_of_lt (by omega)
  have hnonneg : 0 ≤ clampedTimestamp duration.toInt e.timestamp * count :=
    mul_nonneg (clampedTimestamp_nonneg _ _) (by omega)
  have hmul := mulTrapping_returnsWhen (min (max 0 e.timestamp) (duration - 1)) (.ofNat count)
  rw [hclamped, hofNat] at hmul
  have hiff : InI64 (clampedTimestamp duration.toInt e.timestamp * count) ↔
      ProductFits duration.toInt count e.timestamp :=
    ⟨fun h => h.2, fun h => ⟨by omega, h⟩⟩
  refine (hmul.bind_ok fun hfits => ?_).iff hiff
  -- Both factors are small enough, so nothing wraps around from here on.
  have hscaled : (min (max 0 e.timestamp) (duration - 1) * Int64.ofNat count).toInt =
      clampedTimestamp duration.toInt e.timestamp * count := by
    rw [Int64.toInt_mul, hclamped, hofNat, bmod_eq_self hfits]
  have hquotient := quotient_lt hpos hcount e.timestamp
  have hq0 := Int.ediv_nonneg hnonneg (by omega : 0 ≤ duration.toInt)
  have hindex : min (count - 1)
      (min (max 0 e.timestamp) (duration - 1) * Int64.ofNat count / duration).toInt.toNat =
      bucketIndex duration.toInt count e.timestamp := by
    rw [Int64.toInt_div, hscaled, Int.tdiv_eq_ediv_of_nonneg hnonneg,
      bmod_eq_self ⟨by omega, by omega⟩]
    unfold bucketIndex
    omega
  unfold put gain
  rw [← hindex]
  rfl

section Eligible

variable (P : Platform D) (profile : DecodedProfile)

def threadMatches (options : ConversionOptions) (sample : Sample) : Bool :=
  match options.threadFilter with
  | none => true
  | some filter =>
    match profile.threadLabelOf P.canon sample.labels with
    | none => false
    | some label => sameString P.canon label filter

def ThreadConverts (options : ConversionOptions) (sample : Sample) : Prop :=
  (rawValue options sample).isSome → options.threadFilter.isSome →
    profile.ThreadLabelConverts P.canon sample.labels

def eligibleOf (options : ConversionOptions) (timed : Sample × Int64) :
    Option (EligibleSample D) :=
  match rawValue options timed.1 with
  | none => none
  | some raw =>
    if threadMatches P profile options timed.1 then
      let value := P.doubles.ofInt64 raw
      if P.doubles.lt (P.doubles.ofRat 0) value then some ⟨timed.1, timed.2, value⟩ else none
    else none

def timed : List (Sample × Int64) :=
  profile.samples.filterMap fun sample =>
    (profile.timestampOf P.canon sample.labels).map (Prod.mk sample)

def eligibleSamples (valueTypeIndex : ℤ) (threadFilter : Option String) :
    List (EligibleSample D) :=
  (timed P profile).filterMap (eligibleOf P profile (options valueTypeIndex threadFilter))

def lastTimestamp : Int64 := ((timed P profile).map Prod.snd).max?.getD 0

def exactDuration : ℤ :=
  max (max 1 profile.durationNanos.toInt)
    ((lastTimestamp P profile).toInt + max 1 profile.period.toInt)

theorem one_le_exactDuration : 1 ≤ exactDuration P profile :=
  le_trans (le_max_left _ _) (le_max_left _ _)

theorem passesThread_returnsWhen (options : ConversionOptions) (sample : Sample) :
    ReturnsWhen (options.threadFilter.isSome → profile.ThreadLabelConverts P.canon sample.labels)
      (threadMatches P profile options sample)
      (passesThread P.canon profile options sample) := by
  unfold passesThread threadMatches
  cases options.threadFilter with
  | none => exact (ReturnsWhen.of_ok true).iff (by simp)
  | some filter =>
    refine ReturnsWhen.iff (P := profile.ThreadLabelConverts P.canon sample.labels) ?_ (by simp)
    refine (profile.threadLabelIn_returnsWhen P.canon sample.labels).bind_ok fun _ => ?_
    cases profile.threadLabelOf P.canon sample.labels with
    | none => rfl
    | some label => rfl

theorem eligible_returnsWhen (options : ConversionOptions) (t : Sample × Int64) :
    ReturnsWhen (ThreadConverts P profile options t.1) (eligibleOf P profile options t)
      (eligible P profile options t) := by
  unfold eligible eligibleOf ThreadConverts
  cases rawValue options t.1 with
  | none => exact (ReturnsWhen.of_ok none).iff (by simp)
  | some raw =>
    refine ((passesThread_returnsWhen P profile options t.1).bind_ok fun _ => ?_).iff (by simp)
    cases threadMatches P profile options t.1 with
    | true => rfl
    | false => rfl

theorem timedSamples_returnsWhen :
    ReturnsWhen (∀ s ∈ profile.samples, profile.TimestampConverts P.canon s.labels)
      (timed P profile) (timedSamples P profile) := by
  have hloop : ReturnsWhen (∀ s ∈ profile.samples, profile.TimestampConverts P.canon s.labels)
      (profile.samples.map fun sample =>
        (profile.timestampOf P.canon sample.labels).map (Prod.mk sample))
      (profile.samples.mapM fun sample => do
        let timestamp ← profileTimestampNanos P.canon profile sample
        return timestamp.map (Prod.mk sample)) := by
    refine ReturnsWhen.mapM fun sample _ => ?_
    exact (profile.timestampIn_returnsWhen P.canon sample.labels).bind_ok fun _ => rfl
  have htimed : (profile.samples.map fun sample =>
      (profile.timestampOf P.canon sample.labels).map (Prod.mk sample)).filterMap id =
      timed P profile := List.filterMap_map
  unfold timedSamples
  rw [← htimed]
  exact hloop.bind_ok fun _ => rfl

end Eligible

section Build

variable (P : Platform D) (profile : DecodedProfile) (valueTypeIndex : ℤ)
  (threadFilter : Option String) (bucketCount : ℕ)

def exactBucketCount : ℕ :=
  effectiveBucketCount bucketCount (eligibleSamples P profile valueTypeIndex threadFilter).length

def exactBuckets : List D :=
  let samples := eligibleSamples P profile valueTypeIndex threadFilter
  let count := exactBucketCount P profile valueTypeIndex threadFilter bucketCount
  let weights := samples.foldl (weigh P) (∅, P.doubles.ofRat 0)
  normalized P (samples.foldl (put P weights (exactDuration P profile) count)
    (List.replicate count (P.doubles.ofRat 0)))

/-- The timeline has the buckets of the exact indexes, which are in range and in order. -/
structure BucketsExactly : Prop where
  builds : ∃ duration : Int64, duration.toInt = exactDuration P profile ∧
    build P profile valueTypeIndex threadFilter bucketCount =
      .ok (if profile.samples = [] then none
        else some ⟨duration, exactBuckets P profile valueTypeIndex threadFilter bucketCount⟩)
  inRange : ∀ e ∈ eligibleSamples P profile valueTypeIndex threadFilter,
    bucketIndex (exactDuration P profile)
        (exactBucketCount P profile valueTypeIndex threadFilter bucketCount) e.timestamp <
      exactBucketCount P profile valueTypeIndex threadFilter bucketCount
  monotone : ∀ e ∈ eligibleSamples P profile valueTypeIndex threadFilter,
    ∀ e' ∈ eligibleSamples P profile valueTypeIndex threadFilter, e.timestamp ≤ e'.timestamp →
      bucketIndex (exactDuration P profile)
          (exactBucketCount P profile valueTypeIndex threadFilter bucketCount) e.timestamp ≤
        bucketIndex (exactDuration P profile)
          (exactBucketCount P profile valueTypeIndex threadFilter bucketCount) e'.timestamp

/-- The numbers of the profile are small enough for the timeline. -/
structure Fits : Prop where
  timestamps : ∀ s ∈ profile.samples, profile.TimestampConverts P.canon s.labels
  threads : ∀ s ∈ profile.samples,
    ThreadConverts P profile (options valueTypeIndex threadFilter) s
  ending : (lastTimestamp P profile).toInt + max 1 profile.period.toInt < 2 ^ 63
  products : ∀ e ∈ eligibleSamples P profile valueTypeIndex threadFilter,
    ProductFits (exactDuration P profile)
      (exactBucketCount P profile valueTypeIndex threadFilter bucketCount) e.timestamp

variable {P profile valueTypeIndex threadFilter bucketCount}

theorem ending_inI64_iff : InI64 ((lastTimestamp P profile).toInt + (max 1 profile.period).toInt) ↔
    (lastTimestamp P profile).toInt + max 1 profile.period.toInt < 2 ^ 63 := by
  have hlast := (lastTimestamp P profile).le_toInt
  rw [toInt_max]
  change InI64 (_ + max 1 profile.period.toInt) ↔ _
  exact ⟨fun h => h.2, fun h => ⟨by omega, h⟩⟩

/-- The duration that `build` computes, if its sum does not overflow. -/
def computedDuration (P : Platform D) (profile : DecodedProfile) : Int64 :=
  max (max 1 profile.durationNanos) (lastTimestamp P profile + max 1 profile.period)

theorem toInt_computedDuration
    (h : (lastTimestamp P profile).toInt + max 1 profile.period.toInt < 2 ^ 63) :
    (computedDuration P profile).toInt = exactDuration P profile := by
  have hin := ending_inI64_iff.mpr h
  unfold computedDuration exactDuration
  rw [toInt_max, toInt_max, Int64.toInt_add, bmod_eq_self hin, toInt_max]
  rfl

theorem timed_length (htimed : ∀ s ∈ profile.samples,
    (profile.timestampOf P.canon s.labels).isSome) :
    (timed P profile).length = profile.samples.length := by
  unfold timed
  generalize profile.samples = samples at htimed ⊢
  induction samples with
  | nil => rfl
  | cons s samples ih =>
    rw [List.forall_mem_cons] at htimed
    obtain ⟨timestamp, ht⟩ := Option.isSome_iff_exists.mp htimed.1
    simp only [List.filterMap_cons, ht, Option.map_some, List.length_cons, ih htimed.2]

theorem duration_returnsWhen (hlength : (timed P profile).length = profile.samples.length) :
    ReturnsWhen ((lastTimestamp P profile).toInt + max 1 profile.period.toInt < 2 ^ 63)
      (some (computedDuration P profile)) (duration profile (timed P profile)) := by
  unfold duration
  rw [if_pos hlength]
  refine ReturnsWhen.iff ?_ ending_inI64_iff
  exact (addTrapping_returnsWhen _ _).bind_ok fun _ => rfl

theorem fillBuckets_returnsWhen (hcount : 0 < bucketCount) (hsize : bucketCount < 2 ^ 63)
    {duration : Int64} (hduration : duration.toInt = exactDuration P profile) :
    ReturnsWhen
      ((∀ t ∈ timed P profile, ThreadConverts P profile (options valueTypeIndex threadFilter) t.1) ∧
        ∀ e ∈ eligibleSamples P profile valueTypeIndex threadFilter,
          ProductFits (exactDuration P profile)
            (exactBucketCount P profile valueTypeIndex threadFilter bucketCount) e.timestamp)
      (exactBuckets P profile valueTypeIndex threadFilter bucketCount)
      (fillBuckets P profile valueTypeIndex threadFilter bucketCount (timed P profile)
        duration) := by
  have hpos : 1 ≤ duration.toInt := hduration ▸ one_le_exactDuration P profile
  have hloop := ReturnsWhen.mapM fun t (_ : t ∈ timed P profile) =>
    eligible_returnsWhen P profile (options valueTypeIndex threadFilter) t
  have hsamples : ((timed P profile).map
      (eligibleOf P profile (options valueTypeIndex threadFilter))).filterMap id =
      eligibleSamples P profile valueTypeIndex threadFilter := List.filterMap_map
  unfold fillBuckets exactBuckets
  refine hloop.bind fun _ => ?_
  rw [hsamples]
  have heffective := effectiveBucketCount_pos hcount
    (eligibleSamples P profile valueTypeIndex threadFilter).length
  have hle : exactBucketCount P profile valueTypeIndex threadFilter bucketCount ≤ bucketCount :=
    min_le_left _ _
  rw [← hduration]
  refine ReturnsWhen.bind_ok (ReturnsWhen.foldlM (fun rawBuckets e _ => ?_) _) fun _ => rfl
  exact fill_returnsWhen P _ hpos heffective (lt_of_le_of_lt hle hsize) rawBuckets e

theorem build_returnsWhen (hcount : 0 < bucketCount) (hsize : bucketCount < 2 ^ 63)
    (htimed : ∀ s ∈ profile.samples, (profile.timestampOf P.canon s.labels).isSome)
    (hsamples : profile.samples ≠ []) :
    ReturnsWhen (Fits P profile valueTypeIndex threadFilter bucketCount)
      (some ⟨computedDuration P profile,
        exactBuckets P profile valueTypeIndex threadFilter bucketCount⟩)
      (build P profile valueTypeIndex threadFilter bucketCount) := by
  have hthreads : (∀ t ∈ timed P profile,
      ThreadConverts P profile (options valueTypeIndex threadFilter) t.1) ↔
      ∀ s ∈ profile.samples, ThreadConverts P profile (options valueTypeIndex threadFilter) s := by
    constructor
    · intro h s hs
      obtain ⟨timestamp, ht⟩ := Option.isSome_iff_exists.mp (htimed s hs)
      refine h (s, timestamp) (List.mem_filterMap.mpr ⟨s, hs, ?_⟩)
      rw [ht]
      rfl
    · intro h t ht
      obtain ⟨s, hs, hst⟩ := List.mem_filterMap.mp ht
      obtain ⟨timestamp, -, rfl⟩ := Option.map_eq_some_iff.mp hst
      exact h s hs
  unfold build
  rw [if_neg (by rintro (h | h) <;> [exact hsamples h; omega])]
  refine ReturnsWhen.iff ((timedSamples_returnsWhen P profile).bind fun _ =>
    (duration_returnsWhen (timed_length htimed)).bind fun hending =>
      (fillBuckets_returnsWhen hcount hsize (toInt_computedDuration hending)).bind_ok
        fun _ => rfl) ?_
  rw [hthreads]
  exact ⟨fun ⟨h1, h2, h3, h4⟩ => ⟨h1, h3, h2, h4⟩, fun h => ⟨h.1, h.3, h.2, h.4⟩⟩

theorem fits_of_no_samples (h : profile.samples = []) :
    Fits P profile valueTypeIndex threadFilter bucketCount := by
  have htimed : timed P profile = [] := by
    unfold timed
    rw [h]
    rfl
  have heligible : eligibleSamples P profile valueTypeIndex threadFilter = [] := by
    unfold eligibleSamples
    rw [htimed]
    rfl
  have hperiod := profile.period.toInt_lt
  refine ⟨by simp [h], by simp [h], ?_, by simp [heligible]⟩
  unfold lastTimestamp
  rw [htimed]
  change 0 + max 1 profile.period.toInt < 2 ^ 63
  omega

theorem fits_of_builds (hcount : 0 < bucketCount) (hsize : bucketCount < 2 ^ 63)
    (htimed : ∀ s ∈ profile.samples, (profile.timestampOf P.canon s.labels).isSome)
    (h : BucketsExactly P profile valueTypeIndex threadFilter bucketCount) :
    Fits P profile valueTypeIndex threadFilter bucketCount := by
  obtain ⟨duration, -, hbuild⟩ := h.builds
  by_cases hsamples : profile.samples = []
  · exact fits_of_no_samples hsamples
  · exact (build_returnsWhen hcount hsize htimed hsamples).2 _ hbuild

theorem buckets_exact_iff (P : Platform D) (profile : DecodedProfile) (valueTypeIndex : ℤ)
    (threadFilter : Option String) (bucketCount : ℕ) (hcount : 0 < bucketCount)
    (hsize : bucketCount < 2 ^ 63)
    (htimed : ∀ s ∈ profile.samples, (profile.timestampOf P.canon s.labels).isSome) :
    BucketsExactly P profile valueTypeIndex threadFilter bucketCount ↔
      Fits P profile valueTypeIndex threadFilter bucketCount := by
  have hpos := one_le_exactDuration P profile
  have heffective : 0 < exactBucketCount P profile valueTypeIndex threadFilter bucketCount :=
    effectiveBucketCount_pos hcount _
  refine ⟨fits_of_builds hcount hsize htimed, fun hfits => ⟨?_, ?_, ?_⟩⟩
  · refine ⟨computedDuration P profile, toInt_computedDuration hfits.ending, ?_⟩
    split_ifs with hsamples
    · unfold build
      rw [if_pos (.inl hsamples)]
    · exact (build_returnsWhen hcount hsize htimed hsamples).1 hfits
  · exact fun e _ => bucketIndex_lt hpos heffective e.timestamp
  · exact fun e _ e' _ hle => bucketIndex_mono hpos _ hle

end Build

def oneSample (timestamp : Int64) : DecodedProfile :=
  { DecodedProfile.new with
    sampleTypes := [⟨0, 0⟩]
    samples := [⟨[], [1], [⟨1, 0, timestamp, 0⟩]⟩]
    stringTable := ["", "pprofessor::timestamp"]
    durationNanos := 10 }

theorem oneSample_timed (timestamp : Int64) : ∀ s ∈ (oneSample timestamp).samples,
    ((oneSample timestamp).timestampOf plain.canon s.labels) = some timestamp := by
  intro s hs
  rw [List.mem_singleton.mp hs]
  rfl

theorem buckets_exact_iff_early : BucketsExactly plain (oneSample 5) 0 none 512 := by
  refine (buckets_exact_iff plain (oneSample 5) 0 none 512 (by decide) (by decide)
    fun s hs => ?_).mpr ⟨fun s hs => ?_, fun s hs => ?_, by decide, fun e he => ?_⟩
  · rw [oneSample_timed 5 s hs]
    rfl
  · rw [List.mem_singleton.mp hs]
    exact ⟨by decide, (by decide : (0 : ℕ) < 2 ^ 63)⟩
  · exact fun _ h => absurd h Bool.false_ne_true
  · rw [List.mem_singleton.mp he]
    decide

/-- Sixteen times the nanoseconds since 1970 is no `Int64`. -/
theorem epoch_timestamp_traps :
    ((oneSample 1700000000000000000).samples.all fun s =>
      ((oneSample 1700000000000000000).timestampOf plain.canon s.labels).isSome) ∧
    build plain (oneSample 1700000000000000000) 0 none 512 = .error .intOverflow ∧
    ¬BucketsExactly plain (oneSample 1700000000000000000) 0 none 512 := by
  have htrap : build plain (oneSample 1700000000000000000) 0 none 512 = .error .intOverflow := rfl
  refine ⟨rfl, htrap, fun h => ?_⟩
  obtain ⟨duration, -, hbuild⟩ := h.builds
  rw [htrap] at hbuild
  cases hbuild

end ProfileTimeline

end PProfessor.Kit
