import PProfessor.KitOverflow
import PProfessor.LiveMerge
import PProfessor.SessionCoordinator

set_option autoImplicit false

/-!
# The app's counters

Where the flame graph, the accumulator and the session's sample count add, and
when the sums that they form leave the range of `Int64`.
-/
namespace PProfessor.Coordinator
open CheckedArith Columns Fallible KeyedSum Kit Kit.LiveProfileAccumulator

/-- Every partial sum is in the range of `Int64`. -/
def PartialSumsFit (values : List ℤ) : Prop := ∀ done, done <+: values → InI64 done.sum

def firstValues (profile : DecodedProfile) : List ℤ :=
  profile.samples.map fun sample => cell sample.values 0

def AddsFirst (step : Int64 → Pprof.Sample → Except Trap Int64) : Prop := ∀ count sample,
  step count sample = if InI64 (count.toInt + (sample.values.head?.getD 0).toInt)
    then .ok (count + sample.values.head?.getD 0) else .error .intOverflow

theorem AddsFirst.noOverflow_iff {step : Int64 → Pprof.Sample → Except Trap Int64}
    (h : AddsFirst step) (samples : List Pprof.Sample) (count : Int64) :
    NoOverflow (samples.foldlM step count) ↔
      ∀ done, done <+: (samples.map fun sample => cell sample.values 0) →
        InI64 (count.toInt + done.sum) := by
  induction samples generalizing count with
  | nil =>
    refine iff_of_true (.of_ok _) fun done hd => ?_
    rw [List.prefix_nil.mp hd, List.sum_nil, add_zero]
    exact toInt_inI64 count
  | cons sample rest ih =>
    have hfirst : (sample.values.head?.getD 0).toInt = cell sample.values 0 := by
      cases sample.values <;> rfl
    rw [List.foldlM_cons, List.map_cons, h]
    by_cases hsum : InI64 (count.toInt + (sample.values.head?.getD 0).toInt)
    · have hstep : (count + sample.values.head?.getD 0).toInt =
          count.toInt + cell sample.values 0 := by
        rw [Int64.toInt_add, bmod_eq_self hsum, hfirst]
      rw [if_pos hsum]
      change NoOverflow (rest.foldlM _ (count + sample.values.head?.getD 0)) ↔ _
      rw [ih, hstep]
      constructor
      · intro h done hd
        cases done with
        | nil =>
          rw [List.sum_nil, add_zero]
          exact toInt_inI64 count
        | cons value done =>
          obtain ⟨rfl, htail⟩ := List.cons_prefix_cons.mp hd
          rw [List.sum_cons, ← add_assoc]
          exact h done htail
      · intro h done hd
        rw [add_assoc, ← List.sum_cons]
        exact h _ (List.cons_prefix_cons.mpr ⟨rfl, hd⟩)
    · rw [if_neg hsum]
      refine iff_of_false (not_noOverflow rfl) fun h => hsum ?_
      have hone := h [cell sample.values 0] (List.cons_prefix_cons.mpr ⟨rfl, List.nil_prefix⟩)
      rwa [List.sum_singleton, ← hfirst] at hone

theorem sampleCount_noOverflow_iff (profile : DecodedProfile) :
    NoOverflow (sampleCount profile) ↔ PartialSumsFit (firstValues profile) := by
  unfold sampleCount
  rw [AddsFirst.noOverflow_iff]
  · simp only [Int64.toInt_zero, zero_add]
    rfl
  · intro count sample
    dsimp only
    rw [addI64]
    split_ifs <;> rfl

/-- What the sample count adds up after a sequence of deltas: the first column of each
sum, in the order in which the samples first appeared. -/
def mergedFirstValues (canon : String → String) (ps : List DecodedProfile) : List ℤ :=
  (accumulate (allContributions canon (ps.map DecodedProfile.effective))).map fun entry =>
    Row.col 0 entry.2

theorem firstValues_merged {canon : String → String} {profile : DecodedProfile}
    {ps : List DecodedProfile} (h : Kit.contributions canon profile =
      accumulate (allContributions canon (ps.map DecodedProfile.effective))) :
    firstValues profile = mergedFirstValues canon ps := by
  rw [mergedFirstValues, ← h, Kit.contributions, List.map_map]
  apply List.map_congr_left
  intro sample _
  exact (Row.col_ofValues sample.values 0).symm

/-- The flame graph, the accumulator and the sample count trap in an addition exactly
where the sums that they form up to the first lookup that traps are out of range. -/
theorem counters_overflow_iff (canon : String → String) (profile : DecodedProfile)
    (options : ConversionOptions) (ps : List DecodedProfile)
    (hsize : 1 + (ps.map cost).sum < 2 ^ 63) :
    (NoOverflow (convertProfile canon profile options) ↔
      countedSum (reachedSamples canon profile options) < 2 ^ 63) ∧
    (NoOverflow (mergeAll canon ps) ↔ SumsFit (reached canon false ps)) ∧
    ∀ acc, mergeAll canon ps = .ok acc →
      (NoOverflow (sampleCount acc.profile) ↔ PartialSumsFit (mergedFirstValues canon ps)) := by
  rw [← Nat.zero_add (ps.map cost).sum] at hsize
  have hends := mergeAll_ends canon hsize
  refine ⟨convertProfile_noOverflow_iff canon profile options, hends.overflow_iff, ?_⟩
  intro acc hacc
  rw [hacc] at hends
  rw [sampleCount_noOverflow_iff, firstValues_merged hends.of_ok.2.2.2]

theorem oneSample_convert (values values' : List Int64) :
    AllConvert false [oneSample values, oneSample values'] := by
  have hzero : Converts 0 := by decide
  have htables (xs : List Int64) : TablesConvert false (oneSample xs) := by
    refine ⟨fun _ => ?_, List.forall_mem_nil _, List.forall_mem_nil _⟩
    exact ⟨List.forall_mem_nil _, nofun, hzero, List.forall_mem_nil _, hzero, hzero, hzero⟩
  have hlabels (xs : List Int64) : ∀ s ∈ (oneSample xs).samples, LabelsConvert s := by
    rintro s hs label hlabel
    rw [List.mem_singleton.mp hs] at hlabel
    exact absurd hlabel List.not_mem_nil
  exact ⟨⟨htables _, hlabels _⟩, ⟨htables _, hlabels _⟩, trivial⟩

theorem counters_overflow_iff_small :
    NoOverflow (convertProfile id selfCalling everything) ∧
      NoOverflow (mergeAll id [oneSample [5], oneSample [2, 7]]) := by
  have h := counters_overflow_iff id selfCalling everything [oneSample [5], oneSample [2, 7]]
    (by decide)
  refine ⟨h.1.mpr ?_, h.2.1.mpr ?_⟩
  · have hlookups : lookups id selfCalling everything = .ok none := by
      unfold lookups
      rw [selectedHeapOf_everything rfl]
      rfl
    rw [reachedSamples, hlookups]
    decide
  · rw [reached_of_convert id (oneSample_convert [5] [2, 7])]
    exact sumsFit_twoLengths

def twoSamples : DecodedProfile :=
  { slashed with samples := [⟨[1], [0x7FFFFFFFFFFFFFFF], []⟩, ⟨[1], [1], []⟩] }

theorem not_sumsFit_twoDeltas :
    ¬SumsFit (reached id false [oneSample [0x7FFFFFFFFFFFFFFF], oneSample [1]]) := by
  have hreached : reached id false [oneSample [0x7FFFFFFFFFFFFFFF], oneSample [1]] =
      [contribution id (oneSample [1]) ⟨[1], [0x7FFFFFFFFFFFFFFF], []⟩,
        contribution id (oneSample [1]) ⟨[1], [1], []⟩] := by
    rw [reached_of_convert id (oneSample_convert _ _)]
    rfl
  have htotal : total Prod.fst Prod.snd
      [contribution id (oneSample [1]) ⟨[1], [0x7FFFFFFFFFFFFFFF], []⟩,
        contribution id (oneSample [1]) ⟨[1], [1], []⟩]
      (sampleView id (oneSample [1]) ⟨[1], [1], []⟩) =
      Row.ofValues [0x7FFFFFFFFFFFFFFF] + Row.ofValues [1] := by
    rw [total_cons, total_cons, total_nil, add_zero]
    exact congrArg₂ (· + ·) (if_pos rfl) (if_pos rfl)
  intro h
  have hsum := h _ (sampleView id (oneSample [1]) ⟨[1], [1], []⟩) 0 (List.prefix_refl _)
  rw [hreached, htotal, map_add, Row.col_ofValues, Row.col_ofValues] at hsum
  exact absurd hsum (by decide)

theorem counters_overflow_twoSamples :
    convertProfile id twoSamples everything = .error .intOverflow ∧
      mergeAll id [oneSample [0x7FFFFFFFFFFFFFFF], oneSample [1]] = .error .intOverflow ∧
      sampleCount twoSamples = .error .intOverflow := by
  refine ⟨?_, (mergeAll_ends (n := 0) id (by decide)).overflows not_sumsFit_twoDeltas, rfl⟩
  unfold convertProfile
  rw [selectedHeapOf_everything rfl]
  rfl

end PProfessor.Coordinator
