import PProfessor.KitRoundTrip
import PProfessor.LiveMerge
import PProfessor.ProtoExport

set_option autoImplicit false

/-!
# The live view

The way of a snapshot from the publisher's cursor to the app's accumulator, and
what the accumulated samples then say about the capture.
-/
namespace PProfessor.LiveView
open Capture CheckedArith Columns Fallible KeyedSum Kit NumberedTable Pprof

section
variable (canon : String → String)

def threadOf (view : SampleView) : Option Int64 :=
  (view.labels.find? fun label => label.key = canon "thread_id").map LabelView.num

/-- `profileTimestampNanos`, from what the labels say. -/
def timestampOf (view : SampleView) : Option Int64 :=
  match view.labels.find? fun label => label.key = canon "pprofessor::timestamp" with
  | none => none
  | some label =>
    if label.unit = canon "" ∨ label.unit = canon "nanoseconds" then some label.num else none

def observationOf (view : SampleView) : Option (StackKey × Option UInt64) := do
  let thread ← threadOf canon view
  some ((thread.toUInt64, view.stackLocations.map LocationView.address),
    (timestampOf canon view).map Int64.toUInt64)

/-- What the samples with an observation add up to in a column. -/
def amount (d : DecodedProfile) (k : Option (StackKey × Option UInt64)) (j : ℕ) : ℤ :=
  total (fun s => observationOf canon (sampleView canon d s)) (fun s => cell s.values j) d.samples k

theorem amount_eq_total (d : DecodedProfile) (k : Option (StackKey × Option UInt64)) (j : ℕ) :
    amount canon d k j = Row.col j
      (total (fun c => observationOf canon c.1) Prod.snd (contributions canon d) k) := by
  rw [← total_hom, contributions, total_map]
  apply total_congr
  · exact fun _ _ => Iff.rfl
  · exact fun s _ => (Row.col_ofValues s.values j).symm

/-- Canonical forms leave ASCII strings as they are. -/
def Canonical : Prop := ∀ s : String, (∀ c ∈ s.toList, c.toNat < 128) → canon s = s

end

/-- What one observation adds to the columns of a sample. -/
def scale (freqHz : UInt32) : ℕ → ℤ
  | 0 => 1
  | 1 => (1000000000 / freqHz.toNat : ℕ)
  | _ => 0

theorem scale_nonneg (freqHz : UInt32) (j : ℕ) : 0 ≤ scale freqHz j := by
  unfold scale
  split
  · norm_num
  · exact Int.natCast_nonneg _
  · exact le_refl _

theorem scale_le (freqHz : UInt32) (j : ℕ) : scale freqHz j ≤ 1000000000 := by
  unfold scale
  split
  · norm_num
  · exact Int.ofNat_le.mpr (Nat.div_le_self _ _)
  · norm_num

theorem cell_values {freqHz : UInt32} {count : UInt64}
    (hfit : ∀ j, scale freqHz j * count.toNat < 2 ^ 63) (j : ℕ) :
    cell [clampI64 count, saturatingMulI64 (clampI64 count) (periodNanos freqHz)] j =
      scale freqHz j * count.toNat := by
  have hcount : count.toNat < 2 ^ 63 := by
    have h := hfit 0
    rw [scale, one_mul] at h
    omega
  have hclamp : (clampI64 count).toInt = count.toNat := by
    rw [clampI64_eq hcount, toInt64_toInt hcount]
  match j with
  | 0 =>
    rw [cell_cons_zero, hclamp, scale, one_mul]
  | 1 =>
    have hmul : (clampI64 count).toInt * (periodNanos freqHz).toInt =
        scale freqHz 1 * count.toNat := by
      rw [hclamp, periodNanos_toInt, scale, mul_comm]
    have hnonneg := mul_nonneg (scale_nonneg freqHz 1) (Int.natCast_nonneg count.toNat)
    have hin : InI64 ((clampI64 count).toInt * (periodNanos freqHz).toInt) := by
      rw [hmul]
      exact ⟨by omega, hfit 1⟩
    rw [cell_cons_succ, cell_cons_zero, saturatingMulI64_toInt hin, hmul]
  | j + 2 => simp [scale]

def occurrences (observed : StackKey → List (Option UInt64)) :
    Option (StackKey × Option UInt64) → ℤ
  | some (key, t) => ((observed key).count t : ℕ)
  | none => 0

theorem occurrences_nonneg (observed : StackKey → List (Option UInt64))
    (k : Option (StackKey × Option UInt64)) : 0 ≤ occurrences observed k := by
  cases k with
  | none => exact le_refl _
  | some k => exact Int.natCast_nonneg _

/-- The values of at most 9223372036 observations are in range at every frequency. -/
theorem scale_mul_lt (freqHz : UInt32) (j : ℕ) {observed : StackKey → List (Option UInt64)}
    {k : Option (StackKey × Option UInt64)} (h : occurrences observed k ≤ 9223372036) :
    scale freqHz j * occurrences observed k < 2 ^ 63 :=
  calc scale freqHz j * occurrences observed k
      ≤ 1000000000 * occurrences observed k :=
        mul_le_mul_of_nonneg_right (scale_le freqHz j) (occurrences_nonneg observed k)
    _ ≤ 1000000000 * 9223372036 := mul_le_mul_of_nonneg_left h (by norm_num)
    _ < 2 ^ 63 := by norm_num

def Shows (canon : String → String) (freqHz : UInt32) (parts : List (SampleView × Row))
    (observed : StackKey → List (Option UInt64)) : Prop :=
  ∀ k j, Row.col j (total (fun c => observationOf canon c.1) Prod.snd parts k) =
    scale freqHz j * occurrences observed k

/-- Counts, times and timestamps stay inside 64 bits. -/
structure InRange (freqHz : UInt32) (observed : StackKey → List (Option UInt64)) : Prop where
  values : ∀ k j, scale freqHz j * occurrences observed k < 2 ^ 63
  timestamps : ∀ (key : StackKey) (t : UInt64), some t ∈ observed key → t.toNat < 2 ^ 63

theorem stackView_addresses (canon : String → String) {d : DecodedProfile}
    {ids stack : List UInt64} (h : ids.map (addressIn d.locations) = stack.map some) :
    (stackView canon d ids).map LocationView.address = stack := by
  unfold stackView
  induction ids generalizing stack with
  | nil =>
    cases stack with
    | nil => rfl
    | cons addr stack => cases h
  | cons id ids ih =>
    cases stack with
    | nil => cases h
    | cons addr stack =>
      rw [List.map_cons, List.map_cons, List.cons.injEq] at h
      obtain ⟨l, hl, rfl⟩ := Option.map_eq_some_iff.mp h.1
      have hview : (lookup Location.id d.locations id).map (locationView canon d) =
          some (locationView canon d l) := congrArg (Option.map (locationView canon d)) hl
      rw [List.filterMap_cons, hview]
      exact congrArg (_ :: ·) (ih h.2)

theorem text_of_agrees {p : PprofProfile} {d : DecodedProfile} (hd : d.Agrees p) {index : UInt64}
    {s : String} (h : p.strings.strings[index.toNat]? = some s) : d.text index = s := by
  obtain ⟨pt, -, rfl⟩ := hd
  change p.strings.strings[index.toNat]?.getD "" = s
  rw [h]
  rfl

theorem Canonical.key_ne {canon : String → String} (h : Canonical canon) {a b : String}
    (ha : ∀ c ∈ a.toList, c.toNat < 128) (hb : ∀ c ∈ b.toList, c.toNat < 128) (hne : a ≠ b) :
    canon a ≠ canon b := by
  rw [h a ha, h b hb]
  exact hne

section Rendered
variable {canon : String → String} (hcanon : Canonical canon) {profile : SymbolicatedProfile}
  {names : LabelNames} {p : PprofProfile} {d : DecodedProfile}
include hcanon

/-- What the labels of a rendered sample say. -/
theorem labels_rendered (hn : names.In p.strings) (hd : d.Agrees p) {s : Capture.Sample}
    {t : Pprof.Sample} {periodNs : Int64} (h : Renders profile names periodNs p s t) :
    threadOf canon (sampleView canon d t) = some s.threadId.toInt64 ∧
      timestampOf canon (sampleView canon d t) = s.timestampNanos.map clampI64 := by
  obtain ⟨nameIdx, -, hlabels⟩ := h.labels
  have hthread : (labelView canon d (threadLabel names s)).key = canon "thread_id" :=
    congrArg canon (text_of_agrees hd hn.threadId)
  have hname : ∀ label ∈ nameLabels names (profile.threads[s.threadId]?.getD "") nameIdx,
      (labelView canon d label).key = canon "thread_name" := by
    intro label hl
    unfold nameLabels at hl
    split_ifs at hl
    · cases hl
    · rw [List.mem_singleton.mp hl]
      exact congrArg canon (text_of_agrees hd hn.threadName)
  have hne₁ : canon "thread_id" ≠ canon "pprofessor::timestamp" :=
    hcanon.key_ne (by simp) (by simp) (by decide)
  have hne₂ : canon "thread_name" ≠ canon "pprofessor::timestamp" :=
    hcanon.key_ne (by simp) (by simp) (by decide)
  unfold threadOf timestampOf sampleView
  rw [hlabels, List.append_assoc, List.singleton_append, List.map_cons, List.map_append]
  constructor
  · rw [List.find?_cons_of_pos (by simpa using hthread)]
    rfl
  · rw [List.find?_cons_of_neg (by rw [hthread]; simpa using hne₁), List.find?_append,
      List.find?_eq_none.mpr]
    · unfold timestampLabels
      cases s.timestampNanos with
      | none => rfl
      | some ts =>
        have hkey : (labelView canon d ⟨names.timestamp, 0, clampI64 ts, names.nanoseconds⟩).key =
            canon "pprofessor::timestamp" := congrArg canon (text_of_agrees hd hn.timestamp)
        have hunit : (labelView canon d ⟨names.timestamp, 0, clampI64 ts, names.nanoseconds⟩).unit =
            canon "" ∨ (labelView canon d ⟨names.timestamp, 0, clampI64 ts,
              names.nanoseconds⟩).unit = canon "nanoseconds" := by
          unfold labelView optionalText
          dsimp only
          split_ifs
          · exact .inl rfl
          · rw [text_of_agrees hd hn.nanoseconds]
            exact .inr rfl
        rw [List.map_singleton, Option.none_or, List.find?_cons_of_pos (by simpa using hkey)]
        dsimp only
        rw [if_pos hunit]
        rfl
    · intro view hview
      obtain ⟨label, hl, rfl⟩ := List.mem_map.mp hview
      rw [hname label hl]
      simpa using hne₂

theorem observationOf_rendered (hn : names.In p.strings) (hd : d.Agrees p) {s : Capture.Sample}
    {t : Pprof.Sample} {periodNs : Int64} (h : Renders profile names periodNs p s t)
    (hstack : knownStack profile.frames s.stack = s.stack)
    (htime : ∀ ts, s.timestampNanos = some ts → ts.toNat < 2 ^ 63) :
    observationOf canon (sampleView canon d t) = some s.key := by
  obtain ⟨hthread, htimestamp⟩ := labels_rendered hcanon hn hd h
  have haddr : (sampleView canon d t).stackLocations.map LocationView.address = s.stack := by
    obtain ⟨pt, -, rfl⟩ := hd
    exact stackView_addresses canon (h.locations.trans (by rw [hstack]))
  have hts : (s.timestampNanos.map clampI64).map Int64.toUInt64 = s.timestampNanos := by
    cases hs : s.timestampNanos with
    | none => rfl
    | some ts =>
      rw [Option.map_some, Option.map_some, clampI64_eq (htime ts hs), UInt64.toUInt64_toInt64]
  unfold observationOf
  rw [hthread, haddr, htimestamp, hts]
  rfl

theorem delta_amount (hc : Contents profile names p) (hd : d.Agrees p)
    (hkept : profile.kept = profile.samples)
    (hstack : ∀ s ∈ profile.samples, knownStack profile.frames s.stack = s.stack)
    (htime : ∀ s ∈ profile.samples, ∀ ts, s.timestampNanos = some ts → ts.toNat < 2 ^ 63)
    (hfit : ∀ s ∈ profile.samples, ∀ j, scale profile.freqHz j * s.count.toNat < 2 ^ 63)
    (k : Option (StackKey × Option UInt64)) (j : ℕ) :
    amount canon d k j = total (fun s => some s.key)
      (fun s => scale profile.freqHz j * (s.count.toNat : ℤ)) profile.samples k := by
  have hsamples : d.samples = p.samples := by
    obtain ⟨pt, -, rfl⟩ := hd
    rfl
  unfold amount
  rw [hsamples, eq_comm]
  have hr := hc.samples
  rw [hkept] at hr
  apply total_forall₂
  have hmem : List.Forall₂ (fun s t => s ∈ profile.samples ∧
      Renders profile names (periodNanos profile.freqHz) p s t) profile.samples p.samples :=
    (List.forall₂_and_left _ _ ).mpr ⟨fun _ h => h, hr⟩
  refine hmem.imp fun s t h => ⟨?_, ?_⟩
  · rw [observationOf_rendered hcanon hc.labelNames hd h.2 (hstack s h.1) (htime s h.1)]
  · rw [h.2.values, cell_values (hfit s h.1)]

end Rendered

theorem delta_converts {profile : SymbolicatedProfile} {names : LabelNames} {p : PprofProfile}
    {d : DecodedProfile} (hc : Contents profile names p) (hstrings : TablesFit p)
    (hd : d.Agrees p) : BodyConverts d ∧ HeaderConverts d := by
  have hin : ∀ i, InTable p.strings i → i.toNat < 2 ^ 63 := fun i h => lt_trans h hstrings.strings
  obtain ⟨pt, hpt, rfl⟩ := hd
  obtain ⟨hdrop, hkeep, hcomments, hdefault, hdoc⟩ := hc.indexes.header
  refine ⟨⟨?_, ?_, ?_⟩, ⟨?_, ?_, ?_, ?_, ?_, ?_, ?_⟩⟩
  · exact fun m h => ⟨hin _ (hc.indexes.mappings m h).2, hin _ (hc.indexes.mappings m h).1⟩
  · intro l _ line _ f hf
    have hf := hc.indexes.functions f (lookup_eq_some _ hf).1
    exact ⟨hin _ hf.name, hin _ hf.systemName, hin _ hf.filename⟩
  · intro s hs label h
    have hl := hc.indexes.labels s hs label h
    exact ⟨hin _ hl.key, hin _ hl.str, hin _ hl.unit⟩
  · intro vt h
    have hvt := hc.indexes.valueTypes vt h
    exact ⟨hin _ hvt.type, hin _ hvt.unit⟩
  · intro vt hvt
    have heq : vt = p.periodType := by
      rw [← hpt, show pt = some vt from hvt]
      rfl
    rw [heq]
    exact ⟨hin _ hc.indexes.periodType.type, hin _ hc.indexes.periodType.unit⟩
  · exact (congrArg UInt64.toNat hdefault).trans_lt (by norm_num)
  · intro c hmem
    change c ∈ p.comments at hmem
    rw [hcomments] at hmem
    cases hmem
  · exact (congrArg UInt64.toNat hdrop).trans_lt (by norm_num)
  · exact (congrArg UInt64.toNat hkeep).trans_lt (by norm_num)
  · exact (congrArg UInt64.toNat hdoc).trans_lt (by norm_num)

theorem delta_uniqueIds {profile : SymbolicatedProfile} {names : LabelNames} {p : PprofProfile}
    {d : DecodedProfile} (hc : Contents profile names p) (hd : d.Agrees p) : UniqueIds d := by
  obtain ⟨pt, -, rfl⟩ := hd
  exact ⟨hc.mappings.nodup, hc.functions.nodup, hc.locations.nodup⟩

theorem delta_nonneg {profile : SymbolicatedProfile} {names : LabelNames} {p : PprofProfile}
    {d : DecodedProfile} (hc : Contents profile names p) (hd : d.Agrees p)
    (hfit : ∀ s ∈ profile.samples, ∀ j, scale profile.freqHz j * s.count.toNat < 2 ^ 63)
    (canon : String → String) : ∀ c ∈ contributions canon d, ∀ j, 0 ≤ Row.col j c.2 := by
  obtain ⟨pt, -, rfl⟩ := hd
  intro c hmem j
  obtain ⟨t, ht, rfl⟩ := List.mem_map.mp hmem
  obtain ⟨s, hs, hr⟩ := forall₂_exists_left hc.samples ht
  rw [Row.col_ofValues, hr.values, cell_values (hfit s (List.mem_filter.mp hs).1)]
  exact mul_nonneg (scale_nonneg _ j) (Int.natCast_nonneg _)

end PProfessor.LiveView
