import Mathlib.Data.List.TakeWhile
import PProfessor.KitTraps
import PProfessor.LiveAccumulation
import PProfessor.LiveTraps

set_option autoImplicit false

/-!
# How a merge ends

A merge adds what each sample says to the sums until a sum leaves the range of
`Int64` or a lookup traps. Only the samples before the first such lookup count.
-/
namespace PProfessor.Kit
open CheckedArith Columns Fallible KeyedSum NumberedTable Pprof

/-- No column of a prefix of the parts leaves the range of `Int64`. -/
def SumsFit (parts : List (SampleView × Row)) : Prop :=
  ∀ (done : List (SampleView × Row)) (k : SampleView) (j : ℕ), done <+: parts →
    InI64 (Row.col j (total Prod.fst Prod.snd done k))

theorem SumsFit.of_extension {parts parts' : List (SampleView × Row)} (h : SumsFit parts)
    (hp : parts' <+: parts) : SumsFit parts' :=
  fun done k j hd => h done k j (hd.trans hp)

theorem SumsFit.of_abs {parts : List (SampleView × Row)}
    (h : ∀ j, (parts.map fun c => |Row.col j c.2|).sum < 2 ^ 63) : SumsFit parts := by
  have hbound : ∀ (xs : List (SampleView × Row)) (k : SampleView) (j : ℕ),
      |Row.col j (total Prod.fst Prod.snd xs k)| ≤ (xs.map fun c => |Row.col j c.2|).sum := by
    intro xs k j
    induction xs with
    | nil => simp
    | cons x xs ih =>
      rw [total_cons, map_add, List.map_cons, List.sum_cons]
      refine (abs_add_le _ _).trans (add_le_add ?_ ih)
      split_ifs
      · exact le_refl _
      · simp
  rintro done k j ⟨tail, rfl⟩
  have hle := hbound done k j
  have hall := h j
  have htail : 0 ≤ (tail.map fun c => |Row.col j c.2|).sum := by
    apply List.sum_nonneg
    intro x hx
    obtain ⟨c, -, rfl⟩ := List.mem_map.mp hx
    exact abs_nonneg _
  rw [List.map_append, List.sum_append] at hall
  have habs : |Row.col j (total Prod.fst Prod.snd done k)| < 2 ^ 63 := by omega
  exact ⟨(abs_lt.mp habs).1.le, (abs_lt.mp habs).2⟩

theorem sumsFit_nil : SumsFit [] := by
  intro done k j hd
  rw [List.prefix_nil.mp hd, total_nil, map_zero]
  exact ⟨by decide, by decide⟩

theorem sumsFit_concat {parts : List (SampleView × Row)} {part : SampleView × Row} :
    SumsFit (parts ++ [part]) ↔ SumsFit parts ∧
      ∀ j, InI64 (Row.col j (total Prod.fst Prod.snd (parts ++ [part]) part.1)) := by
  constructor
  · intro h
    exact ⟨h.of_extension (List.prefix_append _ _), fun j => h _ _ j (List.prefix_refl _)⟩
  · rintro ⟨h, hpart⟩ done k j hd
    rcases List.prefix_concat_iff.mp hd with rfl | hd
    · by_cases hk : part.1 = k
      · exact hk ▸ hpart j
      · rw [Grouped.total_concat, if_neg hk, add_zero]
        exact h parts k j (List.prefix_refl _)
    · exact h done k j hd

/-- How a run over parts ends, of which `parts` come before the first lookup that
traps: there is no such lookup if it is `complete`. -/
def EndsWith {σ : Type} (complete : Prop) (parts : List (SampleView × Row)) (good : σ → Prop) :
    Except Trap σ → Prop
  | .ok a => complete ∧ SumsFit parts ∧ good a
  | .error .intOverflow => ¬SumsFit parts
  | .error _ => ¬complete ∧ SumsFit parts

namespace EndsWith

variable {σ : Type} {complete : Prop} {parts : List (SampleView × Row)} {good : σ → Prop}
  {x : Except Trap σ}

theorem overflow_iff (h : EndsWith complete parts good x) : NoOverflow x ↔ SumsFit parts := by
  cases x with
  | ok a => exact iff_of_true (.of_ok a) h.2.1
  | error e =>
    rw [noOverflow_error_iff]
    cases e with
    | intOverflow => exact iff_of_false (fun hne => hne rfl) h
    | _ => exact iff_of_true (by decide) h.2

theorem of_ok {a : σ} (h : EndsWith complete parts good (.ok a)) :
    complete ∧ SumsFit parts ∧ good a := h

theorem overflows (h : EndsWith complete parts good x) (hsums : ¬SumsFit parts) :
    x = .error .intOverflow := by
  cases x with
  | ok a => exact absurd h.2.1 hsums
  | error e =>
    cases e with
    | intOverflow => rfl
    | _ => exact absurd h.2 hsums

theorem returns (h : EndsWith complete parts good x) (hcomplete : complete)
    (hsums : SumsFit parts) : Returns good x := by
  cases x with
  | ok a => exact .of_ok h.2.2
  | error e =>
    cases e with
    | intOverflow => exact absurd hsums h
    | _ => exact absurd hcomplete h.1

theorem mono {good' : σ → Prop} (h : EndsWith complete parts good x)
    (hgood : ∀ a, good a → good' a) : EndsWith complete parts good' x := by
  cases x with
  | ok a => exact ⟨h.1, h.2.1, hgood a h.2.2⟩
  | error e =>
    cases e with
    | intOverflow => exact h
    | _ => exact h

theorem of_error {e : Trap} (he : e ≠ .intOverflow) (hstop : ¬complete) (hsums : SumsFit parts) :
    EndsWith complete parts good (.error e) := by
  cases e with
  | intOverflow => exact absurd rfl he
  | _ => exact ⟨hstop, hsums⟩

theorem bind {τ : Type} {complete' : Prop} {parts' : List (SampleView × Row)} {good' : τ → Prop}
    {f : σ → Except Trap τ} (h : EndsWith complete parts good x)
    (hparts : complete → parts <+: parts') (hstop : ¬complete → parts' = parts)
    (hf : ∀ a, complete → SumsFit parts → good a → EndsWith complete' parts' good' (f a)) :
    EndsWith (complete ∧ complete') parts' good' (x >>= f) := by
  cases x with
  | ok a =>
    have hrest := hf a h.1 h.2.1 h.2.2
    rw [ok_bind]
    cases hb : f a with
    | ok b =>
      rw [hb] at hrest
      exact ⟨⟨h.1, hrest.1⟩, hrest.2⟩
    | error e =>
      rw [hb] at hrest
      cases e with
      | intOverflow => exact hrest
      | _ => exact ⟨fun hboth => hrest.1 hboth.2, hrest.2⟩
  | error e =>
    have hsums (hall : SumsFit parts') : SumsFit parts := by
      by_cases hc : complete
      · exact hall.of_extension (hparts hc)
      · exact hstop hc ▸ hall
    cases e with
    | intOverflow => exact fun hall => h (hsums hall)
    | _ => exact ⟨fun hboth => h.1 hboth.1, (hstop h.1).symm ▸ h.2⟩

end EndsWith

/-- The indexes in the tables of a delta convert; those of the header are looked up as
long as there are no sample types. -/
structure TablesConvert (named : Bool) (d : DecodedProfile) : Prop where
  header : named = false → HeaderConverts d
  mappings : ∀ m ∈ d.mappings, Converts m.buildId ∧ Converts m.filename
  functions : ∀ l ∈ d.locations, ∀ line ∈ l.lines, ∀ f,
    lookup Function.id d.functions line.functionId = some f → FunctionConverts f

def LabelsConvert (s : Sample) : Prop := ∀ label ∈ s.labels, LabelConverts label

instance (d : DecodedProfile) : Decidable (HeaderConverts d) :=
  -- The list is walked: a search may find the instance that tries every `UInt64`.
  haveI : Decidable (∀ c ∈ d.comments, Converts c) := List.decidableBAll _ _
  decidable_of_iff ((∀ vt ∈ d.sampleTypes, Converts vt.type ∧ Converts vt.unit) ∧
    (∀ vt ∈ d.periodType, Converts vt.type ∧ Converts vt.unit) ∧ Converts d.defaultSampleType ∧
    (∀ c ∈ d.comments, Converts c) ∧ Converts d.dropFrames ∧ Converts d.keepFrames ∧
    Converts d.docURL)
    ⟨fun ⟨h₁, h₂, h₃, h₄, h₅, h₆, h₇⟩ => ⟨h₁, h₂, h₃, h₄, h₅, h₆, h₇⟩,
      fun ⟨h₁, h₂, h₃, h₄, h₅, h₆, h₇⟩ => ⟨h₁, h₂, h₃, h₄, h₅, h₆, h₇⟩⟩

instance (f : Function) : Decidable (FunctionConverts f) :=
  decidable_of_iff (Converts f.name ∧ Converts f.systemName ∧ Converts f.filename)
    ⟨fun ⟨h₁, h₂, h₃⟩ => ⟨h₁, h₂, h₃⟩, fun ⟨h₁, h₂, h₃⟩ => ⟨h₁, h₂, h₃⟩⟩

instance (named : Bool) (d : DecodedProfile) : Decidable (TablesConvert named d) :=
  decidable_of_iff ((named = false → HeaderConverts d) ∧
    (∀ m ∈ d.mappings, Converts m.buildId ∧ Converts m.filename) ∧
    ∀ l ∈ d.locations, ∀ line ∈ l.lines,
      ∀ f ∈ lookup Function.id d.functions line.functionId, FunctionConverts f)
    ⟨fun ⟨h₁, h₂, h₃⟩ => ⟨h₁, h₂, h₃⟩, fun ⟨h₁, h₂, h₃⟩ => ⟨h₁, h₂, h₃⟩⟩

instance (label : Label) : Decidable (LabelConverts label) :=
  decidable_of_iff (Converts label.key ∧ Converts label.strIndex ∧ Converts label.numUnit)
    ⟨fun ⟨h₁, h₂, h₃⟩ => ⟨h₁, h₂, h₃⟩, fun ⟨h₁, h₂, h₃⟩ => ⟨h₁, h₂, h₃⟩⟩

instance (s : Sample) : Decidable (LabelsConvert s) :=
  inferInstanceAs (Decidable (∀ label ∈ s.labels, LabelConverts label))

/-- Every index that merging the sequence looks up converts. -/
def AllConvert : Bool → List DecodedProfile → Prop
  | _, [] => True
  | named, d :: rest =>
    (TablesConvert named d ∧ ∀ s ∈ d.samples, LabelsConvert s) ∧
      AllConvert (named || !d.sampleTypes.isEmpty) rest

section Reached

variable (canon : String → String)

def contribution (d : DecodedProfile) (s : Sample) : SampleView × Row :=
  (sampleView canon d s, Row.ofValues s.values)

/-- The samples of a delta before the first label that cannot be looked up. -/
def reachedIn (d : DecodedProfile) (samples : List Sample) : List (SampleView × Row) :=
  (samples.takeWhile fun s => LabelsConvert s).map (contribution canon d)

/-- The samples of a sequence before the first index that cannot be looked up. -/
def reached : Bool → List DecodedProfile → List (SampleView × Row)
  | _, [] => []
  | named, d :: rest =>
    if TablesConvert named d then
      if ∀ s ∈ d.samples, LabelsConvert s then
        contributions canon d.effective ++ reached (named || !d.sampleTypes.isEmpty) rest
      else reachedIn canon d.effective d.samples
    else []

end Reached

namespace LiveProfileAccumulator

variable {canon : String → String} {delta : DecodedProfile}

theorem countID_noOverflow (count : ℕ) : NoOverflow (countID count) := by
  unfold countID
  split_ifs
  · exact .of_ok _
  · exact noOverflow_error_iff.mpr (by decide)

theorem intern_noOverflow (acc : LiveProfileAccumulator) (value : String) :
    NoOverflow (acc.intern canon value) := by
  unfold intern
  split
  · exact .of_ok _
  · exact (countID_noOverflow _).bind fun id _ => .of_ok _

theorem internAt_noOverflow (acc : LiveProfileAccumulator) (index : UInt64) :
    NoOverflow (acc.internAt canon delta index) :=
  (DecodedProfile.string_noOverflow _).bind fun value _ => intern_noOverflow acc value

theorem internUnlessZero_noOverflow (acc : LiveProfileAccumulator) (index : UInt64) :
    NoOverflow (acc.internUnlessZero canon delta index) := by
  unfold internUnlessZero
  split_ifs
  · exact .of_ok _
  · exact internAt_noOverflow acc index

theorem internValueType_noOverflow (acc : LiveProfileAccumulator) (vt : ValueType) :
    NoOverflow (acc.internValueType canon delta vt) :=
  (internAt_noOverflow _ _).bind fun _ _ => (internAt_noOverflow _ _).bind fun _ _ => .of_ok _

theorem internEach_noOverflow {α β : Type}
    {f : LiveProfileAccumulator → α → Except Trap (β × LiveProfileAccumulator)}
    (hf : ∀ a x, NoOverflow (f a x)) (acc : LiveProfileAccumulator) (xs : List α) :
    NoOverflow (internEach f acc xs) := by
  induction xs generalizing acc with
  | nil => exact .of_ok _
  | cons x xs ih => exact (hf acc x).bind fun r _ => (ih r.2).bind fun _ _ => .of_ok _

theorem mergeHeader_noOverflow (acc : LiveProfileAccumulator) :
    NoOverflow (acc.mergeHeader canon delta) := by
  have hperiod (a : LiveProfileAccumulator) : NoOverflow (a.mergePeriodType canon delta) := by
    unfold mergePeriodType
    split
    · exact .of_ok _
    · exact (internValueType_noOverflow _ _).bind fun _ _ => .of_ok _
  unfold mergeHeader
  split_ifs
  · exact .of_ok _
  · refine (internEach_noOverflow internValueType_noOverflow _ _).bind fun types _ => ?_
    refine (hperiod _).bind fun a₂ _ => ?_
    refine (internUnlessZero_noOverflow _ _).bind fun a₃ _ => ?_
    refine (internEach_noOverflow internAt_noOverflow _ _).bind fun a₄ _ => ?_
    refine (internUnlessZero_noOverflow _ _).bind fun a₅ _ => ?_
    refine (internUnlessZero_noOverflow _ _).bind fun a₆ _ => ?_
    exact (internUnlessZero_noOverflow _ _).bind fun _ _ => .of_ok _

theorem mergeMapping_noOverflow (state : LiveProfileAccumulator × IDMap) (x : Mapping) :
    NoOverflow (mergeMapping canon delta state x) := by
  refine (DecodedProfile.string_noOverflow _).bind fun buildID _ => ?_
  refine (DecodedProfile.string_noOverflow _).bind fun filename _ => ?_
  dsimp only
  split
  · exact .of_ok _
  · refine (countID_noOverflow _).bind fun id _ => ?_
    exact (intern_noOverflow _ _).bind fun _ _ => (intern_noOverflow _ _).bind fun _ _ => .of_ok _

theorem mergeFunction_noOverflow (acc : LiveProfileAccumulator) (x : Function) :
    NoOverflow (acc.mergeFunction canon delta x) := by
  refine (DecodedProfile.string_noOverflow _).bind fun name _ => ?_
  refine (DecodedProfile.string_noOverflow _).bind fun systemName _ => ?_
  refine (DecodedProfile.string_noOverflow _).bind fun filename _ => ?_
  dsimp only
  split
  · exact .of_ok _
  · refine (countID_noOverflow _).bind fun id _ => ?_
    refine (intern_noOverflow _ _).bind fun _ _ => ?_
    exact (intern_noOverflow _ _).bind fun _ _ => (intern_noOverflow _ _).bind fun _ _ => .of_ok _

theorem mergeLocation_noOverflow (functions : Std.ExtHashMap UInt64 Function) (mappingIDs : IDMap)
    (state : LiveProfileAccumulator × IDMap) (x : Location) :
    NoOverflow (mergeLocation canon delta functions mappingIDs state x) := by
  have hlines (a : LiveProfileAccumulator) (lines : List Line) :
      NoOverflow (mergeLines canon delta functions a lines) := by
    induction lines generalizing a with
    | nil => exact .of_ok _
    | cons line rest ih =>
      unfold mergeLines
      split
      · exact ih a
      · exact (mergeFunction_noOverflow a _).bind fun r _ => (ih r.2).bind fun _ _ => .of_ok _
  refine (hlines _ _).bind fun lines _ => ?_
  dsimp only
  split
  · exact .of_ok _
  · exact (countID_noOverflow _).bind fun id _ => .of_ok _

theorem internLabel_noOverflow (acc : LiveProfileAccumulator) (label : Label) :
    NoOverflow (acc.internLabel canon delta label) := by
  refine (internAt_noOverflow _ _).bind fun key _ => ?_
  refine (internUnlessZero_noOverflow _ _).bind fun str _ => ?_
  exact (internUnlessZero_noOverflow _ _).bind fun _ _ => .of_ok _

def sampleCost (s : Sample) : ℕ := 3 * s.labels.length

/-- What a delta can add to the tables. -/
def cost (delta : DecodedProfile) : ℕ :=
  headerCost delta + 3 * delta.mappings.length + (delta.locations.map locationCost).sum +
    (delta.samples.map sampleCost).sum

variable {n : ℕ} {acc : LiveProfileAccumulator} {merged : List (SampleView × Row)}

theorem mergeSample_stops (acc : LiveProfileAccumulator) (map : IDMap) {x : Sample}
    (h : ¬LabelsConvert x) :
    ∃ e, e ≠ .intOverflow ∧ mergeSample canon delta map acc x = .error e := by
  unfold mergeSample
  cases hlabels : internEach (internLabel canon delta) acc x.labels with
  | ok r => exact absurd (internEach_forall hlabels fun _ _ _ => internLabel_fits) h
  | error e => exact ⟨e, internEach_noOverflow internLabel_noOverflow _ _ e hlabels, rfl⟩

structure Merged (canon : String → String) (n : ℕ) (acc : LiveProfileAccumulator)
    (merged parts : List (SampleView × Row)) (acc' : LiveProfileAccumulator) : Prop where
  inv : Inv canon n acc' (merged ++ parts)
  sampleTypes : acc'.profile.sampleTypes = acc.profile.sampleTypes
  stored : contributions canon acc'.profile = parts.foldl addPart (contributions canon acc.profile)

theorem mergeSamples_ends {map : IDMap} {samples : List Sample}
    (ht : Translates (LocationKnown canon delta) Location.id delta.locations acc map)
    (hsums : SumsFit merged) (h : Inv canon (n + (samples.map sampleCost).sum) acc merged) :
    EndsWith (∀ s ∈ samples, LabelsConvert s) (merged ++ reachedIn canon delta samples)
      (Merged canon n acc merged (samples.map (contribution canon delta)))
      (samples.foldlM (mergeSample canon delta map) acc) := by
  induction samples generalizing acc merged with
  | nil =>
    rw [reachedIn, List.takeWhile_nil, List.map_nil, List.append_nil]
    refine ⟨by simp, hsums, ?_, rfl, rfl⟩
    rw [List.append_nil]
    exact h
  | cons x rest ih =>
    rw [List.foldlM_cons, reachedIn]
    by_cases hx : LabelsConvert x
    · rw [List.map_cons, List.sum_cons, Nat.add_comm (sampleCost x), ← Nat.add_assoc] at h
      rw [List.takeWhile_cons_of_pos (by simpa using hx), List.map_cons]
      have hsplit (parts : List (SampleView × Row)) :
          merged ++ contribution canon delta x :: parts =
            (merged ++ [contribution canon delta x]) ++ parts := by simp
      have hends := mergeSample_ends h ht hx
      by_cases hfit : ∀ j, InI64 (Row.col j (total Prod.fst Prod.snd
          (merged ++ [contribution canon delta x]) (contribution canon delta x).1))
      · obtain ⟨a, ha, hinv, hgrows, htypes, hstored⟩ := hends.1 hfit
        rw [ha, ok_bind, hsplit]
        have hrest := ih (ht.of_step fun _ _ hk => hk.of_extension hgrows hinv.mapping_zero)
          (sumsFit_concat.mpr ⟨hsums, hfit⟩) hinv
        rw [List.forall_mem_cons, and_iff_right hx]
        refine hrest.mono fun acc' hm => ⟨?_, hm.sampleTypes.trans htypes, ?_⟩
        · rw [List.map_cons, hsplit]
          exact hm.inv
        · rw [hm.stored, hstored]
          rfl
      · rw [hends.2 hfit, hsplit]
        exact fun hall => hfit (sumsFit_concat.mp (hall.of_extension (List.prefix_append _ _))).2
    · obtain ⟨e, he, hrun⟩ := mergeSample_stops acc map hx
      rw [hrun, List.takeWhile_cons_of_neg (by simpa using hx), List.map_nil, List.append_nil]
      exact .of_error he (fun hall => hx (hall x List.mem_cons_self)) hsums

theorem HeaderStep.extension {acc' : LiveProfileAccumulator}
    (h : HeaderStep canon n delta acc acc') : acc.profile.Prefix acc'.profile :=
  ⟨h.grows, by rw [h.same.mappings], by rw [h.same.functions], by rw [h.same.locations]⟩

theorem Inv.of_header {m : ℕ} {acc' : LiveProfileAccumulator} (h : Inv canon m acc merged)
    (hs : HeaderStep canon n delta acc acc') : Inv canon n acc' merged := by
  refine h.of_tables (h.toTables.of_strings hs.strings hs.grows ?_ ?_ ?_) hs.extension
    hs.same.samples hs.same.sampleIndexes
  · exact ⟨hs.same.mappings, hs.same.mappingIDs⟩
  · exact ⟨hs.same.functions, hs.same.functionIDs⟩
  · exact ⟨hs.same.locations, hs.same.locationIDs⟩

theorem HeaderStep.set_duration {acc' : LiveProfileAccumulator}
    (h : HeaderStep canon n delta acc acc') (durationNanos : Int64) :
    HeaderStep canon n delta acc
      { acc' with profile := { acc'.profile with durationNanos := durationNanos } } :=
  ⟨h.strings.of_eq (k := 0) rfl rfl (le_refl _), h.grows,
    h.same.trans ⟨rfl, rfl, rfl, rfl, rfl, rfl, rfl, rfl, rfl⟩, h.sampleTypes⟩

theorem reachedIn_of_convert {samples : List Sample} (h : ∀ s ∈ samples, LabelsConvert s) :
    reachedIn canon delta samples = samples.map (contribution canon delta) := by
  rw [reachedIn, List.takeWhile_eq_self_iff.mpr fun s hs => decide_eq_true (h s hs)]

theorem merge_stops (canon : String → String) {named : Bool}
    (hnamed : named = false ↔ acc.profile.sampleTypes = [])
    (h : ¬TablesConvert named delta) :
    ∃ e, e ≠ .intOverflow ∧ acc.merge canon delta = .error e := by
  unfold merge
  cases hheader : acc.mergeHeader canon delta with
  | error e => exact ⟨e, mergeHeader_noOverflow acc e hheader, rfl⟩
  | ok a₁ =>
    rw [ok_bind]
    dsimp only
    cases hmappings : delta.mappings.foldlM (mergeMapping canon delta) ({ a₁ with
        profile := { a₁.profile with
          durationNanos := max a₁.profile.durationNanos delta.durationNanos } }, (∅ : IDMap)) with
    | error e =>
      exact ⟨e, Throws.foldlM (fun s x _ => mergeMapping_noOverflow s x) _ e hmappings, rfl⟩
    | ok r₂ =>
      rw [ok_bind]
      cases hlocations : delta.locations.foldlM
          (mergeLocation canon delta (incomingFunctions delta) r₂.2) (r₂.1, (∅ : IDMap)) with
      | error e =>
        exact ⟨e, Throws.foldlM (fun s x _ => mergeLocation_noOverflow _ _ s x) _ e hlocations,
          rfl⟩
      | ok r₃ =>
        refine absurd ⟨fun hn => mergeHeader_fits hheader (hnamed.mp hn),
          foldlM_forall hmappings fun _ _ _ => mergeMapping_fits, ?_⟩ h
        intro l hl line hline f hf
        have hfits := foldlM_forall hlocations (fun _ _ _ => mergeLocation_fits) l hl line hline f
        rw [incomingFunctions_getElem?] at hfits
        exact hfits hf

structure MergedDelta (canon : String → String) (n : ℕ) (delta : DecodedProfile)
    (acc : LiveProfileAccumulator) (merged : List (SampleView × Row))
    (acc' : LiveProfileAccumulator) : Prop where
  inv : Inv canon n acc' (merged ++ contributions canon delta.effective)
  sampleTypes : acc'.profile.sampleTypes = [] ↔
    acc.profile.sampleTypes = [] ∧ delta.sampleTypes = []
  stored : contributions canon acc'.profile =
    (contributions canon delta.effective).foldl addPart (contributions canon acc.profile)

theorem merge_ends {named : Bool} (hnamed : named = false ↔ acc.profile.sampleTypes = [])
    (hsums : SumsFit merged) (h : Inv canon (n + cost delta) acc merged) :
    EndsWith (TablesConvert named delta ∧ ∀ s ∈ delta.samples, LabelsConvert s)
      (merged ++ if TablesConvert named delta then
        reachedIn canon delta.effective delta.samples else [])
      (MergedDelta canon n delta acc merged) (acc.merge canon delta) := by
  by_cases htables : TablesConvert named delta
  · rw [if_pos htables, and_iff_right htables]
    have hroom : Strings canon (n + (delta.samples.map sampleCost).sum +
        (delta.locations.map locationCost).sum + 3 * delta.mappings.length + headerCost delta)
        acc := h.toStrings.mono (by unfold cost; omega)
    obtain ⟨a₁, hheader, h₁⟩ := mergeHeader_returns hroom fun hempty =>
      htables.header (hnamed.mpr hempty)
    have h₁' := h₁.set_duration (max a₁.profile.durationNanos delta.durationNanos)
    have hinv₁ := h.of_header h₁'
    obtain ⟨⟨a₂, mappingIDs⟩, hmappings, h₂⟩ := mergeMappings_returns htables.mappings
      hinv₁.toTables
    have hinv₂ := hinv₁.of_step h₂.1
    obtain ⟨⟨a₃, locationIDs⟩, hlocations, h₃⟩ := mergeLocations_returns htables.functions
      hinv₂.toTables h₂.2
    have hinv₃ := hinv₂.of_step h₃.1
    have hrun : acc.merge canon delta =
        delta.samples.foldlM (mergeSample canon delta locationIDs) a₃ := by
      unfold merge
      rw [hheader, ok_bind]
      dsimp only
      rw [hmappings, ok_bind]
      dsimp only
      rw [hlocations, ok_bind]
    have hsame : contributions canon a₃.profile = contributions canon acc.profile :=
      contributions_of_extension (h₁'.extension.trans (h₂.1.grows.trans h₃.1.grows))
        h₃.1.tables.mapping_zero (h₃.1.samples.trans (h₂.1.samples.trans h₁'.same.samples))
        h.sampleIn
    rw [hrun, ← mergeSample_effective]
    refine (mergeSamples_ends h₃.2 hsums hinv₃).mono fun acc' hm => ⟨hm.inv, ?_, ?_⟩
    · rw [hm.sampleTypes, h₃.1.sampleTypes, h₂.1.sampleTypes]
      exact h₁.sampleTypes
    · rw [hm.stored, hsame]
      rfl
  · obtain ⟨e, he, hrun⟩ := merge_stops canon hnamed htables
    rw [hrun, if_neg htables, List.append_nil]
    exact .of_error he (fun hall => htables hall.1) hsums

/-- Merging one after another into a fresh accumulator. -/
def mergeAll (canon : String → String) (ps : List DecodedProfile) :
    Except Trap LiveProfileAccumulator :=
  ps.foldlM (fun acc p => acc.merge canon p) (new canon)

/-- The samples of all profiles, by what they say. -/
def allContributions (canon : String → String) (ps : List DecodedProfile) :
    List (SampleView × Row) :=
  ps.flatMap (contributions canon)

theorem reached_of_convert (canon : String → String) {named : Bool} {ps : List DecodedProfile}
    (h : AllConvert named ps) :
    reached canon named ps = allContributions canon (ps.map DecodedProfile.effective) := by
  induction ps generalizing named with
  | nil => rfl
  | cons p rest ih =>
    rw [reached, if_pos h.1.1, if_pos h.1.2, ih h.2]
    rfl

structure MergedDeltas (canon : String → String) (n : ℕ) (ps : List DecodedProfile)
    (acc : LiveProfileAccumulator) (merged : List (SampleView × Row))
    (acc' : LiveProfileAccumulator) : Prop where
  inv : Inv canon n acc' (merged ++ allContributions canon (ps.map DecodedProfile.effective))
  stored : contributions canon acc'.profile =
    (allContributions canon (ps.map DecodedProfile.effective)).foldl addPart
      (contributions canon acc.profile)

theorem foldlM_merge_ends {named : Bool} {ps : List DecodedProfile}
    (hnamed : named = false ↔ acc.profile.sampleTypes = []) (hsums : SumsFit merged)
    (h : Inv canon (n + (ps.map cost).sum) acc merged) :
    EndsWith (AllConvert named ps) (merged ++ reached canon named ps)
      (MergedDeltas canon n ps acc merged) (ps.foldlM (fun acc p => acc.merge canon p) acc) := by
  induction ps generalizing named acc merged with
  | nil =>
    rw [reached, List.append_nil]
    refine ⟨trivial, hsums, ?_, rfl⟩
    change Inv canon n acc (merged ++ [])
    rw [List.append_nil]
    exact h
  | cons p rest ih =>
    rw [List.map_cons, List.sum_cons, Nat.add_comm (cost p), ← Nat.add_assoc] at h
    rw [List.foldlM_cons, reached]
    refine (merge_ends hnamed hsums h).bind ?_ ?_ ?_
    · rintro ⟨htables, hlabels⟩
      rw [if_pos htables, if_pos htables, if_pos hlabels, reachedIn_of_convert hlabels]
      exact (List.prefix_append_right_inj _).mpr (List.prefix_append _ _)
    · intro hstop
      by_cases htables : TablesConvert named p
      · rw [if_pos htables, if_pos htables, if_neg fun hlabels => hstop ⟨htables, hlabels⟩]
      · rw [if_neg htables, if_neg htables]
    · rintro a ⟨htables, hlabels⟩ hfit hm
      rw [if_pos htables, reachedIn_of_convert hlabels] at hfit
      rw [if_pos htables, if_pos hlabels, ← List.append_assoc]
      refine (ih ?_ hfit hm.inv).mono fun acc' hr => ⟨?_, ?_⟩
      · rw [hm.sampleTypes, ← hnamed, Bool.or_eq_false_iff, Bool.not_eq_false', List.isEmpty_iff]
      · rw [List.map_cons, allContributions, List.flatMap_cons, ← List.append_assoc]
        exact hr.inv
      · rw [hr.stored, hm.stored, List.map_cons, ← List.foldl_append]
        rfl

theorem mergeAll_ends (canon : String → String) {ps : List DecodedProfile}
    (hsize : 1 + (n + (ps.map cost).sum) < 2 ^ 63) :
    EndsWith (AllConvert false ps) (reached canon false ps)
      (fun acc => Inv canon n acc (allContributions canon (ps.map DecodedProfile.effective)) ∧
        contributions canon acc.profile =
          accumulate (allContributions canon (ps.map DecodedProfile.effective)))
      (mergeAll canon ps) := by
  have hnamed : false = false ↔ (new canon).profile.sampleTypes = [] := iff_of_true rfl rfl
  have h := foldlM_merge_ends hnamed sumsFit_nil (new_inv hsize)
  exact h.mono fun acc hm => ⟨hm.inv, hm.stored⟩

end LiveProfileAccumulator

end PProfessor.Kit
