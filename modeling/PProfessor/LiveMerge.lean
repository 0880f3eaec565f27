import PProfessor.LiveOverflow

set_option autoImplicit false

/-!
# Merging a sequence of deltas

A fresh accumulator that merges any sequence of profiles stores, for everything
that a sample can say, the sum of the rows of the samples that say it.
-/
namespace PProfessor.Kit
open CheckedArith Columns Fallible KeyedSum NumberedTable Pprof

/-- Ids are unique within each table. -/
structure UniqueIds (d : DecodedProfile) : Prop where
  mappings : (d.mappings.map Mapping.id).Nodup
  functions : (d.functions.map Function.id).Nodup
  locations : (d.locations.map Location.id).Nodup

theorem UniqueIds.effective {d : DecodedProfile} (h : UniqueIds d) : d.effective = d := by
  unfold DecodedProfile.effective
  rw [lastWins_of_nodup Mapping.id h.mappings, lastWins_of_nodup Location.id h.locations]

namespace LiveProfileAccumulator

variable {canon : String → String} {n : ℕ} {ps : List DecodedProfile}

/-- `Int(_:)` converts every string index that merging the sequence looks up; a
header is looked up as long as the accumulator has no sample types. -/
structure Fits (ps : List DecodedProfile) : Prop where
  bodies : ∀ p ∈ ps, BodyConverts p
  headers : ∀ before p, before ++ [p] <+: ps → (∀ q ∈ before, q.sampleTypes = []) → HeaderConverts p

theorem allConvert_iff {named : Bool} : AllConvert named ps ↔ (∀ p ∈ ps, BodyConverts p) ∧
    ∀ before p, before ++ [p] <+: ps → named = false → (∀ q ∈ before, q.sampleTypes = []) →
      HeaderConverts p := by
  induction ps generalizing named with
  | nil =>
    refine iff_of_true trivial ⟨by simp, ?_⟩
    intro before p hp
    exact absurd (List.prefix_nil.mp hp) (List.append_ne_nil_of_right_ne_nil _ (by simp))
  | cons d rest ih =>
    rw [AllConvert, ih, List.forall_mem_cons]
    constructor
    · rintro ⟨⟨htables, hlabels⟩, hbodies, hheaders⟩
      refine ⟨⟨⟨htables.mappings, htables.functions, hlabels⟩, hbodies⟩, ?_⟩
      intro before p hp hnamed hempty
      cases before with
      | nil =>
        rw [(List.cons_prefix_cons.mp hp).1]
        exact htables.header hnamed
      | cons first before =>
        obtain ⟨rfl, htail⟩ := List.cons_prefix_cons.mp hp
        rw [List.forall_mem_cons] at hempty
        refine hheaders before p htail ?_ hempty.2
        rw [hnamed, hempty.1]
        rfl
    · rintro ⟨⟨hbody, hbodies⟩, hheaders⟩
      refine ⟨⟨⟨?_, hbody.mappings, hbody.functions⟩, hbody.labels⟩, hbodies, ?_⟩
      · intro hnamed
        exact hheaders [] d (List.cons_prefix_cons.mpr ⟨rfl, List.nil_prefix⟩) hnamed (by simp)
      · intro before p hp hnamed hempty
        rw [Bool.or_eq_false_iff, Bool.not_eq_false', List.isEmpty_iff] at hnamed
        exact hheaders (d :: before) p (List.cons_prefix_cons.mpr ⟨rfl, hp⟩) hnamed.1
          (List.forall_mem_cons.mpr ⟨hnamed.2, hempty⟩)

theorem fits_iff : Fits ps ↔ AllConvert false ps := by
  rw [allConvert_iff]
  constructor
  · exact fun h => ⟨h.bodies, fun before p hp _ => h.headers before p hp⟩
  · exact fun h => ⟨h.1, fun before p hp => h.2 before p hp rfl⟩

theorem mergeAll_returns (hsize : 1 + (n + (ps.map cost).sum) < 2 ^ 63)
    (hids : ∀ p ∈ ps, UniqueIds p) (hsums : SumsFit (allContributions canon ps))
    (hfits : Fits ps) :
    Returns (fun acc => Inv canon n acc (allContributions canon ps)) (mergeAll canon ps) := by
  have hsame : ps.map DecodedProfile.effective = ps := by
    rw [List.map_congr_left fun p hp => (hids p hp).effective]
    exact List.map_id ps
  have hconvert := fits_iff.mp hfits
  have hends := mergeAll_ends canon hsize
  rw [reached_of_convert canon hconvert, hsame] at hends
  exact (hends.returns hconvert hsums).mono fun acc h => h.1

/-- A sequence that is merged without a trap has no index beyond `Int(_:)`. -/
theorem mergeAll_fits (hsize : 1 + (n + (ps.map cost).sum) < 2 ^ 63)
    (h : Returns (fun _ => True) (mergeAll canon ps)) : Fits ps := by
  obtain ⟨acc, hacc, -⟩ := h
  have hends := mergeAll_ends canon hsize
  rw [hacc] at hends
  exact fits_iff.mpr hends.of_ok.1

/-- Merging the sequence stores for each key one sample with the sum of its rows, and
merging it in another order stores the same. -/
def MergesToSums (canon : String → String) (ps : List DecodedProfile) : Prop :=
  ∃ acc, mergeAll canon ps = .ok acc ∧
    Grouped (contributions canon acc.profile) (allContributions canon ps) ∧
    ∀ ps' acc', ps'.Perm ps → SumsFit (allContributions canon ps') →
      mergeAll canon ps' = .ok acc' →
        (contributions canon acc'.profile).Perm (contributions canon acc.profile)

theorem mergesToSums_iff (canon : String → String) (ps : List DecodedProfile)
    (hids : ∀ p ∈ ps, UniqueIds p) (hsums : SumsFit (allContributions canon ps))
    (hsize : 1 + (ps.map cost).sum < 2 ^ 63) : MergesToSums canon ps ↔ Fits ps := by
  rw [← Nat.zero_add (ps.map cost).sum] at hsize
  constructor
  · rintro ⟨acc, hacc, -⟩
    exact mergeAll_fits hsize ⟨acc, hacc, trivial⟩
  · intro hfits
    obtain ⟨acc, hacc, hloop⟩ := mergeAll_returns hsize hids hsums hfits
    refine ⟨acc, hacc, hloop.grouped, fun ps' acc' hperm hsums' hacc' => ?_⟩
    have hsize' : 1 + (0 + (ps'.map cost).sum) < 2 ^ 63 := by
      rwa [(hperm.map cost).sum_eq]
    have hids' : ∀ p ∈ ps', UniqueIds p := fun p hp => hids p (hperm.mem_iff.mp hp)
    have hfits' := mergeAll_fits hsize' ⟨acc', hacc', trivial⟩
    obtain ⟨a, ha, hloop'⟩ := mergeAll_returns hsize' hids' hsums' hfits'
    have hsame : acc' = a := Except.ok.inj (hacc'.symm.trans ha)
    subst hsame
    exact (hloop'.grouped.of_perm (hperm.flatMap_right _)).perm hloop.grouped

def oneSample (values : List Int64) : DecodedProfile :=
  { DecodedProfile.new with stringTable := [""], samples := [⟨[1], values, []⟩] }

theorem sumsFit_twoLengths : SumsFit (allContributions id [oneSample [5], oneSample [2, 7]]) := by
  refine .of_abs fun j => ?_
  change |Row.col j (Row.ofValues [5])| + (|Row.col j (Row.ofValues [2, 7])| + 0) < 2 ^ 63
  rw [Row.col_ofValues, Row.col_ofValues]
  match j with
  | 0 => decide
  | 1 => decide
  | j + 2 => simp

theorem mergesToSums_iff_twoLengths :
    MergesToSums id [oneSample [5], oneSample [2, 7]] ↔
      Fits [oneSample [5], oneSample [2, 7]] := by
  refine mergesToSums_iff id _ ?_ sumsFit_twoLengths (by decide)
  rw [List.forall_mem_cons, List.forall_mem_singleton]
  exact ⟨⟨by decide, by decide, by decide⟩, ⟨by decide, by decide, by decide⟩⟩

/-- A mapping whose file name is beyond the string table, and beyond `Int`. -/
def hugeFilename : DecodedProfile :=
  { DecodedProfile.new with
    stringTable := [""]
    mappings := [⟨1, 0, 0, 0, 0x8000000000000000, 0, false, false, false, false⟩] }

theorem hugeFilename_not_merged :
    UniqueIds hugeFilename ∧ SumsFit (allContributions id [hugeFilename]) ∧
      ¬ MergesToSums id [hugeFilename] := by
  have hids : UniqueIds hugeFilename := ⟨by decide, by decide, by decide⟩
  have hsums : SumsFit (allContributions id [hugeFilename]) := by
    refine .of_abs fun j => ?_
    change (0 : ℤ) < 2 ^ 63
    decide
  refine ⟨hids, hsums, ?_⟩
  rintro ⟨acc, hacc, -⟩
  have hfits : Fits [hugeFilename] :=
    mergeAll_fits (n := 0) (by decide) ⟨acc, hacc, trivial⟩
  have hbody := hfits.bodies hugeFilename List.mem_cons_self
  have hconverts : Converts 0x8000000000000000 := (hbody.mappings _ List.mem_cons_self).2
  exact absurd hconverts (by decide)

end LiveProfileAccumulator

end PProfessor.Kit
