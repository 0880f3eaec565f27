import PProfessor.LiveLocations

set_option autoImplicit false

/-!
# What a merge that returns has looked up

`string(at:)` traps at an index that `Int(_:)` does not convert, so a merge that
returns has converted every index that it looked up.
-/
namespace PProfessor.Kit
open Fallible NumberedTable Pprof

theorem DecodedProfile.string_converts {d : DecodedProfile} {index : UInt64} {s : String}
    (h : d.string index = .ok s) : Converts index := by
  unfold DecodedProfile.string at h
  split_ifs at h with hbig
  · exact Nat.lt_of_not_le hbig
  · exact Nat.lt_of_not_le hbig

namespace LiveProfileAccumulator

variable {canon : String → String} {acc : LiveProfileAccumulator} {delta : DecodedProfile}

theorem internAt_fits {index : UInt64} {r : UInt64 × LiveProfileAccumulator}
    (h : acc.internAt canon delta index = .ok r) : Converts index := by
  obtain ⟨s, hs, -⟩ := bind_eq_ok.mp h
  exact DecodedProfile.string_converts hs

theorem internUnlessZero_fits {index : UInt64} {r : UInt64 × LiveProfileAccumulator}
    (h : acc.internUnlessZero canon delta index = .ok r) : Converts index := by
  unfold internUnlessZero at h
  split_ifs at h with hz
  · rw [hz]
    decide
  · exact internAt_fits h

theorem internValueType_fits {vt : ValueType} {r : ValueType × LiveProfileAccumulator}
    (h : acc.internValueType canon delta vt = .ok r) : Converts vt.type ∧ Converts vt.unit := by
  obtain ⟨type, htype, h⟩ := bind_eq_ok.mp h
  obtain ⟨unit, hunit, -⟩ := bind_eq_ok.mp h
  exact ⟨internAt_fits htype, internAt_fits hunit⟩

theorem internEach_forall {α β : Type}
    {f : LiveProfileAccumulator → α → Except Trap (β × LiveProfileAccumulator)} {P : α → Prop}
    {xs : List α} {r : List β × LiveProfileAccumulator} (h : internEach f acc xs = .ok r)
    (hf : ∀ a x r, f a x = .ok r → P x) : ∀ x ∈ xs, P x := by
  induction xs generalizing acc r with
  | nil => exact fun _ hx => absurd hx List.not_mem_nil
  | cons x xs ih =>
    obtain ⟨y, hy, h⟩ := bind_eq_ok.mp h
    obtain ⟨ys, hys, -⟩ := bind_eq_ok.mp h
    exact List.forall_mem_cons.mpr ⟨hf acc x y hy, ih hys⟩

theorem mergePeriodType_fits {acc' : LiveProfileAccumulator}
    (h : acc.mergePeriodType canon delta = .ok acc') :
    ∀ vt, delta.periodType = some vt → Converts vt.type ∧ Converts vt.unit := by
  intro vt hvt
  unfold mergePeriodType at h
  rw [hvt] at h
  obtain ⟨r, hr, -⟩ := bind_eq_ok.mp h
  exact internValueType_fits hr

theorem mergeHeader_fits {acc' : LiveProfileAccumulator}
    (h : acc.mergeHeader canon delta = .ok acc') (hempty : acc.profile.sampleTypes = []) :
    HeaderConverts delta := by
  unfold mergeHeader at h
  rw [if_neg (not_not.mpr hempty)] at h
  obtain ⟨types, htypes, h⟩ := bind_eq_ok.mp h
  obtain ⟨a₂, hperiod, h⟩ := bind_eq_ok.mp h
  obtain ⟨default, hdefault, h⟩ := bind_eq_ok.mp h
  obtain ⟨comments, hcomments, h⟩ := bind_eq_ok.mp h
  obtain ⟨drop, hdrop, h⟩ := bind_eq_ok.mp h
  obtain ⟨keep, hkeep, h⟩ := bind_eq_ok.mp h
  obtain ⟨doc, hdoc, -⟩ := bind_eq_ok.mp h
  exact ⟨internEach_forall htypes fun _ _ _ => internValueType_fits, mergePeriodType_fits hperiod,
    internUnlessZero_fits hdefault, internEach_forall hcomments fun _ _ _ => internAt_fits,
    internUnlessZero_fits hdrop, internUnlessZero_fits hkeep, internUnlessZero_fits hdoc⟩

theorem mergeMapping_fits {state state' : LiveProfileAccumulator × IDMap} {x : Mapping}
    (h : mergeMapping canon delta state x = .ok state') :
    Converts x.buildId ∧ Converts x.filename := by
  obtain ⟨buildID, hbuild, h⟩ := bind_eq_ok.mp h
  obtain ⟨filename, hfile, -⟩ := bind_eq_ok.mp h
  exact ⟨DecodedProfile.string_converts hbuild, DecodedProfile.string_converts hfile⟩

theorem mergeFunction_fits {x : Function} {r : UInt64 × LiveProfileAccumulator}
    (h : acc.mergeFunction canon delta x = .ok r) : FunctionConverts x := by
  obtain ⟨name, hname, h⟩ := bind_eq_ok.mp h
  obtain ⟨systemName, hsystem, h⟩ := bind_eq_ok.mp h
  obtain ⟨filename, hfile, -⟩ := bind_eq_ok.mp h
  exact ⟨DecodedProfile.string_converts hname, DecodedProfile.string_converts hsystem,
    DecodedProfile.string_converts hfile⟩

theorem mergeLines_fits {functions : Std.ExtHashMap UInt64 Function} {lines : List Line}
    {r : List Line × LiveProfileAccumulator}
    (h : mergeLines canon delta functions acc lines = .ok r) :
    ∀ line ∈ lines, ∀ f, functions[line.functionId]? = some f → FunctionConverts f := by
  induction lines generalizing acc r with
  | nil => exact fun _ hl => absurd hl List.not_mem_nil
  | cons line rest ih =>
    rw [List.forall_mem_cons]
    unfold mergeLines at h
    split at h
    · next hnone =>
      refine ⟨fun f hf => ?_, ih h⟩
      rw [hnone] at hf
      cases hf
    · next function hsome =>
      obtain ⟨id, hid, h⟩ := bind_eq_ok.mp h
      obtain ⟨lines, hlines, -⟩ := bind_eq_ok.mp h
      refine ⟨fun f hf => ?_, ih hlines⟩
      rw [hsome, Option.some.injEq] at hf
      rw [← hf]
      exact mergeFunction_fits hid

theorem mergeLocation_fits {functions : Std.ExtHashMap UInt64 Function} {mappingIDs : IDMap}
    {state state' : LiveProfileAccumulator × IDMap} {x : Location}
    (h : mergeLocation canon delta functions mappingIDs state x = .ok state') :
    ∀ line ∈ x.lines, ∀ f, functions[line.functionId]? = some f → FunctionConverts f := by
  obtain ⟨lines, hlines, -⟩ := bind_eq_ok.mp h
  exact mergeLines_fits hlines

theorem internLabel_fits {label : Label} {r : Label × LiveProfileAccumulator}
    (h : acc.internLabel canon delta label = .ok r) : LabelConverts label := by
  obtain ⟨key, hkey, h⟩ := bind_eq_ok.mp h
  obtain ⟨str, hstr, h⟩ := bind_eq_ok.mp h
  obtain ⟨unit, hunit, -⟩ := bind_eq_ok.mp h
  exact ⟨internAt_fits hkey, internUnlessZero_fits hstr, internUnlessZero_fits hunit⟩

end LiveProfileAccumulator

end PProfessor.Kit
