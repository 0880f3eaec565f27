import PProfessor.ReportTreeWalk

set_option autoImplicit false

/-!
# The self cost of all samples

The row of all samples takes what the stacks add up to from a total of absolute
values: what is left is the cost of the samples without frames only as long as
increases and decreases do not cancel.
-/
namespace PProfessor.Report
open CheckedArith KeyedSum Pprof Ranking StackCosts

/-- The values are all increases or all decreases. -/
def OneSigned (values : List ℤ) : Prop := (∀ v ∈ values, 0 ≤ v) ∨ ∀ v ∈ values, v ≤ 0

theorem abs_le_sum_abs (values : List ℤ) : |values.sum| ≤ (values.map abs).sum := by
  induction values with
  | nil => exact le_refl _
  | cons v values ih =>
    rw [List.map_cons, List.sum_cons, List.sum_cons]
    exact (abs_add_le _ _).trans (add_le_add (le_refl _) ih)

theorem sum_le_sum_abs (values : List ℤ) : values.sum ≤ (values.map abs).sum :=
  (le_abs_self _).trans (abs_le_sum_abs values)

theorem sum_abs_eq_sum_iff (values : List ℤ) :
    (values.map abs).sum = values.sum ↔ ∀ v ∈ values, 0 ≤ v := by
  induction values with
  | nil => simp
  | cons v values ih =>
    have hrest := sum_le_sum_abs values
    have hv := le_abs_self v
    rw [List.map_cons, List.sum_cons, List.sum_cons, List.forall_mem_cons, ← ih, ← abs_eq_self]
    omega

theorem sum_map_neg (values : List ℤ) : (values.map Neg.neg).sum = -values.sum := by
  induction values with
  | nil => rfl
  | cons v values ih =>
    rw [List.map_cons, List.sum_cons, List.sum_cons, ih]
    omega

theorem sum_abs_eq_neg_sum_iff (values : List ℤ) :
    (values.map abs).sum = -values.sum ↔ ∀ v ∈ values, v ≤ 0 := by
  have h := sum_abs_eq_sum_iff (values.map Neg.neg)
  have habs : (fun v : ℤ => |v|) ∘ Neg.neg = fun v => |v| := funext abs_neg
  rw [List.map_map, habs, sum_map_neg, List.forall_mem_map] at h
  rw [h]
  simp only [Left.nonneg_neg_iff]

theorem abs_sum_eq_iff (values : List ℤ) :
    |values.sum| = (values.map abs).sum ↔ OneSigned values := by
  have hle := sum_le_sum_abs values
  unfold OneSigned
  rw [← sum_abs_eq_sum_iff, ← sum_abs_eq_neg_sum_iff]
  constructor
  · intro h
    rcases abs_choice values.sum with hpos | hneg
    · exact .inl (h.symm.trans hpos)
    · exact .inr (h.symm.trans hneg)
  · have hnonneg : 0 ≤ (values.map abs).sum := by
      apply List.sum_nonneg
      simp only [List.mem_map]
      rintro _ ⟨v, -, rfl⟩
      exact abs_nonneg v
    rintro (h | h)
    · rw [h] at hnonneg ⊢
      exact abs_of_nonneg hnonneg
    · rw [h] at hnonneg ⊢
      rw [← abs_neg]
      exact abs_of_nonneg hnonneg

/-- The absolute values of the samples that resolve to no frame. -/
def unresolvedCost (cs : List Contribution) : ℤ :=
  ((cs.filter fun c => c.1 = []).map fun c => |weight c|).sum

/-- The values of the samples that resolve to a frame. -/
def resolvedValues (cs : List Contribution) : List ℤ := (cs.filter fun c => c.1 ≠ []).map weight

theorem magnitudeSum_split (cs : List Contribution) :
    magnitudeSum cs = unresolvedCost cs + ((resolvedValues cs).map abs).sum := by
  unfold magnitudeSum unresolvedCost resolvedValues
  induction cs with
  | nil => rfl
  | cons c cs ih =>
    rw [List.map_cons, List.sum_cons, ih]
    by_cases h : c.1 = []
    · simp [h]
      omega
    · simp [h]
      omega

theorem resolved_le_magnitudeSum (cs : List Contribution) :
    ((resolvedValues cs).map abs).sum ≤ magnitudeSum cs := by
  have hnonneg : 0 ≤ unresolvedCost cs := by
    apply List.sum_nonneg
    simp only [List.mem_map]
    rintro _ ⟨c, -, rfl⟩
    exact abs_nonneg _
  rw [magnitudeSum_split]
  omega

theorem resolvedValues_sum (cs : List Contribution) :
    (resolvedValues cs).sum = resolved (cs.map weightedStack) := by
  unfold resolvedValues resolved
  rw [List.filter_map, List.map_map]
  congr 2
  apply List.filter_congr
  intro c _
  change decide (c.1 ≠ []) = decide (c.1.map ResolvedFrame.identity ≠ [])
  simp

theorem abs_total_le_total {κ : Type} [DecidableEq κ] (key : Contribution → κ)
    (cs : List Contribution) (k : κ) :
    |total key weight cs k| ≤ total key (fun c => |weight c|) cs k := by
  induction cs with
  | nil => exact le_refl _
  | cons c cs ih =>
    rw [total_cons, total_cons]
    refine (abs_add_le _ _).trans (add_le_add ?_ ih)
    split_ifs
    · exact le_refl _
    · exact le_of_eq abs_zero

section Tallied

variable {cs : List Contribution} {a : Aggregates} (htallied : Tallied cs a)
  {order : List (List FrameIdentity × StackStat)} (horder : Enumerates order a.stackStats)
include htallied horder

theorem Tallied.stack_values :
    (order.map Prod.snd).map (fun s => s.value.toInt) = (order.map Prod.fst).map (stackOf cs) := by
  rw [List.map_map, List.map_map]
  apply List.map_congr_left
  intro entry hentry
  have hrel := htallied.stackStats entry.1
  rw [(horder.mem_iff entry.1 entry.2).mp hentry] at hrel
  cases hfirst : firstStack cs entry.1 with
  | none =>
    rw [hfirst] at hrel
    cases hrel
  | some frames =>
    rw [hfirst] at hrel
    cases hrel with
    | some hstat => exact hstat.value

theorem Tallied.mem_keys (key : List FrameIdentity) :
    key ∈ order.map Prod.fst ↔ key ≠ [] ∧ ∃ c ∈ cs, identities c = key := by
  rw [horder.mem_keys, ← isSome_iff_of_rel (htallied.stackStats key), firstStack_isSome]

theorem Tallied.sum_values :
    ((order.map Prod.snd).map fun s => s.value.toInt).sum = (resolvedValues cs).sum := by
  have hwhole : stackOf cs = whole (cs.map weightedStack) := funext (stackOf_eq cs)
  rw [htallied.stack_values horder, resolvedValues_sum, hwhole]
  apply sum_whole horder.keys_nodup
  · rw [htallied.mem_keys horder]
    exact fun hnil => hnil.1 rfl
  · intro s hs hne
    obtain ⟨c, hc, rfl⟩ := List.mem_map.mp hs
    exact (htallied.mem_keys horder _).mpr ⟨hne, c, hc, rfl⟩

theorem Tallied.sum_abs_values :
    ((order.map Prod.snd).map fun s => |s.value.toInt|).sum ≤ magnitudeSum cs := by
  have hnil : [] ∉ order.map Prod.fst := by
    rw [htallied.mem_keys horder]
    exact fun h => h.1 rfl
  have hkeys : ∀ c ∈ cs, identities c ∈ [] :: order.map Prod.fst := by
    intro c hc
    rw [List.mem_cons, htallied.mem_keys horder]
    by_cases h : identities c = []
    · exact .inl h
    · exact .inr ⟨h, c, hc, rfl⟩
  have hsum := sum_total identities (fun c => |weight c|)
    (List.nodup_cons.mpr ⟨hnil, horder.keys_nodup⟩) hkeys
  rw [List.map_cons, List.sum_cons] at hsum
  have hrest := (abs_nonneg _).trans (abs_total_le_total identities cs [])
  have hvalues : ((order.map Prod.snd).map fun s => |s.value.toInt|) =
      (order.map Prod.fst).map fun key => |stackOf cs key| := by
    have h := congrArg (List.map abs) (htallied.stack_values horder)
    rw [List.map_map, List.map_map (l := order.map Prod.fst)] at h
    exact h
  have hle : ((order.map Prod.fst).map fun key => |stackOf cs key|).sum ≤
      ((order.map Prod.fst).map (total identities (fun c => |weight c|) cs)).sum :=
    List.sum_le_sum fun key _ => abs_total_le_total identities cs key
  unfold magnitudeSum
  rw [hvalues]
  omega

end Tallied

namespace CallTree

theorem foldl_addStack_value {ranked : List StackStat} {root : CallTree}
    (h : |root.value.toInt| + (ranked.map fun s => |s.value.toInt|).sum < 2 ^ 63) :
    (ranked.foldl addStack root).value.toInt =
      root.value.toInt + (ranked.map fun s => s.value.toInt).sum := by
  induction ranked generalizing root with
  | nil => exact (add_zero _).symm
  | cons stack rest ih =>
    rw [List.map_cons, List.sum_cons] at h
    have hrest : 0 ≤ (rest.map fun s => |s.value.toInt|).sum := by
      apply List.sum_nonneg
      simp only [List.mem_map]
      rintro _ ⟨s, -, rfl⟩
      exact abs_nonneg _
    have hle := abs_add_le root.value.toInt stack.value.toInt
    have habs := abs_le.mp (hle.trans (show _ ≤ 2 ^ 63 - 1 by omega))
    have hstep : (addStack root stack).value.toInt = root.value.toInt + stack.value.toInt := by
      rw [addStack_value]
      exact saturatingAddI64_toInt ⟨by omega, by omega⟩
    rw [List.foldl_cons, ih, hstep, List.map_cons, List.sum_cons, add_assoc]
    rw [hstep]
    omega

theorem fromStacks_value {ranked : List StackStat}
    (h : (ranked.map fun s => |s.value.toInt|).sum < 2 ^ 63) :
    (fromStacks ranked).value.toInt = (ranked.map fun s => s.value.toInt).sum := by
  have hroot : |(leaf none).value.toInt| + (ranked.map fun s => |s.value.toInt|).sum < 2 ^ 63 := by
    rwa [show |(leaf none).value.toInt| = 0 from rfl, zero_add]
  have hvalue := foldl_addStack_value hroot
  rwa [show (leaf none).value.toInt = 0 from rfl, zero_add] at hvalue

end CallTree

theorem saturatingSubI64_toInt {a b : Int64} (h : InI64 (a.toInt - b.toInt)) :
    (saturatingSubI64 a b).toInt = a.toInt - b.toInt := by
  rw [saturatingSubI64, subI64, if_pos h, Option.getD_some, Int64.toInt_sub, bmod_eq_self h]

section Root

variable {p : PprofProfile} {requested : Option String} {sampleIndex : ℕ}
  (hindex : sampleIndexOf p requested = .ok sampleIndex)
  (hfit : magnitudeSum (contributions p sampleIndex) < 2 ^ 63)
  {frameOrder : List (FrameIdentity × FrameStat)}
  {stackOrder : List (List FrameIdentity × StackStat)}
  (hstacks : Enumerates stackOrder (aggregate p sampleIndex).stackStats)
  {report : ProfileReport} (hok : fromProfile p requested frameOrder stackOrder = .ok report)
  {tree : CallTree} (htree : CallTree.Reordered (CallTree.fromStacks report.topStacks) tree)
include hindex hfit hstacks hok htree

theorem rootSelfValue_toInt : (rootSelfValue report tree).toInt =
    magnitudeSum (contributions p sampleIndex) -
      |(resolvedValues (contributions p sampleIndex)).sum| := by
  have htallied := aggregate_tallied p sampleIndex hfit
  obtain ⟨selected, -, hreport⟩ := fromProfile_ok hindex ⟨p.samples, .refl _⟩ frameOrder stackOrder
  obtain rfl := Except.ok.inj (hok.symm.trans hreport)
  have hperm : (rank compareStacks (stackOrder.map Prod.snd)).Perm (stackOrder.map Prod.snd) :=
    rank_perm _ _
  have habs := htallied.sum_abs_values hstacks
  rw [← (hperm.map _).sum_eq] at habs
  have hvalue := CallTree.fromStacks_value (habs.trans_lt hfit)
  rw [(hperm.map _).sum_eq, htallied.sum_values hstacks] at hvalue
  have hroot := congrArg Int64.toInt htree.value
  rw [hvalue] at hroot
  have hnet := (abs_le_sum_abs _).trans (resolved_le_magnitudeSum (contributions p sampleIndex))
  have hself := abs_nonneg (resolvedValues (contributions p sampleIndex)).sum
  have hvalue : (saturatingAbsI64 tree.value).toInt =
      |(resolvedValues (contributions p sampleIndex)).sum| := by
    rw [saturatingAbsI64_toInt, ← hroot]
    rw [← hroot]
    omega
  have htotal : (aggregate p sampleIndex).totalValue.toInt =
      magnitudeSum (contributions p sampleIndex) := htallied.totalValue
  change (saturatingSubI64 (aggregate p sampleIndex).totalValue
    (saturatingAbsI64 tree.value)).toInt = _
  rw [saturatingSubI64_toInt, htotal, hvalue]
  rw [htotal, hvalue]
  exact ⟨by omega, by omega⟩

/-- The row shows the cost of the samples without frames exactly when the values of
the others have one sign. -/
theorem root_self_cost_iff {F : Type} (floats : Floats F) (options : RenderOptions F) :
    (∃ rows, renderTree floats report options tree =
      treeText floats options (rootRow floats report tree :: rows)) ∧
    ((rootSelfValue report tree).toInt = unresolvedCost (contributions p sampleIndex) ↔
      OneSigned (resolvedValues (contributions p sampleIndex))) := by
  have hself := rootSelfValue_toInt hindex hfit hstacks hok htree
  have hsplit := magnitudeSum_split (contributions p sampleIndex)
  have hframed := (CallTree.foldl_addStack_framed report.topStacks
    (CallTree.framed_leaf none)).reordered htree
  obtain ⟨rows, omitted, htext⟩ := truncated_of_framed floats report options hframed
  constructor
  · exact ⟨_, htext.text⟩
  · rw [← abs_sum_eq_iff, hself]
    omega

end Root

def unresolved : PprofProfile :=
  { sameName with samples := [⟨[1, 3], [-5], []⟩, ⟨[3], [-3], []⟩, ⟨[9], [2], []⟩, ⟨[], [-1], []⟩] }

theorem contributions_unresolved : contributions unresolved 0 =
    [([⟨.function 3, "main", "a.rs", 30⟩, ⟨.function 1, "run", "a.rs", 10⟩], -5),
      ([⟨.function 3, "main", "a.rs", 30⟩], -3), ([], 2), ([], -1)] := by
  unfold contributions
  simp only [resolveStack_lookup (p := unresolved) ⟨by decide, by decide⟩]
  rfl

theorem root_self_cost_iff_unresolved : ∃ frameOrder stackOrder report,
    fromProfile unresolved none frameOrder stackOrder = .ok report ∧
      (rootSelfValue report (CallTree.fromStacks report.topStacks)).toInt = 3 := by
  have hindex : sampleIndexOf unresolved none = .ok 0 := rfl
  obtain ⟨frameOrder, -⟩ := Enumerates.exists_order (aggregate unresolved 0).stats
  obtain ⟨stackOrder, hstacks⟩ := Enumerates.exists_order (aggregate unresolved 0).stackStats
  obtain ⟨selected, -, hok⟩ := fromProfile_ok hindex ⟨unresolved.samples, .refl _⟩ frameOrder
    stackOrder
  have hfit : magnitudeSum (contributions unresolved 0) < 2 ^ 63 := by
    rw [contributions_unresolved]
    decide
  have h := (root_self_cost_iff hindex hfit hstacks hok (CallTree.Matches.refl (fun _ => rfl) _)
    hundredths ⟨.terminal, 2, 0⟩).2
  rw [contributions_unresolved] at h
  exact ⟨frameOrder, stackOrder, _, hok, h.mpr (.inr (by decide))⟩

/-- An increase and a decrease, both below a frame. -/
def difference : PprofProfile :=
  { sameName with samples := [⟨[1], [5], []⟩, ⟨[2], [-3], []⟩] }

theorem contributions_difference : contributions difference 0 =
    [([⟨.function 1, "run", "a.rs", 10⟩], 5), ([⟨.function 2, "run", "b.rs", 20⟩], -3)] := by
  unfold contributions
  simp only [resolveStack_lookup (p := difference) ⟨by decide, by decide⟩]
  rfl

/-- The row shows a cost of 6 where every sample has a frame. -/
theorem root_self_cost_difference : ∃ frameOrder stackOrder report,
    Enumerates frameOrder (aggregate difference 0).stats ∧
      Enumerates stackOrder (aggregate difference 0).stackStats ∧
      fromProfile difference none frameOrder stackOrder = .ok report ∧
      magnitudeSum (contributions difference 0) < 2 ^ 63 ∧
      (rootSelfValue report (CallTree.fromStacks report.topStacks)).toInt = 6 ∧
      unresolvedCost (contributions difference 0) = 0 := by
  have hindex : sampleIndexOf difference none = .ok 0 := rfl
  obtain ⟨frameOrder, hframes⟩ := Enumerates.exists_order (aggregate difference 0).stats
  obtain ⟨stackOrder, hstacks⟩ := Enumerates.exists_order (aggregate difference 0).stackStats
  obtain ⟨selected, -, hok⟩ := fromProfile_ok hindex ⟨difference.samples, .refl _⟩ frameOrder
    stackOrder
  have hfit : magnitudeSum (contributions difference 0) < 2 ^ 63 := by
    rw [contributions_difference]
    decide
  have hself := rootSelfValue_toInt hindex hfit hstacks hok (CallTree.Matches.refl (fun _ => rfl) _)
  rw [contributions_difference] at hself hfit ⊢
  exact ⟨frameOrder, stackOrder, _, hframes, hstacks, hok, hfit, hself, rfl⟩

end PProfessor.Report
