import PProfessor.KitFlamegraph
import PProfessor.KitTraps

set_option autoImplicit false

/-!
# Overflow in the flame graph

The additions of `convertProfile` trap. All values that it adds are positive, so no
sum is larger than the root's: one traps exactly when the values that are counted
up to the first lookup that traps are too large together.
-/
namespace PProfessor.Kit
open CheckedArith Fallible Pprof

section Lookups

variable {canon : String → String} {profile : DecodedProfile} {options : ConversionOptions}

theorem heapDomainFor_noOverflow (sample : Sample) :
    NoOverflow (heapDomainFor canon profile sample) := by
  have hany : NoOverflow (isHeapProfile canon profile) := by
    apply Throws.anyM
    exact fun type _ => (DecodedProfile.string_noOverflow _).bind fun name _ => .of_ok _
  unfold heapDomainFor
  apply Throws.bind
  · apply Throws.findM?
    exact fun label _ => (DecodedProfile.string_noOverflow _).bind fun key _ => .of_ok _
  · intro label _
    cases label with
    | some label => exact (DecodedProfile.string_noOverflow _).map _
    | none =>
      refine hany.bind fun heap _ => ?_
      split_ifs
      · exact .of_ok _
      · exact .of_ok _

variable (canon profile options) in
theorem selectedHeapOf_noOverflow : NoOverflow (selectedHeapOf canon profile options) := by
  unfold selectedHeapOf
  split
  · exact .of_ok _
  · refine Throws.bind ?_ fun domains _ => .of_ok _
    unfold heapDomains
    exact (Throws.mapM fun sample _ => heapDomainFor_noOverflow sample).bind fun _ _ => .of_ok _

theorem profileThreadLabel_noOverflow (sample : Sample) :
    NoOverflow (profileThreadLabel canon profile sample) := by
  unfold profileThreadLabel
  induction sample.labels with
  | nil => exact .of_ok _
  | cons label rest ih =>
    rw [threadLabelIn]
    refine (DecodedProfile.string_noOverflow _).bind fun key _ => ?_
    split_ifs
    · exact (DecodedProfile.string_noOverflow _).map _
    · exact .of_ok _
    · exact ih
    · exact ih

theorem profileTimestampNanos_noOverflow (sample : Sample) :
    NoOverflow (profileTimestampNanos canon profile sample) := by
  unfold profileTimestampNanos
  induction sample.labels with
  | nil => exact .of_ok _
  | cons label rest ih =>
    rw [timestampIn]
    refine (DecodedProfile.string_noOverflow _).bind fun key _ => ?_
    split_ifs
    · exact .of_ok _
    · exact (DecodedProfile.string_noOverflow _).bind fun unit _ => .of_ok _
    · exact ih

theorem passes_noOverflow (selectedHeap : Option String) (sample : Sample) :
    NoOverflow (passes canon profile options selectedHeap sample) := by
  have hheap : NoOverflow (passesHeap canon profile selectedHeap sample) := by
    unfold passesHeap
    split
    · exact .of_ok _
    · refine (heapDomainFor_noOverflow sample).bind fun domain _ => ?_
      cases domain <;> exact .of_ok _
  have hthread : NoOverflow (passesThread canon profile options sample) := by
    unfold passesThread
    split
    · exact .of_ok _
    · refine (profileThreadLabel_noOverflow sample).bind fun label _ => ?_
      cases label <;> exact .of_ok _
  have htime : NoOverflow (passesTime canon profile options sample) := by
    unfold passesTime
    split
    · exact .of_ok _
    · refine (profileTimestampNanos_noOverflow sample).bind fun timestamp _ => ?_
      cases timestamp <;> exact .of_ok _
  unfold passes
  refine hheap.bind fun heap _ => ?_
  split_ifs
  · refine hthread.bind fun thread _ => ?_
    split_ifs
    · exact htime
    · exact .of_ok _
  · exact .of_ok _

theorem walkStack_noOverflow (sample : Sample) : NoOverflow (walkStack profile sample) := by
  have hoptional (index : UInt64) : NoOverflow (optionalString profile index) := by
    unfold optionalString
    split_ifs
    · exact (DecodedProfile.string_noOverflow _).map _
    · exact .of_ok _
  have hlines (lines : List Line) : NoOverflow (walkLines profile lines) := by
    induction lines with
    | nil => exact .of_ok _
    | cons line rest ih =>
      rw [walkLines]
      split
      · exact ih
      · refine Throws.bind ?_ fun frame _ => ih.bind fun frames _ => .of_ok _
        exact (DecodedProfile.string_noOverflow _).bind fun name _ =>
          (hoptional _).bind fun systemName _ => (hoptional _).bind fun filename _ => .of_ok _
  unfold walkStack
  induction sample.locationIds.reverse with
  | nil => exact .of_ok _
  | cons id rest ih =>
    rw [walkLocations]
    split
    · exact ih
    · exact (hlines _).bind fun frames _ => ih.bind fun later _ => .of_ok _

end Lookups

inductive TrieNode.NonNeg : TrieNode → Prop
  | mk {node : TrieNode} (self : 0 ≤ node.selfValue.toInt) (total : 0 ≤ node.totalValue.toInt)
      (children : ∀ entry ∈ node.children, NonNeg entry.2) : NonNeg node

namespace TrieNode.NonNeg

variable {node : TrieNode}

theorem self (h : node.NonNeg) : 0 ≤ node.selfValue.toInt := by
  cases h
  assumption

theorem total (h : node.NonNeg) : 0 ≤ node.totalValue.toInt := by
  cases h
  assumption

theorem children (h : node.NonNeg) : ∀ entry ∈ node.children, NonNeg entry.2 := by
  cases h
  assumption

end TrieNode.NonNeg

theorem childNode_nonNeg (key : String) (frame : WalkedFrame) (depth : ℕ) (parent : String) :
    (childNode key frame depth parent).NonNeg :=
  .mk (le_refl _) (le_refl _) fun _ h => absurd h List.not_mem_nil

theorem rootNode_nonNeg : rootNode.NonNeg :=
  .mk (le_refl _) (le_refl _) fun _ h => absurd h List.not_mem_nil

theorem nonneg_of_setChild {canon : String → String} {key : String} {child : TrieNode}
    {children : List (String × TrieNode)} (h : ∀ entry ∈ children, entry.2.NonNeg)
    (hchild : child.NonNeg) : ∀ entry ∈ setChild canon key child children, entry.2.NonNeg := by
  induction children with
  | nil =>
    intro entry hentry
    rw [List.mem_singleton.mp hentry]
    exact hchild
  | cons first rest ih =>
    rw [List.forall_mem_cons] at h
    rw [setChild]
    split_ifs
    · exact List.forall_mem_cons.mpr ⟨hchild, h.2⟩
    · exact List.forall_mem_cons.mpr ⟨h.1, ih h.2⟩

theorem findChild_nonNeg {canon : String → String} {key : String} {node child : TrieNode}
    (h : node.NonNeg) (hfind : findChild canon key node.children = some child) : child.NonNeg := by
  obtain ⟨entry, hentry, rfl⟩ := Option.map_eq_some_iff.mp hfind
  exact h.children entry (List.mem_of_find?_eq_some hentry)

theorem TrieNode.Owes.child_le {canon : String → String} {owed : ℤ} {node : TrieNode}
    (h : node.Owes canon owed) (hself : 0 ≤ node.selfValue.toInt)
    (hchildren : ∀ entry ∈ node.children, entry.2.NonNeg) {entry : String × TrieNode}
    (hentry : entry ∈ node.children) :
    entry.2.totalValue.toInt + owed ≤ node.totalValue.toInt := by
  have hle : entry.2.totalValue.toInt ≤ node.childTotal := by
    apply List.single_le_sum
    · intro total htotal
      obtain ⟨child, hchild, rfl⟩ := List.mem_map.mp htotal
      obtain ⟨other, hother, rfl⟩ := List.mem_map.mp hchild
      exact (hchildren other hother).total
    · exact List.mem_map_of_mem (List.mem_map_of_mem hentry)
  have hbalanced := h.balanced
  omega

theorem addTrapping_returns {a b : Int64} (h : InI64 (a.toInt + b.toInt)) :
    ∃ sum, addTrapping a b = .ok sum ∧ sum.toInt = a.toInt + b.toInt := by
  refine ⟨a + b, ?_, ?_⟩
  · rw [addTrapping, addI64, if_pos h]
  · rw [Int64.toInt_add, bmod_eq_self h]

theorem addTrapping_overflows {a b : Int64} (h : ¬InI64 (a.toInt + b.toInt)) :
    addTrapping a b = .error .intOverflow := by
  rw [addTrapping, addI64, if_neg h]

/-- A node that has taken a value in can hand it on. -/
theorem addFrames_returns {canon : String → String} {value : Int64} (hvalue : 0 ≤ value.toInt)
    {frames : List WalkedFrame} {key : String} {node : TrieNode} (h : node.Owes canon value.toInt)
    (hn : node.NonNeg) :
    Returns TrieNode.NonNeg (addFrames canon value frames key node.depth node) := by
  have hlt := (toInt_inI64 node.totalValue).2
  induction frames generalizing key node with
  | nil =>
    have hchildren : 0 ≤ node.childTotal := by
      apply List.sum_nonneg
      intro total htotal
      obtain ⟨child, hchild, rfl⟩ := List.mem_map.mp htotal
      obtain ⟨entry, hentry, rfl⟩ := List.mem_map.mp hchild
      exact (hn.children entry hentry).total
    have hself := hn.self
    have hbalanced := h.balanced
    obtain ⟨sum, hsum, hint⟩ := addTrapping_returns (a := node.selfValue) (b := value)
      ⟨by omega, by omega⟩
    rw [addFrames, hsum]
    refine .of_ok (.mk ?_ hn.total hn.children)
    change 0 ≤ sum.toInt
    omega
  | cons frame rest ih =>
    obtain ⟨before, key', after, -, hset, children, hchildren, hbase, -⟩ :=
      exists_child node h (key ++ "/" ++ frame.name) frame
    have hold : ((findChild canon (key ++ "/" ++ frame.name) node.children).getD
        (childNode (key ++ "/" ++ frame.name) frame (node.depth + 1) node.id)).NonNeg := by
      cases hfind : findChild canon (key ++ "/" ++ frame.name) node.children with
      | none => exact childNode_nonNeg _ _ _ _
      | some child => exact findChild_nonNeg hn hfind
    rw [addFrames]
    generalize (findChild canon (key ++ "/" ++ frame.name) node.children).getD
      (childNode (key ++ "/" ++ frame.name) frame (node.depth + 1) node.id) = old at *
    have hmem : (key', old) ∈ children := by
      rw [hchildren]
      exact List.mem_append_right _ List.mem_cons_self
    have hall : ∀ entry ∈ children, entry.2.NonNeg := by
      rw [hchildren, ← hset]
      exact nonneg_of_setChild hn.children hold
    have hle := hbase.child_le hn.self hall hmem
    dsimp only at hle
    have htotal := hold.total
    obtain ⟨sum, hsum, hint⟩ := addTrapping_returns (a := old.totalValue) (b := value)
      ⟨by omega, by omega⟩
    have hdepth : old.depth = node.depth + 1 := hbase.links.depths _ hmem
    rw [hsum, ok_bind, ← hdepth]
    have hnext : Returns TrieNode.NonNeg (addFrames canon value rest (key ++ "/" ++ frame.name)
        old.depth { old with totalValue := sum }) :=
      ih ((hbase.children _ hmem).add hint)
        (.mk hold.self (show 0 ≤ sum.toInt by omega) hold.children) (toInt_inI64 sum).2
    refine hnext.bind fun child hchild => .of_ok ?_
    exact .mk hn.self hn.total (nonneg_of_setChild hn.children hchild)

section Reached

variable (canon : String → String) (profile : DecodedProfile) (options : ConversionOptions)

/-- The samples that pass the filters before a lookup traps. -/
def reachedFrom (selectedHeap : Option String) : List Sample → List (Int64 × List WalkedFrame)
  | [] => []
  | sample :: rest =>
    match passingFrom canon profile options selectedHeap [sample] with
    | .error _ => []
    | .ok passing => passing ++ reachedFrom selectedHeap rest

def lookups : Except Trap (Option String) := do
  let selectedHeap ← selectedHeapOf canon profile options
  let _ ← profile.sampleTypes.mapM fun vt => do
    let type ← profile.string vt.type
    let unit ← profile.string vt.unit
    return (type, unit)
  let _ ← profile.samples.mapM (profileThreadLabel canon profile)
  return selectedHeap

/-- The samples that are counted, up to the first lookup that traps. -/
def reachedSamples : List (Int64 × List WalkedFrame) :=
  match lookups canon profile options with
  | .error _ => []
  | .ok selectedHeap => reachedFrom canon profile options selectedHeap profile.samples

end Reached

variable {canon : String → String} {profile : DecodedProfile} {options : ConversionOptions}
  {selectedHeap : Option String}

variable (canon profile options selectedHeap) in
theorem passingFrom_noOverflow (sample : Sample) :
    NoOverflow (passingFrom canon profile options selectedHeap [sample]) := by
  rw [passingFrom]
  split
  · exact .of_ok _
  · split_ifs
    · exact .of_ok _
    · refine (passes_noOverflow _ _).bind fun pass _ => ?_
      split_ifs
      · exact (walkStack_noOverflow _).bind fun frames _ => .of_ok _
      · exact .of_ok _

theorem addConverted_eq (root : TrieNode) (sample : Sample) :
    addConverted canon profile options selectedHeap root sample =
      passingFrom canon profile options selectedHeap [sample] >>= fun passing =>
        passing.foldlM (fun root x => addStack canon root (counted x.1) x.2) root := by
  unfold addConverted
  rw [passingFrom]
  cases rawValue options sample with
  | none => rfl
  | some raw =>
    rw [Option.bind_some]
    cases hvalue : magnitude options raw with
    | none =>
      dsimp only
      rw [if_pos hvalue]
      rfl
    | some value =>
      dsimp only
      rw [if_neg (by rw [hvalue]; exact Option.some_ne_none _), magnitude_eq_some hvalue]
      cases passes canon profile options selectedHeap sample with
      | error e => rfl
      | ok pass =>
        rw [ok_bind, ok_bind]
        cases pass with
        | false => rfl
        | true =>
          rw [if_pos rfl, if_pos rfl]
          cases walkStack profile sample with
          | error e => rfl
          | ok frames => exact (bind_pure _).symm

theorem counted_nonneg (raw : Int64) : 0 ≤ (counted raw).toInt := by
  rw [counted_toInt]
  split_ifs with hmin
  · rw [hmin]
    decide
  · rw [sub_zero]
    exact abs_nonneg _

theorem countedSum_append (xs ys : List (Int64 × List WalkedFrame)) :
    countedSum (xs ++ ys) = countedSum xs + countedSum ys := by
  simp [countedSum]

theorem countedSum_nonneg (xs : List (Int64 × List WalkedFrame)) : 0 ≤ countedSum xs := by
  apply List.sum_nonneg
  intro value hvalue
  obtain ⟨x, -, rfl⟩ := List.mem_map.mp hvalue
  exact counted_nonneg x.1

theorem addStack_ends {passing : List (Int64 × List WalkedFrame)} {root : TrieNode}
    (h : Grown canon passing root) (hn : root.NonNeg) (x : Int64 × List WalkedFrame) :
    (countedSum (passing ++ [x]) < 2 ^ 63 →
      Returns (fun root' => Grown canon (passing ++ [x]) root' ∧ root'.NonNeg)
        (addStack canon root (counted x.1) x.2)) ∧
    (2 ^ 63 ≤ countedSum (passing ++ [x]) →
      addStack canon root (counted x.1) x.2 = .error .intOverflow) := by
  have hx : countedSum [x] = (counted x.1).toInt := by simp [countedSum]
  have hvalue := counted_nonneg x.1
  have hpassing := countedSum_nonneg passing
  rw [countedSum_append, hx, ← h.totalValue]
  rw [← h.totalValue] at hpassing
  constructor
  · intro hfit
    obtain ⟨sum, hsum, hint⟩ := addTrapping_returns (a := root.totalValue) (b := counted x.1)
      ⟨by omega, by omega⟩
    have hframes : Returns TrieNode.NonNeg (addFrames canon (counted x.1) x.2 "root" root.depth
        { root with totalValue := sum }) :=
      addFrames_returns hvalue (h.owes.add hint)
        (.mk hn.self (show 0 ≤ sum.toInt by omega) hn.children)
    obtain ⟨root', hroot', hn'⟩ := hframes
    have hrun : addStack canon root (counted x.1) x.2 = .ok root' := by
      rw [addStack, hsum, ok_bind, ← hroot', ← h.depth]
    exact ⟨root', hrun, h.addStack hrun, hn'⟩
  · intro hlarge
    rw [addStack, addTrapping_overflows (fun hin => absurd hin.2 (by omega))]
    rfl

theorem addStacks_ends {passing : List (Int64 × List WalkedFrame)} {root : TrieNode}
    (h : Grown canon passing root) (hn : root.NonNeg) (hfit : countedSum passing < 2 ^ 63)
    (rest : List (Int64 × List WalkedFrame)) :
    (countedSum (passing ++ rest) < 2 ^ 63 →
      Returns (fun root' => Grown canon (passing ++ rest) root' ∧ root'.NonNeg)
        (rest.foldlM (fun root x => addStack canon root (counted x.1) x.2) root)) ∧
    (2 ^ 63 ≤ countedSum (passing ++ rest) →
      rest.foldlM (fun root x => addStack canon root (counted x.1) x.2) root =
        .error .intOverflow) := by
  induction rest generalizing passing root with
  | nil =>
    rw [List.append_nil]
    exact ⟨fun _ => .of_ok ⟨h, hn⟩, fun hlarge => absurd hfit (not_lt.mpr hlarge)⟩
  | cons x rest ih =>
    have hsplit : passing ++ x :: rest = (passing ++ [x]) ++ rest := by simp
    have hstep := addStack_ends h hn x
    rw [List.foldlM_cons, hsplit]
    by_cases hx : countedSum (passing ++ [x]) < 2 ^ 63
    · obtain ⟨next, hnext, hgrown, hnonneg⟩ := hstep.1 hx
      rw [hnext, ok_bind]
      exact ih hgrown hnonneg hx
    · have hlarge := not_lt.mp hx
      have hrest := countedSum_nonneg rest
      rw [hstep.2 hlarge, countedSum_append]
      exact ⟨fun hall => absurd hlarge (by omega), fun _ => rfl⟩

theorem addConverted_noOverflow_iff {samples : List Sample}
    {passing : List (Int64 × List WalkedFrame)} {root : TrieNode} (h : Grown canon passing root)
    (hn : root.NonNeg) (hfit : countedSum passing < 2 ^ 63) :
    NoOverflow (samples.foldlM (addConverted canon profile options selectedHeap) root) ↔
      countedSum (passing ++ reachedFrom canon profile options selectedHeap samples) < 2 ^ 63 := by
  induction samples generalizing passing root with
  | nil =>
    rw [reachedFrom, List.append_nil]
    exact iff_of_true (.of_ok _) hfit
  | cons sample rest ih =>
    have hlookups := passingFrom_noOverflow canon profile options selectedHeap sample
    rw [List.foldlM_cons, addConverted_eq, reachedFrom]
    cases hpassing : passingFrom canon profile options selectedHeap [sample] with
    | error e =>
      dsimp only
      rw [List.append_nil]
      exact iff_of_true (noOverflow_error_iff.mpr (hlookups e hpassing)) hfit
    | ok found =>
      dsimp only
      rw [ok_bind, ← List.append_assoc]
      have hends := addStacks_ends h hn hfit found
      by_cases hfound : countedSum (passing ++ found) < 2 ^ 63
      · obtain ⟨next, hnext, hgrown, hnonneg⟩ := hends.1 hfound
        rw [hnext, ok_bind]
        exact ih hgrown hnonneg hfound
      · have hlarge := not_lt.mp hfound
        have hrest := countedSum_nonneg (reachedFrom canon profile options selectedHeap rest)
        rw [hends.2 hlarge, countedSum_append]
        refine iff_of_false ?_ (by omega)
        exact not_noOverflow rfl

/-- The conversion overflows exactly where the counted values do, taken together. -/
theorem convertProfile_noOverflow_iff (canon : String → String) (profile : DecodedProfile)
    (options : ConversionOptions) : NoOverflow (convertProfile canon profile options) ↔
      countedSum (reachedSamples canon profile options) < 2 ^ 63 := by
  have hnames : NoOverflow (profile.sampleTypes.mapM fun vt => do
      let type ← profile.string vt.type
      let unit ← profile.string vt.unit
      return (type, unit)) :=
    Throws.mapM fun vt _ => (DecodedProfile.string_noOverflow _).bind fun type _ =>
      (DecodedProfile.string_noOverflow _).bind fun unit _ => .of_ok _
  have hthreads : NoOverflow (profile.samples.mapM (profileThreadLabel canon profile)) :=
    Throws.mapM fun sample _ => profileThreadLabel_noOverflow sample
  have hheap := selectedHeapOf_noOverflow canon profile options
  have hnone : countedSum [] < 2 ^ 63 := by decide
  unfold convertProfile reachedSamples lookups
  cases hselected : selectedHeapOf canon profile options with
  | error e => exact iff_of_true (noOverflow_error_iff.mpr (hheap e hselected)) hnone
  | ok selectedHeap =>
    rw [ok_bind, ok_bind]
    revert hnames
    cases profile.sampleTypes.mapM fun vt => do
      let type ← profile.string vt.type
      let unit ← profile.string vt.unit
      return (type, unit) with
    | error e =>
      exact fun hnames => iff_of_true (noOverflow_error_iff.mpr (hnames e rfl)) hnone
    | ok names =>
      intro _
      rw [ok_bind, ok_bind]
      revert hthreads
      cases profile.samples.mapM (profileThreadLabel canon profile) with
      | error e =>
        exact fun hthreads => iff_of_true (noOverflow_error_iff.mpr (hthreads e rfl)) hnone
      | ok threads =>
        intro _
        rw [ok_bind, ok_bind]
        change NoOverflow (if profile.samples = [] then _ else _) ↔
          countedSum (reachedFrom canon profile options selectedHeap profile.samples) < 2 ^ 63
        split_ifs with hempty
        · rw [hempty, reachedFrom]
          exact iff_of_true (.of_ok _) hnone
        · rw [← List.nil_append (reachedFrom _ _ _ _ _),
            ← addConverted_noOverflow_iff rootNode_grown rootNode_nonNeg hnone]
          cases profile.samples.foldlM (addConverted canon profile options selectedHeap)
              rootNode with
          | error e =>
            exact noOverflow_error_iff.trans (noOverflow_error_iff (α := TrieNode)).symm
          | ok root => exact iff_of_true (.of_ok _) (.of_ok _)

end PProfessor.Kit
