import PProfessor.CheckedArith
import PProfessor.Symbolicated

set_option autoImplicit false

/-!
# The lazy tree of a profile

`SymbolicatedProfile::roots` and `TreeNode` of `src/symbolicated.rs`. Every query
scans the samples again; a stack is leaf first, a prefix root first.
-/
namespace PProfessor.Capture
open CheckedArith KeyedSum

def firstSeen (addrOf : Sample → Option UInt64) (samples : List Sample) : List UInt64 :=
  samples.foldl (fun addrs s =>
    match addrOf s with
    | some addr => if addr ∈ addrs then addrs else addrs ++ [addr]
    | none => addrs) []

structure TreeNode (profile : SymbolicatedProfile) where
  address : UInt64
  stackPrefix : List UInt64
  inclusive : stackPrefix.getLast? = some address

def SymbolicatedProfile.roots (profile : SymbolicatedProfile) : List (TreeNode profile) :=
  (firstSeen (fun s => s.stack.getLast?) profile.samples).map fun addr => ⟨addr, [addr], rfl⟩

def nextAddr (stackPrefix : List UInt64) (s : Sample) : Option UInt64 :=
  let rev := s.stack.reverse
  if rev.length > stackPrefix.length ∧ stackPrefix <+: rev then rev[stackPrefix.length]? else none

namespace TreeNode

variable {profile : SymbolicatedProfile}

/-- The filter of `self_count`. -/
def isSelf (node : TreeNode profile) (s : Sample) : Bool :=
  let rev := s.stack.reverse
  rev.length = node.stackPrefix.length ∧ rev = node.stackPrefix

def selfCount (node : TreeNode profile) : Option UInt64 :=
  sumU64 ((profile.samples.filter node.isSelf).map Sample.count)

def totalCount (node : TreeNode profile) : Option UInt64 :=
  sumU64 ((profile.samples.filter fun s => node.stackPrefix <+: s.stack.reverse).map Sample.count)

def children (node : TreeNode profile) : List (TreeNode profile) :=
  (firstSeen (nextAddr node.stackPrefix) profile.samples).map fun addr =>
    ⟨addr, node.stackPrefix ++ [addr], List.getLast?_concat⟩

/-- The nodes that calls of `children` lead to from the roots. -/
inductive Reachable : TreeNode profile → Prop
  | root {node : TreeNode profile} (h : node ∈ profile.roots) : Reachable node
  | child {node child : TreeNode profile} (h : Reachable node) (hc : child ∈ node.children) :
      Reachable child

end TreeNode

theorem firstSeen_concat (addrOf : Sample → Option UInt64) (samples : List Sample) (s : Sample) :
    firstSeen addrOf (samples ++ [s]) =
      match addrOf s with
      | some addr =>
        if addr ∈ firstSeen addrOf samples then firstSeen addrOf samples
        else firstSeen addrOf samples ++ [addr]
      | none => firstSeen addrOf samples := by
  unfold firstSeen
  rw [List.foldl_append, List.foldl_cons, List.foldl_nil]

theorem firstSeen_nodup (addrOf : Sample → Option UInt64) (samples : List Sample) :
    (firstSeen addrOf samples).Nodup := by
  induction samples using List.reverseRecOn with
  | nil => exact List.nodup_nil
  | append_singleton samples s ih =>
    rw [firstSeen_concat]
    cases addrOf s with
    | none => exact ih
    | some addr =>
      dsimp only
      split_ifs with h
      · exact ih
      · exact ih.append (List.nodup_singleton addr) (List.disjoint_singleton.mpr h)

theorem mem_firstSeen {addrOf : Sample → Option UInt64} {samples : List Sample} {addr : UInt64} :
    addr ∈ firstSeen addrOf samples ↔ ∃ s ∈ samples, addrOf s = some addr := by
  induction samples using List.reverseRecOn with
  | nil => simp [firstSeen]
  | append_singleton samples s ih =>
    have hsplit : (∃ t ∈ samples ++ [s], addrOf t = some addr) ↔
        addr ∈ firstSeen addrOf samples ∨ addrOf s = some addr := by
      rw [ih]
      simp only [List.mem_append, List.mem_singleton, or_and_right, exists_or, exists_eq_left]
    rw [firstSeen_concat, hsplit]
    cases hs : addrOf s with
    | none => simp
    | some a =>
      dsimp only
      rw [Option.some.injEq]
      split_ifs with h
      · exact ⟨.inl, fun hor => hor.elim id fun heq => heq ▸ h⟩
      · rw [List.mem_append, List.mem_singleton, eq_comm (a := addr)]

theorem nextAddr_eq_some {stackPrefix : List UInt64} {s : Sample} {addr : UInt64} :
    nextAddr stackPrefix s = some addr ↔ stackPrefix ++ [addr] <+: s.stack.reverse := by
  unfold nextAddr
  dsimp only
  constructor
  · intro h
    split_ifs at h with hin
    obtain ⟨rest, hrest⟩ := hin.2
    rw [← hrest, List.getElem?_append_right (Nat.le_refl _), Nat.sub_self] at h
    cases rest with
    | nil => cases h
    | cons a rest =>
      rw [List.getElem?_cons_zero, Option.some.injEq] at h
      rw [← hrest, h]
      exact ⟨rest, List.append_assoc _ _ _⟩
  · rintro ⟨rest, hrest⟩
    rw [List.append_assoc, List.singleton_append] at hrest
    rw [← hrest, if_pos]
    · rw [List.getElem?_append_right (Nat.le_refl _), Nat.sub_self]
      rfl
    · refine ⟨?_, List.prefix_append _ _⟩
      rw [List.length_append, List.length_cons]
      omega

theorem nextAddr_eq_none {stackPrefix : List UInt64} {s : Sample}
    (h : stackPrefix <+: s.stack.reverse) :
    nextAddr stackPrefix s = none ↔ s.stack.reverse = stackPrefix := by
  obtain ⟨rest, hrest⟩ := h
  constructor
  · intro hnone
    cases rest with
    | nil => rw [← hrest, List.append_nil]
    | cons addr rest =>
      have hnext : nextAddr stackPrefix s = some addr := by
        rw [nextAddr_eq_some, ← hrest]
        exact ⟨rest, List.append_assoc _ _ _⟩
      rw [hnext] at hnone
      cases hnone
  · intro heq
    unfold nextAddr
    dsimp only
    rw [heq, if_neg (fun h => Nat.lt_irrefl _ h.1)]

theorem nextAddr_nil (s : Sample) : nextAddr [] s = s.stack.getLast? := by
  unfold nextAddr
  cases hs : s.stack.getLast? with
  | none =>
    rw [List.getLast?_eq_none_iff.mp hs]
    rfl
  | some addr =>
    obtain ⟨rest, hrest⟩ := List.getLast?_eq_some_iff.mp hs
    rw [hrest, List.reverse_append]
    simp

def Sample.weight (s : Sample) : ℕ := s.count.toNat

def counted (p : Sample → Bool) (samples : List Sample) : ℕ :=
  ((samples.filter p).map Sample.weight).sum

theorem counted_le (p : Sample → Bool) (samples : List Sample) :
    counted p samples ≤ (samples.map Sample.weight).sum :=
  (List.filter_sublist.map Sample.weight).sum_le_sum fun _ _ => Nat.zero_le _

theorem sumU64_counted {samples : List Sample} (h : (samples.map Sample.weight).sum < 2 ^ 64)
    (p : Sample → Bool) : sumU64 ((samples.filter p).map Sample.count) =
      some (UInt64.ofNat (counted p samples)) := by
  rw [sumU64_eq_some_iff, UInt64.toNat_ofNat_of_lt' ((counted_le p samples).trans_lt h),
    List.map_map]
  rfl

/-- The samples behind a prefix are those that end there and those behind each of
the addresses that follow it. -/
theorem counted_split (stackPrefix : List UInt64) (samples : List Sample) :
    counted (fun s => stackPrefix <+: s.stack.reverse) samples =
      counted (fun s => s.stack.reverse = stackPrefix) samples +
      ((firstSeen (nextAddr stackPrefix) samples).map fun addr =>
        counted (fun s => stackPrefix ++ [addr] <+: s.stack.reverse) samples).sum := by
  have hkeys : (none :: (firstSeen (nextAddr stackPrefix) samples).map some).Nodup := by
    refine List.nodup_cons.mpr ⟨by simp, ?_⟩
    exact (firstSeen_nodup _ _).map (Option.some_injective _)
  have hcover : ∀ s ∈ samples.filter fun s => stackPrefix <+: s.stack.reverse,
      nextAddr stackPrefix s ∈ none :: (firstSeen (nextAddr stackPrefix) samples).map some := by
    intro s hs
    cases hnext : nextAddr stackPrefix s with
    | none => exact List.mem_cons_self
    | some addr =>
      refine List.mem_cons_of_mem _ (List.mem_map_of_mem (mem_firstSeen.mpr ⟨s, ?_, hnext⟩))
      exact (List.mem_filter.mp hs).1
  have hsum := sum_total (nextAddr stackPrefix) Sample.weight hkeys hcover
  rw [List.map_cons, List.sum_cons, List.map_map] at hsum
  unfold counted
  rw [← hsum]
  have hself : ((samples.filter fun s => decide (stackPrefix <+: s.stack.reverse)).filter fun s =>
      decide (nextAddr stackPrefix s = none)) =
      samples.filter fun s => decide (s.stack.reverse = stackPrefix) := by
    rw [List.filter_filter]
    refine List.filter_congr fun s _ => ?_
    rw [Bool.eq_iff_iff, Bool.and_eq_true, decide_eq_true_eq, decide_eq_true_eq,
      decide_eq_true_eq]
    constructor
    · exact fun h => (nextAddr_eq_none h.2).mp h.1
    · intro h
      have hin : stackPrefix <+: s.stack.reverse := h ▸ List.prefix_refl _
      exact ⟨(nextAddr_eq_none hin).mpr h, hin⟩
  have hchild : ∀ addr, ((samples.filter fun s =>
      decide (stackPrefix <+: s.stack.reverse)).filter fun s =>
        decide (nextAddr stackPrefix s = some addr)) =
      samples.filter fun s => decide (stackPrefix ++ [addr] <+: s.stack.reverse) := by
    intro addr
    rw [List.filter_filter]
    refine List.filter_congr fun s _ => ?_
    rw [Bool.eq_iff_iff, Bool.and_eq_true, decide_eq_true_eq, decide_eq_true_eq,
      decide_eq_true_eq, nextAddr_eq_some]
    exact and_iff_left_of_imp (List.prefix_append _ _).trans
  congr 1
  · exact congrArg (fun xs => (xs.map Sample.weight).sum) hself
  · refine congrArg List.sum (List.map_congr_left fun addr _ => ?_)
    exact congrArg (fun xs => (xs.map Sample.weight).sum) (hchild addr)

namespace TreeNode

variable {profile : SymbolicatedProfile}

theorem ext_prefix {a b : TreeNode profile} (h : a.stackPrefix = b.stackPrefix) : a = b := by
  obtain ⟨address, stackPrefix, inclusive⟩ := a
  obtain ⟨address', stackPrefix', inclusive'⟩ := b
  dsimp only at h
  subst h
  rw [inclusive, Option.some.injEq] at inclusive'
  subst inclusive'
  rfl

theorem isSelf_iff (node : TreeNode profile) (s : Sample) :
    node.isSelf s = true ↔ s.stack.reverse = node.stackPrefix := by
  unfold isSelf
  rw [decide_eq_true_eq]
  exact and_iff_right_of_imp fun h => congrArg List.length h

section
variable (hsum : (profile.samples.map Sample.weight).sum < 2 ^ 64)
include hsum

theorem totalCount_eq (node : TreeNode profile) : node.totalCount = some (UInt64.ofNat
    (counted (fun s => node.stackPrefix <+: s.stack.reverse) profile.samples)) :=
  sumU64_counted hsum _

theorem selfCount_eq (node : TreeNode profile) : node.selfCount = some (UInt64.ofNat
    (counted (fun s => s.stack.reverse = node.stackPrefix) profile.samples)) := by
  have hself : node.isSelf = fun s => decide (s.stack.reverse = node.stackPrefix) := by
    funext s
    rw [Bool.eq_iff_iff, isSelf_iff, decide_eq_true_eq]
  unfold selfCount
  rw [sumU64_counted hsum, hself]

theorem totals_exist (nodes : List (TreeNode profile)) :
    ∃ totals, List.Forall₂ (fun node total => node.totalCount = some total) nodes totals ∧
      (totals.map UInt64.toNat).sum = (nodes.map fun node =>
        counted (fun s => node.stackPrefix <+: s.stack.reverse) profile.samples).sum := by
  refine ⟨nodes.map fun node => UInt64.ofNat
    (counted (fun s => node.stackPrefix <+: s.stack.reverse) profile.samples), ?_, ?_⟩
  · rw [List.forall₂_map_right_iff, List.forall₂_same]
    exact fun node _ => totalCount_eq hsum node
  · rw [List.map_map]
    refine congrArg List.sum (List.map_congr_left fun node _ => ?_)
    exact UInt64.toNat_ofNat_of_lt' ((counted_le _ _).trans_lt hsum)

end

theorem exists_reachable {s : Sample} (hs : s ∈ profile.samples) (stackPrefix : List UInt64)
    (hne : stackPrefix ≠ []) (hin : stackPrefix <+: s.stack.reverse) :
    ∃ node : TreeNode profile, node.Reachable ∧ node.stackPrefix = stackPrefix := by
  induction stackPrefix using List.reverseRecOn with
  | nil => exact absurd rfl hne
  | append_singleton above addr ih =>
    have hseen : addr ∈ firstSeen (nextAddr above) profile.samples :=
      mem_firstSeen.mpr ⟨s, hs, nextAddr_eq_some.mpr hin⟩
    by_cases habove : above = []
    · subst habove
      refine ⟨⟨addr, [addr], rfl⟩, .root (List.mem_map_of_mem (f := fun addr =>
        (⟨addr, [addr], rfl⟩ : TreeNode profile)) ?_), rfl⟩
      rwa [funext nextAddr_nil] at hseen
    · obtain ⟨node, hnode, hprefix⟩ := ih habove ((List.prefix_append _ _).trans hin)
      subst hprefix
      exact ⟨_, .child hnode (List.mem_map_of_mem hseen), rfl⟩

end TreeNode

/-- The tree under the roots splits the samples: at each level the addresses differ
and the counts add up, and every sample ends at one node. -/
structure TreePartition (profile : SymbolicatedProfile) : Prop where
  rootsDistinct : (profile.roots.map TreeNode.address).Nodup
  rootsTotal : ∃ totals,
    List.Forall₂ (fun node total => TreeNode.totalCount node = some total) profile.roots totals ∧
      (totals.map UInt64.toNat).sum = (profile.samples.map Sample.weight).sum
  childrenDistinct : ∀ node : TreeNode profile, node.Reachable →
    (node.children.map TreeNode.address).Nodup
  nodeTotal : ∀ node : TreeNode profile, node.Reachable → ∃ total own totals,
    node.totalCount = some total ∧ node.selfCount = some own ∧
      List.Forall₂ (fun child total => TreeNode.totalCount child = some total)
        node.children totals ∧
      total.toNat = own.toNat + (totals.map UInt64.toNat).sum
  ends : ∀ s ∈ profile.samples, ∃! node : TreeNode profile,
    node.Reachable ∧ node.isSelf s = true

theorem tree_partitions_samples (profile : SymbolicatedProfile)
    (hstack : ∀ s ∈ profile.samples, s.stack ≠ [])
    (hsum : (profile.samples.map fun s => s.count.toNat).sum < 2 ^ 64) :
    TreePartition profile := by
  refine ⟨?_, ?_, fun node _ => ?_, fun node _ => ?_, fun s hs => ?_⟩
  · rw [SymbolicatedProfile.roots, List.map_map]
    exact (List.map_id _).symm ▸ firstSeen_nodup _ _
  · obtain ⟨totals, hall, htotals⟩ := TreeNode.totals_exist hsum profile.roots
    refine ⟨totals, hall, htotals.trans ?_⟩
    have hsplit := counted_split [] profile.samples
    have hnone : counted (fun s => s.stack.reverse = []) profile.samples = 0 := by
      unfold counted
      rw [List.filter_eq_nil_iff.mpr fun s hs h => hstack s hs
        (List.reverse_eq_nil_iff.mp (of_decide_eq_true h))]
      rfl
    have hall : counted (fun s => ([] : List UInt64) <+: s.stack.reverse) profile.samples =
        (profile.samples.map Sample.weight).sum := by
      unfold counted
      rw [List.filter_eq_self.mpr fun s _ => decide_eq_true List.nil_prefix]
    rw [hnone, hall, Nat.zero_add, funext nextAddr_nil] at hsplit
    rw [hsplit, SymbolicatedProfile.roots, List.map_map]
    rfl
  · rw [TreeNode.children, List.map_map]
    exact (List.map_id _).symm ▸ firstSeen_nodup _ _
  · obtain ⟨totals, hall, htotals⟩ := TreeNode.totals_exist hsum node.children
    refine ⟨_, _, totals, TreeNode.totalCount_eq hsum node, TreeNode.selfCount_eq hsum node, hall,
      ?_⟩
    have hlt := fun p => (counted_le p profile.samples).trans_lt hsum
    rw [UInt64.toNat_ofNat_of_lt' (hlt _), UInt64.toNat_ofNat_of_lt' (hlt _), htotals,
      counted_split, TreeNode.children, List.map_map]
    rfl
  · have hne : s.stack.reverse ≠ [] := mt List.reverse_eq_nil_iff.mp (hstack s hs)
    obtain ⟨node, hnode, hself⟩ := TreeNode.exists_reachable hs s.stack.reverse hne
      (List.prefix_refl _)
    refine ⟨node, ⟨hnode, (node.isSelf_iff s).mpr hself.symm⟩, ?_⟩
    rintro other ⟨-, hother⟩
    exact TreeNode.ext_prefix (((other.isSelf_iff s).mp hother).symm.trans hself.symm)

def recursiveSamples : SymbolicatedProfile where
  images := []
  frames := ∅
  threads := ∅
  samples := [⟨7, [0x1000, 0x1000, 0x2000], 3, none⟩, ⟨7, [0x2000], 2, none⟩]
  startTime := 0
  duration := 0
  freqHz := 1000

theorem tree_partitions_samples_recursive : TreePartition recursiveSamples :=
  tree_partitions_samples recursiveSamples (by decide) (by decide)

end PProfessor.Capture
