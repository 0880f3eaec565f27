import PProfessor.Fallible
import PProfessor.KitConverter

set_option autoImplicit false

/-!
# The trie of the flame graph

Adding a stack keeps a node's total equal to its own value and its children's
totals, and adds the stack's path and every prefix of it to the paths of the trie.
-/
namespace PProfessor.Kit
open CheckedArith Fallible

namespace TrieNode

theorem induct {motive : TrieNode → Prop}
    (h : ∀ node : TrieNode, (∀ child ∈ node.childNodes, motive child) → motive node)
    (node : TrieNode) : motive node := by
  apply h node
  intro child hchild
  have hlt : sizeOf child < sizeOf node := by
    have hsum := node.sizeOf_childNodes
    have hle := List.single_le_sum (l := node.childNodes.map sizeOf) (by simp) _
      (List.mem_map_of_mem hchild)
    omega
  exact induct h child
termination_by node

def entries (canon : String → String) (node : TrieNode) : List (List String × TrieNode) :=
  ([], node) :: node.children.attach.flatMap fun entry =>
    (entries canon entry.1.2).map fun below => (canon entry.1.1 :: below.1, below.2)
termination_by node
decreasing_by
  have hsum := node.sizeOf_childNodes
  have hle := List.single_le_sum (l := node.childNodes.map sizeOf) (by simp) (sizeOf entry.1.2)
    (List.mem_map_of_mem (List.mem_map_of_mem entry.2))
  omega

theorem entries_eq (canon : String → String) (node : TrieNode) :
    node.entries canon = ([], node) :: node.children.flatMap fun entry =>
      (entry.2.entries canon).map fun below => (canon entry.1 :: below.1, below.2) := by
  rw [entries]
  congr 1
  rw [List.flatMap_subtype (g := fun entry : String × TrieNode =>
    (entries canon entry.2).map fun below => (canon entry.1 :: below.1, below.2))
    (fun _ _ => rfl), List.unattach_attach]

def paths (canon : String → String) (node : TrieNode) : List (List String) :=
  (node.entries canon).map Prod.fst

variable {canon : String → String}

theorem paths_eq (node : TrieNode) : node.paths canon =
    [] :: node.children.flatMap fun entry => (entry.2.paths canon).map (canon entry.1 :: ·) := by
  rw [paths, entries_eq, List.map_cons, List.map_flatMap]
  congr 2
  funext entry
  rw [paths, List.map_map, List.map_map]
  rfl

theorem mem_paths {node : TrieNode} {c : List String} : c ∈ node.paths canon ↔
    c = [] ∨ ∃ entry ∈ node.children, ∃ rest ∈ entry.2.paths canon, c = canon entry.1 :: rest := by
  rw [paths_eq, List.mem_cons, List.mem_flatMap]
  simp only [List.mem_map, eq_comm]

theorem mem_entries {node : TrieNode} {c : List String} {n : TrieNode} :
    (c, n) ∈ node.entries canon ↔ (c = [] ∧ n = node) ∨ ∃ entry ∈ node.children,
      ∃ rest, (rest, n) ∈ entry.2.entries canon ∧ c = canon entry.1 :: rest := by
  rw [entries_eq, List.mem_cons, Prod.mk.injEq, List.mem_flatMap]
  simp only [List.mem_map, Prod.mk.injEq, Prod.exists]
  constructor
  · rintro (h | ⟨key, child, hentry, rest, m, hm, rfl, rfl⟩)
    · exact .inl h
    · exact .inr ⟨key, child, hentry, rest, hm, rfl⟩
  · rintro (h | ⟨key, child, hentry, rest, hm, rfl⟩)
    · exact .inl h
    · exact .inr ⟨key, child, hentry, rest, n, hm, rfl, rfl⟩

structure Links (canon : String → String) (node : TrieNode) : Prop where
  keys : (node.children.map fun entry => canon entry.1).Nodup
  ids : ∀ entry ∈ node.children, entry.2.id = entry.1
  parents : ∀ entry ∈ node.children, entry.2.parentId = some node.id
  depths : ∀ entry ∈ node.children, entry.2.depth = node.depth + 1

def childTotal (node : TrieNode) : ℤ :=
  (node.childNodes.map fun child => child.totalValue.toInt).sum

/-- The total is the node's own value, its children's and what is still to be
handed on; below it nothing is. -/
inductive Owes (canon : String → String) : ℤ → TrieNode → Prop
  | mk {owed : ℤ} {node : TrieNode} (links : node.Links canon)
      (balanced : node.totalValue.toInt = node.selfValue.toInt + node.childTotal + owed)
      (children : ∀ entry ∈ node.children, Owes canon 0 entry.2) : Owes canon owed node

namespace Owes

variable {owed : ℤ} {node : TrieNode}

theorem links (h : Owes canon owed node) : node.Links canon := by
  cases h
  assumption

theorem balanced (h : Owes canon owed node) :
    node.totalValue.toInt = node.selfValue.toInt + node.childTotal + owed := by
  cases h
  assumption

theorem children (h : Owes canon owed node) : ∀ entry ∈ node.children, Owes canon 0 entry.2 := by
  cases h
  assumption

theorem add (h : Owes canon 0 node) {value total : Int64}
    (htotal : total.toInt = node.totalValue.toInt + value.toInt) :
    Owes canon value.toInt { node with totalValue := total } := by
  refine .mk ⟨h.links.keys, h.links.ids, h.links.parents, h.links.depths⟩ ?_ h.children
  change total.toInt = node.selfValue.toInt + node.childTotal + value.toInt
  rw [htotal, h.balanced, add_zero]

theorem paths_nodup (h : Owes canon owed node) : (node.paths canon).Nodup := by
  induction node using TrieNode.induct generalizing owed with
  | h node ih =>
    have hkeys := h.links.keys
    rw [paths_eq, List.nodup_cons, List.nodup_flatMap]
    refine ⟨by simp, ?_, ?_⟩
    · intro entry hentry
      apply List.Nodup.map
      · intro c c' hc
        exact (List.cons.inj hc).2
      · exact ih entry.2 (List.mem_map_of_mem hentry) (h.children entry hentry)
    · rw [List.Nodup, List.pairwise_map] at hkeys
      refine hkeys.imp ?_
      intro a b hab c hca hcb
      obtain ⟨d, -, rfl⟩ := List.mem_map.mp hca
      obtain ⟨e, -, he⟩ := List.mem_map.mp hcb
      exact hab (List.cons.inj he).1.symm

theorem entry_id (h : Owes canon owed node) {c : List String} {n : TrieNode}
    (hn : (c, n) ∈ node.entries canon) : canon n.id = c.getLast?.getD (canon node.id) := by
  induction node using TrieNode.induct generalizing owed c with
  | h node ih =>
    rw [mem_entries] at hn
    rcases hn with ⟨rfl, rfl⟩ | ⟨entry, hentry, rest, hrest, rfl⟩
    · rfl
    · rw [ih entry.2 (List.mem_map_of_mem hentry) (h.children entry hentry) hrest,
        h.links.ids entry hentry]
      cases rest with
      | nil => rfl
      | cons key rest => rw [List.getLast?_cons_cons, List.getLast?_cons]; rfl

theorem entry_owes (h : Owes canon 0 node) {c : List String} {n : TrieNode}
    (hn : (c, n) ∈ node.entries canon) : Owes canon 0 n := by
  induction node using TrieNode.induct generalizing c with
  | h node ih =>
    rw [mem_entries] at hn
    rcases hn with ⟨rfl, rfl⟩ | ⟨entry, hentry, rest, hrest, rfl⟩
    · exact h
    · exact ih entry.2 (List.mem_map_of_mem hentry) (h.children entry hentry) hrest

end Owes

theorem child_mem_entries {node : TrieNode} {c : List String} {n : TrieNode}
    (hn : (c, n) ∈ node.entries canon) {entry : String × TrieNode} (hentry : entry ∈ n.children) :
    (c ++ [canon entry.1], entry.2) ∈ node.entries canon := by
  induction node using TrieNode.induct generalizing c with
  | h node ih =>
    rw [mem_entries] at hn ⊢
    rcases hn with ⟨rfl, rfl⟩ | ⟨above, habove, rest, hrest, rfl⟩
    · exact .inr ⟨entry, hentry, [], mem_entries.mpr (.inl ⟨rfl, rfl⟩), rfl⟩
    · exact .inr ⟨above, habove, rest ++ [canon entry.1],
        ih above.2 (List.mem_map_of_mem habove) hrest, rfl⟩

end TrieNode

variable {canon : String → String}

theorem setChild_of_none {key : String} {children : List (String × TrieNode)}
    (h : findChild canon key children = none) :
    (∀ entry ∈ children, canon entry.1 ≠ canon key) ∧
      ∀ child, setChild canon key child children = children ++ [(key, child)] := by
  induction children with
  | nil => exact ⟨by simp, fun _ => rfl⟩
  | cons entry rest ih =>
    rw [findChild, Option.map_eq_none_iff, List.find?_cons] at h
    by_cases hkey : canon entry.1 = canon key
    · rw [sameString, decide_eq_true hkey] at h
      cases h
    · rw [sameString, decide_eq_false hkey] at h
      obtain ⟨hne, hset⟩ := ih (Option.map_eq_none_iff.mpr h)
      refine ⟨List.forall_mem_cons.mpr ⟨hkey, hne⟩, ?_⟩
      intro child
      rw [setChild, if_neg (by simpa [sameString] using hkey), hset]
      rfl

theorem setChild_of_some {key : String} {children : List (String × TrieNode)} {old : TrieNode}
    (h : findChild canon key children = some old) :
    ∃ before key' after, canon key' = canon key ∧ children = before ++ (key', old) :: after ∧
      ∀ child, setChild canon key child children = before ++ (key', child) :: after := by
  induction children with
  | nil => cases h
  | cons entry rest ih =>
    rw [findChild, List.find?_cons] at h
    by_cases hkey : canon entry.1 = canon key
    · rw [sameString, decide_eq_true hkey] at h
      have hold : entry.2 = old := Option.some.inj h
      subst hold
      refine ⟨[], entry.1, rest, hkey, rfl, ?_⟩
      intro child
      rw [setChild, if_pos (by simpa [sameString] using hkey)]
      rfl
    · rw [sameString, decide_eq_false hkey] at h
      obtain ⟨before, key', after, hcanon, rfl, hset⟩ := ih h
      refine ⟨entry :: before, key', after, hcanon, rfl, ?_⟩
      intro child
      rw [setChild, if_neg (by simpa [sameString] using hkey), hset]
      rfl

theorem addTrapping_ok {a b c : Int64} : addTrapping a b = .ok c ↔ c.toInt = a.toInt + b.toInt := by
  unfold addTrapping
  rw [← addI64_eq_some_iff]
  cases addI64 a b with
  | none => simp
  | some sum => simp

/-- The keys of a path that goes on from a key. -/
def keysFrom (canon : String → String) : String → List String → List String
  | _, [] => []
  | key, name :: rest => canon (key ++ "/" ++ name) :: keysFrom canon (key ++ "/" ++ name) rest

/-- What adding a stack does to a node that has its value already. -/
structure Added (canon : String → String) (key : String) (names : List String)
    (node node' : TrieNode) : Prop where
  id : node'.id = node.id
  parentId : node'.parentId = node.parentId
  depth : node'.depth = node.depth
  totalValue : node'.totalValue = node.totalValue
  owes : node'.Owes canon 0
  paths : ∀ c, c ∈ node'.paths canon ↔ c ∈ node.paths canon ∨ c <+: keysFrom canon key names

namespace TrieNode

theorem childNode_owes (key : String) (frame : WalkedFrame) (depth : ℕ) (parent : String) :
    (childNode key frame depth parent).Owes canon 0 :=
  .mk ⟨List.nodup_nil, by simp [childNode], by simp [childNode], by simp [childNode]⟩ rfl
    (by simp [childNode])

/-- A node whose child at `key` has been replaced by one with the new total. -/
theorem Owes.set_child {before after : List (String × TrieNode)} {key : String}
    {old child : TrieNode} {value : Int64} {node : TrieNode}
    (hchildren : node.children = before ++ (key, old) :: after)
    (h : node.Owes canon value.toInt)
    (hid : child.id = old.id) (hparent : child.parentId = old.parentId)
    (hdepth : child.depth = old.depth)
    (htotal : child.totalValue.toInt = old.totalValue.toInt + value.toInt)
    (howes : child.Owes canon 0) :
    Owes canon 0 { node with children := before ++ (key, child) :: after } := by
  have hmem : (key, old) ∈ node.children := by rw [hchildren]; simp
  have hother {P : String × TrieNode → Prop} (hall : ∀ entry ∈ node.children, P entry)
      (hnew : P (key, child)) : ∀ entry ∈ before ++ (key, child) :: after, P entry := by
    intro entry hentry
    rw [hchildren] at hall
    simp only [List.mem_append, List.mem_cons] at hall hentry
    rcases hentry with hentry | rfl | hentry
    · exact hall entry (.inl hentry)
    · exact hnew
    · exact hall entry (.inr (.inr hentry))
  refine .mk ⟨?_, ?_, ?_, ?_⟩ ?_ ?_
  · have hkeys := h.links.keys
    rw [hchildren] at hkeys
    simpa using hkeys
  · exact hother h.links.ids (hid.trans (h.links.ids _ hmem))
  · exact hother h.links.parents (hparent.trans (h.links.parents _ hmem))
  · exact hother h.links.depths (hdepth.trans (h.links.depths _ hmem))
  · have hbalanced := h.balanced
    simp only [childTotal, childNodes, hchildren, List.map_append, List.map_cons,
      List.sum_append, List.sum_cons] at hbalanced ⊢
    omega
  · exact hother h.children howes

theorem Owes.add_child {key : String} {node : TrieNode} {owed : ℤ}
    (hkey : ∀ entry ∈ node.children, canon entry.1 ≠ canon key) (h : node.Owes canon owed)
    (frame : WalkedFrame) :
    Owes canon owed { node with
      children := node.children ++ [(key, childNode key frame (node.depth + 1) node.id)] } := by
  have hother {P : String × TrieNode → Prop} (hall : ∀ entry ∈ node.children, P entry)
      (hnew : P (key, childNode key frame (node.depth + 1) node.id)) :
      ∀ entry ∈ node.children ++ [(key, childNode key frame (node.depth + 1) node.id)],
        P entry := by
    intro entry hentry
    rcases List.mem_append.mp hentry with hentry | hentry
    · exact hall entry hentry
    · rw [List.mem_singleton.mp hentry]
      exact hnew
  refine .mk ⟨?_, hother h.links.ids rfl, hother h.links.parents rfl, hother h.links.depths rfl⟩
    ?_ (hother h.children (childNode_owes _ _ _ _))
  · change (List.map (fun entry : String × TrieNode => canon entry.1) (_ ++ [_])).Nodup
    rw [List.map_append, List.nodup_append]
    refine ⟨h.links.keys, List.nodup_singleton _, ?_⟩
    intro c hc d hd
    obtain ⟨entry, hentry, rfl⟩ := List.mem_map.mp hc
    rw [List.mem_singleton.mp hd]
    exact hkey entry hentry
  · have hbalanced := h.balanced
    have hzero : (childNode key frame (node.depth + 1) node.id).totalValue.toInt = 0 := rfl
    simp only [childTotal, childNodes, List.map_append, List.map_cons, List.map_nil,
      List.sum_append, List.sum_cons, List.sum_nil, hzero] at hbalanced ⊢
    omega

theorem mem_paths_set_child (node : TrieNode) {before after : List (String × TrieNode)}
    {key : String} {old child : TrieNode} {P : List String → Prop}
    (hchildren : node.children = before ++ (key, old) :: after)
    (hpaths : ∀ c, c ∈ child.paths canon ↔ c ∈ old.paths canon ∨ P c) (c : List String) :
    c ∈ paths canon { node with children := before ++ (key, child) :: after } ↔
      c ∈ node.paths canon ∨ ∃ rest, P rest ∧ c = canon key :: rest := by
  rw [mem_paths, mem_paths]
  simp only [hchildren, List.mem_append, List.mem_cons, or_and_right, exists_or,
    exists_eq_left, hpaths, or_assoc]
  rw [or_comm (a := ∃ rest, P rest ∧ c = canon key :: rest)]

theorem mem_paths_add_child {key : String} {node : TrieNode} (frame : WalkedFrame)
    (c : List String) :
    c ∈ paths canon { node with
      children := node.children ++ [(key, childNode key frame (node.depth + 1) node.id)] } ↔
        c ∈ node.paths canon ∨ c = [canon key] := by
  have hblank : (childNode key frame (node.depth + 1) node.id).paths canon = [[]] := by
    rw [paths_eq]
    rfl
  rw [mem_paths, mem_paths]
  simp only [List.mem_append, List.mem_cons, List.not_mem_nil, or_false, or_and_right,
    exists_or, exists_eq_left, hblank, or_assoc]

end TrieNode

theorem exists_child (node : TrieNode) {owed : ℤ} (h : node.Owes canon owed) (key : String)
    (frame : WalkedFrame) : ∃ before key' after,
      canon key' = canon key ∧
      (∀ child, setChild canon key child node.children = before ++ (key', child) :: after) ∧
      ∃ children, children = before ++ (key', (findChild canon key node.children).getD
        (childNode key frame (node.depth + 1) node.id)) :: after ∧
      TrieNode.Owes canon owed { node with children := children } ∧
      ∀ c, c ∈ TrieNode.paths canon { node with children := children } ↔
        c ∈ node.paths canon ∨ c = [canon key] := by
  cases hfind : findChild canon key node.children with
  | none =>
    obtain ⟨hkey, hset⟩ := setChild_of_none hfind
    exact ⟨node.children, key, [], rfl, hset, _, rfl, h.add_child hkey frame,
      TrieNode.mem_paths_add_child frame⟩
  | some old =>
    obtain ⟨before, key', after, hcanon, hchildren, hset⟩ := setChild_of_some hfind
    refine ⟨before, key', after, hcanon, hset, node.children, hchildren, ?_, ?_⟩
    · cases node
      exact h
    · intro c
      have hself : c ∈ node.paths canon ∨ c = [canon key] ↔ c ∈ node.paths canon := by
        rw [or_iff_left_of_imp]
        rintro rfl
        rw [TrieNode.mem_paths]
        exact .inr ⟨(key', old), by rw [hchildren]; simp, [], TrieNode.mem_paths.mpr (.inl rfl),
          by rw [hcanon]⟩
      rw [hself]
      cases node
      rfl

/-- A stack added to a node that owes its value. -/
theorem addFrames_added {value : Int64} {frames : List WalkedFrame} {key : String}
    {node node' : TrieNode} (h : node.Owes canon value.toInt)
    (hrun : addFrames canon value frames key node.depth node = .ok node') :
    Added canon key (frames.map WalkedFrame.name) node node' := by
  induction frames generalizing key node node' with
  | nil =>
    rw [addFrames] at hrun
    simp only [bind_eq_ok, pure, Except.pure, Except.ok.injEq] at hrun
    obtain ⟨selfValue, hself, rfl⟩ := hrun
    rw [addTrapping_ok] at hself
    refine ⟨rfl, rfl, rfl, rfl, ?_, ?_⟩
    · refine .mk ⟨h.links.keys, h.links.ids, h.links.parents, h.links.depths⟩ ?_ h.children
      have hbalanced := h.balanced
      change node.totalValue.toInt = selfValue.toInt + node.childTotal + 0
      omega
    · intro c
      rw [TrieNode.mem_paths, TrieNode.mem_paths, List.map_nil, keysFrom, List.prefix_nil]
      exact (or_iff_left_of_imp Or.inl).symm
  | cons frame rest ih =>
    rw [addFrames] at hrun
    simp only [bind_eq_ok, pure, Except.pure, Except.ok.injEq] at hrun
    obtain ⟨total, htotal, child, hchild, rfl⟩ := hrun
    rw [addTrapping_ok] at htotal
    obtain ⟨before, key', after, hcanon, hset, children, hchildren, hbase, hpaths⟩ :=
      exists_child node h (key ++ "/" ++ frame.name) frame
    generalize (findChild canon (key ++ "/" ++ frame.name) node.children).getD
      (childNode (key ++ "/" ++ frame.name) frame (node.depth + 1) node.id) = old at *
    have hmem : (key', old) ∈ children := by rw [hchildren]; simp
    have hdepth : old.depth = node.depth + 1 := hbase.links.depths _ hmem
    rw [← hdepth] at hchild
    have hadded := ih ((hbase.children _ hmem).add htotal) hchild
    have hchildTotal : child.totalValue.toInt = old.totalValue.toInt + value.toInt := by
      rw [hadded.totalValue]
      exact htotal
    have hnew := hbase.set_child hchildren (show child.id = old.id from hadded.id) hadded.parentId
      hadded.depth hchildTotal hadded.owes
    have hchildPaths (c : List String) : c ∈ child.paths canon ↔
        c ∈ old.paths canon ∨
          c <+: keysFrom canon (key ++ "/" ++ frame.name) (rest.map WalkedFrame.name) := by
      rw [hadded.paths, TrieNode.mem_paths, TrieNode.mem_paths]
    rw [hset]
    refine ⟨rfl, rfl, rfl, rfl, hnew, ?_⟩
    intro c
    refine (TrieNode.mem_paths_set_child { node with children := children } hchildren
      hchildPaths c).trans ?_
    rw [hpaths]
    rw [List.map_cons, keysFrom, List.prefix_cons_iff, hcanon]
    constructor
    · rintro ((hc | rfl) | ⟨d, hd, rfl⟩)
      · exact .inl hc
      · exact .inr (.inr ⟨[], rfl, List.nil_prefix⟩)
      · exact .inr (.inr ⟨d, rfl, hd⟩)
    · rintro (hc | rfl | ⟨d, rfl, hd⟩)
      · exact .inl (.inl hc)
      · exact .inl (.inl (TrieNode.mem_paths.mpr (.inl rfl)))
      · exact .inr ⟨d, hd, rfl⟩

end PProfessor.Kit
