import PProfessor.CostTree
import PProfessor.KitOverflow

set_option autoImplicit false

/-!
# What the nodes of the flame graph cost

A node has the values of the samples whose stacks begin with its call path, and as
its own those of the samples whose stacks end there.
-/
namespace PProfessor.Kit
open CheckedArith CostTree Fallible KeyedSum Pprof

variable {canon : String → String}

def trieView (canon : String → String) : View TrieNode String where
  children node := node.children.map fun entry => (canon entry.1, entry.2)
  cost node := node.totalValue.toInt
  own node := node.selfValue.toInt

theorem childNode_blank (key : String) (frame : WalkedFrame) (depth : ℕ) (parent : String) :
    (trieView canon).Blank (childNode key frame depth parent) :=
  ⟨rfl, rfl, rfl⟩

theorem addFrames_adds {value total : Int64} {frames : List WalkedFrame} {key : String} {i : ℕ}
    {node node' : TrieNode} (htotal : total.toInt = node.totalValue.toInt + value.toInt)
    (hrun : addFrames canon value frames key i { node with totalValue := total } = .ok node') :
    (trieView canon).Adds value.toInt (keysFrom canon key (frames.map WalkedFrame.name)) node
      node' := by
  induction frames generalizing key i node node' total with
  | nil =>
    simp only [addFrames, bind_eq_ok, pure, Except.pure, Except.ok.injEq] at hrun
    obtain ⟨selfValue, hself, rfl⟩ := hrun
    exact .here htotal (addTrapping_ok.mp hself) rfl
  | cons frame rest ih =>
    simp only [addFrames, bind_eq_ok, pure, Except.pure, Except.ok.injEq] at hrun
    obtain ⟨childTotal, hchildTotal, child, hchild, rfl⟩ := hrun
    have hadds := ih (addTrapping_ok.mp hchildTotal) hchild
    cases hfind : findChild canon (key ++ "/" ++ frame.name) node.children with
    | none =>
      obtain ⟨-, hset⟩ := setChild_of_none hfind
      rw [hfind, Option.getD_none] at hadds
      refine .deeper ((trieView canon).children node) [] htotal rfl
        (Or.inr ⟨by simp, childNode_blank _ _ _ _⟩) ?_ hadds
      simp [trieView, hset]
    | some old =>
      obtain ⟨before, key', after, hcanon, hchildren, hset⟩ := setChild_of_some hfind
      rw [hfind, Option.getD_some] at hadds
      refine .deeper (before.map fun entry => (canon entry.1, entry.2))
        (after.map fun entry => (canon entry.1, entry.2)) htotal rfl (Or.inl ?_) ?_ hadds
      · simp [trieView, hchildren, hcanon]
      · simp [trieView, hset, hcanon]

/-- The ids that the stack of a sample spells. -/
def spelled (canon : String → String) (x : Int64 × List WalkedFrame) : List String :=
  keysFrom canon "root" (x.2.map WalkedFrame.name)

def countedValue (x : Int64 × List WalkedFrame) : ℤ := (counted x.1).toInt

theorem addStacks_shows {passing rest : List (Int64 × List WalkedFrame)} {root root' : TrieNode}
    (h : (trieView canon).Shows (spelled canon) countedValue passing root)
    (hrun : rest.foldlM (fun root x => addStack canon root (counted x.1) x.2) root = .ok root') :
    (trieView canon).Shows (spelled canon) countedValue (passing ++ rest) root' := by
  induction rest generalizing passing root with
  | nil =>
    cases hrun
    rwa [List.append_nil]
  | cons x rest ih =>
    rw [List.foldlM_cons, bind_eq_ok] at hrun
    obtain ⟨next, hnext, hrest⟩ := hrun
    unfold addStack at hnext
    rw [bind_eq_ok] at hnext
    obtain ⟨total, htotal, hnext⟩ := hnext
    have hadds := addFrames_adds (addTrapping_ok.mp htotal) hnext
    have hshows := ih (h.adds (x := x) hadds) hrest
    rwa [List.append_assoc] at hshows

/-- The nodes as the app finds them. -/
def graphView (canon : String → String) (result : ProfileConversionResult) :
    View FlamegraphNode String where
  children node := node.childIds.filterMap fun childId =>
    (result.getNode canon childId).map fun child => (canon childId, child)
  cost node := node.totalValue.toInt
  own node := node.selfValue.toInt

/-- The sum of `f` over the nodes that the app finds from the root along the names. -/
def ProfileConversionResult.sumAt (canon : String → String) (result : ProfileConversionResult)
    (f : FlamegraphNode → ℤ) (names : List String) : ℤ :=
  match result.rootNodeId.bind (result.getNode canon) with
  | none => 0
  | some root => (graphView canon result).sumAt f (keysFrom canon "root" names) root

variable {result : ProfileConversionResult} {root : TrieNode}
  {passing : List (Int64 × List WalkedFrame)}

section Found
variable (hnodes : result.nodes = breadthFirst [root])
  (hindex : result.nodeIndex = indexNodes canon result.nodes)
  (hdistinct : (result.nodes.map fun node => canon node.id).Nodup) (howes : root.Owes canon 0)
include hnodes hindex hdistinct howes

theorem graphView_children {n : TrieNode} (hn : n ∈ root.subtree canon) :
    (graphView canon result).children n.flat =
      n.children.map fun entry => (canon entry.1, entry.2.flat) := by
  have hfind : ∀ entry ∈ n.children, result.getNode canon entry.1 = some entry.2.flat := by
    intro entry hentry
    rw [← (howes.subtree hn).links.ids entry hentry]
    exact getNode_subtree hnodes hindex hdistinct (TrieNode.mem_subtree_child hn hentry)
  change (n.children.map Prod.fst).filterMap _ = _
  rw [List.filterMap_map, ← List.filterMap_eq_map]
  apply List.filterMap_congr
  intro entry hentry
  simp [hfind entry hentry]

theorem graphView_sumAt (f : FlamegraphNode → ℤ) (path : List String) {n : TrieNode}
    (hn : n ∈ root.subtree canon) : (graphView canon result).sumAt f path n.flat =
      (trieView canon).sumAt (fun m => f m.flat) path n := by
  induction path generalizing n with
  | nil => rfl
  | cons k rest ih =>
    simp only [View.sumAt, graphView_children hnodes hindex hdistinct howes hn, trieView, total_map]
    refine total_congr _ _ (fun _ _ => Iff.rfl) fun entry hentry => ?_
    exact ih (TrieNode.mem_subtree_child hn hentry)

end Found

theorem sum_abs_countedValue (passing : List (Int64 × List WalkedFrame)) :
    (passing.map fun x => |countedValue x|).sum = countedSum passing := by
  unfold countedSum
  congr 1
  apply List.map_congr_left
  intro x _
  exact abs_of_nonneg (counted_nonneg x.1)

structure ShowsCosts (canon : String → String) (result : ProfileConversionResult)
    (passing : List (Int64 × List WalkedFrame)) : Prop where
  total : ∀ names, result.sumAt canon (fun node => node.totalValue.toInt) names =
    through (spelled canon) countedValue passing (keysFrom canon "root" names)
  own : ∀ names, result.sumAt canon (fun node => node.selfValue.toInt) names =
    KeyedSum.total (spelled canon) countedValue passing (keysFrom canon "root" names)

theorem showsCosts_of_none (hroot : result.rootNodeId = none) (hzero : countedSum passing ≤ 0) :
    ShowsCosts canon result passing := by
  have hshown (f : FlamegraphNode → ℤ) (names : List String) : result.sumAt canon f names = 0 := by
    simp [ProfileConversionResult.sumAt, hroot]
  rw [← sum_abs_countedValue] at hzero
  have hnothing {κ : Type} [DecidableEq κ] (key : Int64 × List WalkedFrame → κ) (k : κ) :
      KeyedSum.total key countedValue passing k = 0 := by
    have habs : |KeyedSum.total key countedValue passing k| ≤
        (passing.map fun x => |countedValue x|).sum :=
      (abs_total_le key passing k).trans (total_abs_le key passing k)
    exact abs_nonpos_iff.mp (habs.trans hzero)
  exact ⟨fun names => (hshown _ names).trans (hnothing _ _).symm,
    fun names => (hshown _ names).trans (hnothing _ _).symm⟩

theorem showsCosts_of_grown (h : Grown canon passing root)
    (hshows : (trieView canon).Shows (spelled canon) countedValue passing root)
    (hnodes : result.nodes = breadthFirst [root])
    (hindex : result.nodeIndex = indexNodes canon result.nodes)
    (hroot : result.rootNodeId = some "root") (hdistinct : DistinctPaths canon passing) :
    ShowsCosts canon result passing := by
  rw [← h.distinct_iff, ← hnodes] at hdistinct
  have hself : root ∈ root.subtree canon := by
    rw [TrieNode.subtree_eq]
    exact List.mem_cons_self
  have hfound : result.getNode canon "root" = some root.flat := by
    rw [← h.id]
    exact getNode_subtree hnodes hindex hdistinct hself
  constructor
  · intro names
    simp only [ProfileConversionResult.sumAt, hroot, Option.bind_some, hfound,
      graphView_sumAt hnodes hindex hdistinct h.owes _ _ hself]
    exact hshows.cost _
  · intro names
    simp only [ProfileConversionResult.sumAt, hroot, Option.bind_some, hfound,
      graphView_sumAt hnodes hindex hdistinct h.owes _ _ hself]
    exact hshows.own _

variable {profile : DecodedProfile} {options : ConversionOptions}

theorem convertProfile_showsCosts (h : convertProfile canon profile options = .ok result) :
    ∃ passing, passingSamples canon profile options = .ok passing ∧
      result.totalValue.toInt = countedSum passing ∧
      (DistinctPaths canon passing → ShowsCosts canon result passing) ∧
      (passing = [] ∨ ∃ root, Grown canon passing root ∧
        (trieView canon).Shows (spelled canon) countedValue passing root ∧
        result.nodes = breadthFirst [root] ∧
        result.nodeIndex = indexNodes canon result.nodes) := by
  unfold convertProfile at h
  simp only [bind_eq_ok] at h
  obtain ⟨selectedHeap, hheap, valueTypeNames, -, threads, -, h⟩ := h
  unfold passingSamples
  rw [hheap]
  split_ifs at h with hempty
  · cases h
    rw [hempty]
    exact ⟨[], rfl, rfl, fun _ => showsCosts_of_none rfl le_rfl, .inl rfl⟩
  · rw [bind_eq_ok] at h
    obtain ⟨root, hroot, h⟩ := h
    obtain ⟨passing, hpassing, hfold⟩ := addConverted_fold hroot
    have hgrown := rootNode_grown.foldlM hfold
    have hblank : (trieView canon).Blank rootNode := ⟨rfl, rfl, rfl⟩
    have hshows := addStacks_shows hblank.shows hfold
    cases h
    refine ⟨passing, hpassing, hgrown.totalValue, fun hdistinct => ?_,
      .inr ⟨root, hgrown, hshows, rfl, rfl⟩⟩
    by_cases hpos : 0 < root.totalValue
    · exact showsCosts_of_grown hgrown hshows rfl rfl (if_pos hpos) hdistinct
    · refine showsCosts_of_none (if_neg hpos) ?_
      rw [Int64.lt_iff_toInt_lt] at hpos
      have htotal := hgrown.totalValue
      simp only [List.nil_append] at htotal
      exact htotal ▸ not_lt.mp hpos

theorem TrieNode.Owes.sumAt_entry {owed : ℤ} {node n : TrieNode} {c : List String}
    (h : node.Owes canon owed) (hn : (c, n) ∈ node.entries canon) (f : TrieNode → ℤ) :
    (trieView canon).sumAt f c node = f n := by
  induction c generalizing node owed with
  | nil =>
    rcases TrieNode.mem_entries.mp hn with ⟨-, rfl⟩ | ⟨entry, -, rest, -, hc⟩
    · rfl
    · cases hc
  | cons k rest ih =>
    rcases TrieNode.mem_entries.mp hn with ⟨hc, -⟩ | ⟨entry, hentry, rest', hrest, hc⟩
    · cases hc
    · obtain ⟨rfl, rfl⟩ := List.cons.inj hc
      simp only [View.sumAt, trieView, total_map]
      rw [total_of_nodup (fun entry : String × TrieNode => canon entry.1) _ h.links.keys hentry]
      exact ih (h.children entry hentry) hrest

theorem mem_entries_of_mem_paths {c : List String} (hc : c ∈ root.paths canon) :
    ∃ n, (c, n) ∈ root.entries canon := by
  obtain ⟨⟨c', n⟩, hn, rfl⟩ := List.mem_map.mp hc
  exact ⟨n, hn⟩

/-- Where no two call paths spell the same id, the app finds under each call path's id the
node that has the values of the samples through it, and there are no other nodes. -/
theorem flamegraph_costs (h : convertProfile canon profile options = .ok result) :
    ∃ passing, passingSamples canon profile options = .ok passing ∧
      result.totalValue.toInt = countedSum passing ∧
      (DistinctPaths canon passing → passing ≠ [] →
        (∀ names, CallPath passing names → ∃ node,
          result.getNode canon (pathId names) = some node ∧
          node.totalValue.toInt =
            through (spelled canon) countedValue passing (keysFrom canon "root" names) ∧
          node.selfValue.toInt =
            total (spelled canon) countedValue passing (keysFrom canon "root" names)) ∧
        ∀ node ∈ result.nodes, ∃ names, CallPath passing names ∧
          canon node.id = canon (pathId names)) := by
  obtain ⟨passing, hpassing, htotal, -, hresult⟩ := convertProfile_showsCosts h
  refine ⟨passing, hpassing, htotal, fun hdistinct hne => ?_⟩
  rcases hresult with hempty | ⟨root, hgrown, hshows, hnodes, hindex⟩
  · exact absurd hempty hne
  · have hids := hdistinct
    rw [← hgrown.distinct_iff, ← hnodes] at hids
    have hspells {c : List String} {n : TrieNode} {names : List String}
        (hn : (c, n) ∈ root.entries canon) (hc : c = keysFrom canon "root" names) :
        canon n.id = canon (pathId names) := by
      rw [hgrown.owes.entry_id hn, hgrown.id, hc, keysFrom_getLast?]
      rfl
    constructor
    · intro names hnames
      obtain ⟨n, hn⟩ := mem_entries_of_mem_paths ((hgrown.paths _).mpr ⟨names, hnames, rfl⟩)
      refine ⟨n.flat, ?_, ?_, ?_⟩
      · have hfound := getNode_subtree hnodes hindex hids (List.mem_map_of_mem hn)
        unfold ProfileConversionResult.getNode at hfound ⊢
        rwa [← hspells hn rfl]
      · rw [← hshows.cost, hgrown.owes.sumAt_entry hn]
        rfl
      · rw [← hshows.own, hgrown.owes.sumAt_entry hn]
        rfl
    · intro node hnode
      rw [hnodes, (breadthFirst_perm canon [root]).mem_iff, List.flatMap_singleton] at hnode
      obtain ⟨n, hsubtree, rfl⟩ := List.mem_map.mp hnode
      obtain ⟨⟨c, n⟩, hn, rfl⟩ := List.mem_map.mp hsubtree
      obtain ⟨names, hnames, hc⟩ := (hgrown.paths c).mp (List.mem_map_of_mem hn)
      exact ⟨names, hnames, hspells hn hc⟩

/-- The function below itself has the values of both its samples. -/
theorem flamegraph_costs_selfCalling : ∃ result node,
    convertProfile id selfCalling everything = .ok result ∧ result.totalValue.toInt = 8 ∧
      result.getNode id (pathId ["a", "a/b"]) = some node ∧ node.totalValue.toInt = 8 ∧
      node.selfValue.toInt = 3 := by
  have hheap : selectedHeapOf id selfCalling everything = .ok none := selectedHeapOf_everything rfl
  have hok : ∃ result, convertProfile id selfCalling everything = .ok result := by
    unfold convertProfile
    rw [hheap]
    exact ⟨_, rfl⟩
  obtain ⟨result, hok⟩ := hok
  obtain ⟨passing, hpassing, htotal, hcosts⟩ := flamegraph_costs hok
  have hframes : passing = [(5, [⟨"a", none, none, none⟩, ⟨"a/b", none, none, none⟩,
      ⟨"a/b", none, none, none⟩]), (3, [⟨"a", none, none, none⟩, ⟨"a/b", none, none, none⟩])] := by
    unfold passingSamples at hpassing
    rw [hheap] at hpassing
    exact (Except.ok.inj hpassing).symm
  subst hframes
  have hdistinct : DistinctPaths id [(5, [⟨"a", none, none, none⟩, ⟨"a/b", none, none, none⟩,
      ⟨"a/b", none, none, none⟩]), (3, [⟨"a", none, none, none⟩, ⟨"a/b", none, none, none⟩])] := by
    intro p q hp hq
    rw [callPath_iff_mem] at hp hq
    revert q
    revert p
    decide
  obtain ⟨node, hnode, hnodeTotal, hnodeSelf⟩ := (hcosts hdistinct (by simp)).1 ["a", "a/b"]
    (Or.inr ⟨_, List.mem_cons_self, ["a/b"], rfl⟩)
  exact ⟨result, node, hok, htotal, hnode, hnodeTotal.trans (by decide),
    hnodeSelf.trans (by decide)⟩

end PProfessor.Kit
