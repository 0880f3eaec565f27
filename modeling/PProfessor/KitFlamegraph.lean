import PProfessor.KitTrie

set_option autoImplicit false

/-!
# The flame graph as a tree

The nodes in breadth-first order with the index by id are a consistent tree
exactly where no two call paths spell the same id and no value is the least
`Int64`, which has no absolute value.
-/
namespace PProfessor.Kit
open CheckedArith Fallible Pprof

variable {canon : String → String}

def counted (raw : Int64) : Int64 :=
  if raw = -0x8000000000000000 then 0x7FFFFFFFFFFFFFFF else if raw < 0 then -raw else raw

section Samples

variable (canon : String → String) (profile : DecodedProfile) (options : ConversionOptions)

def passingFrom (selectedHeap : Option String) :
    List Sample → Except Trap (List (Int64 × List WalkedFrame))
  | [] => .ok []
  | sample :: rest =>
    match rawValue options sample with
    | none => passingFrom selectedHeap rest
    | some raw =>
      if magnitude options raw = none then passingFrom selectedHeap rest
      else do
        if ← passes canon profile options selectedHeap sample then
          let frames ← walkStack profile sample
          let later ← passingFrom selectedHeap rest
          return (raw, frames) :: later
        else passingFrom selectedHeap rest

def passingSamples : Except Trap (List (Int64 × List WalkedFrame)) := do
  let selectedHeap ← selectedHeapOf canon profile options
  passingFrom canon profile options selectedHeap profile.samples

end Samples

theorem magnitude_eq_some {options : ConversionOptions} {raw value : Int64}
    (h : magnitude options raw = some value) : value = counted raw := by
  unfold magnitude at h
  dsimp only at h
  split_ifs at h <;> simp_all [counted]

variable {profile : DecodedProfile} {options : ConversionOptions}

theorem addConverted_fold {selectedHeap : Option String} {samples : List Sample}
    {root root' : TrieNode}
    (h : samples.foldlM (addConverted canon profile options selectedHeap) root = .ok root') :
    ∃ passing, passingFrom canon profile options selectedHeap samples = .ok passing ∧
      passing.foldlM (fun root x => addStack canon root (counted x.1) x.2) root = .ok root' := by
  induction samples generalizing root with
  | nil => exact ⟨[], rfl, h⟩
  | cons sample rest ih =>
    rw [List.foldlM_cons, bind_eq_ok] at h
    obtain ⟨next, hnext, hrest⟩ := h
    obtain ⟨passing, hpassing, hfold⟩ := ih hrest
    rw [passingFrom]
    unfold addConverted at hnext
    cases hraw : rawValue options sample with
    | none =>
      rw [hraw] at hnext
      cases hnext
      exact ⟨passing, hpassing, hfold⟩
    | some raw =>
      rw [hraw, Option.bind_some] at hnext
      cases hvalue : magnitude options raw with
      | none =>
        rw [hvalue] at hnext
        cases hnext
        exact ⟨passing, by simpa [hvalue] using hpassing, hfold⟩
      | some value =>
        rw [hvalue] at hnext
        simp only [bind_eq_ok] at hnext
        obtain ⟨pass, hpass, hnext⟩ := hnext
        have hsome : magnitude options raw ≠ none := by simp [hvalue]
        cases pass with
        | false =>
          cases hnext
          refine ⟨passing, ?_, hfold⟩
          simp only [if_neg hsome, hpass]
          exact hpassing
        | true =>
          rw [if_pos rfl, bind_eq_ok] at hnext
          obtain ⟨frames, hframes, hnext⟩ := hnext
          rw [magnitude_eq_some hvalue] at hnext
          refine ⟨(raw, frames) :: passing, ?_, ?_⟩
          · simp only [if_neg hsome, hpass, hframes, hpassing]
            rfl
          · rw [List.foldlM_cons, hnext]
            exact hfold

/-- The id that the frames of a call path spell. -/
def pathId (names : List String) : String := names.foldl (fun key name => key ++ "/" ++ name) "root"

/-- The root, or a prefix of the stack of a sample. -/
def CallPath (passing : List (Int64 × List WalkedFrame)) (names : List String) : Prop :=
  names = [] ∨ ∃ x ∈ passing, names <+: x.2.map WalkedFrame.name

def countedSum (passing : List (Int64 × List WalkedFrame)) : ℤ :=
  (passing.map fun x => (counted x.1).toInt).sum

structure Grown (canon : String → String) (passing : List (Int64 × List WalkedFrame))
    (root : TrieNode) : Prop where
  id : root.id = "root"
  parentId : root.parentId = none
  depth : root.depth = 0
  owes : root.Owes canon 0
  totalValue : root.totalValue.toInt = countedSum passing
  paths : ∀ c, c ∈ root.paths canon ↔ ∃ names, CallPath passing names ∧
    c = keysFrom canon "root" names

theorem rootNode_grown : Grown canon [] rootNode where
  id := rfl
  parentId := rfl
  depth := rfl
  owes := .mk ⟨List.nodup_nil, by simp [rootNode], by simp [rootNode], by simp [rootNode]⟩ rfl
    (by simp [rootNode])
  totalValue := rfl
  paths := by
    intro c
    have hpaths : rootNode.paths canon = [[]] := by
      rw [TrieNode.paths_eq]
      rfl
    rw [hpaths, List.mem_singleton]
    constructor
    · rintro rfl
      exact ⟨[], .inl rfl, rfl⟩
    · rintro ⟨names, rfl | ⟨x, hx, -⟩, rfl⟩
      · rfl
      · cases hx

theorem prefix_keysFrom {key : String} {names : List String} {c : List String} :
    c <+: keysFrom canon key names ↔
      ∃ names', names' <+: names ∧ c = keysFrom canon key names' := by
  induction names generalizing key c with
  | nil =>
    simp only [keysFrom, List.prefix_nil]
    constructor
    · rintro rfl
      exact ⟨[], rfl, rfl⟩
    · rintro ⟨names', rfl, rfl⟩
      rfl
  | cons name rest ih =>
    rw [keysFrom, List.prefix_cons_iff]
    constructor
    · rintro (rfl | ⟨d, rfl, hd⟩)
      · exact ⟨[], List.nil_prefix, rfl⟩
      · obtain ⟨names', hnames', rfl⟩ := ih.mp hd
        exact ⟨name :: names', List.cons_prefix_cons.mpr ⟨rfl, hnames'⟩, rfl⟩
    · rintro ⟨names', hnames', rfl⟩
      rcases List.prefix_cons_iff.mp hnames' with rfl | ⟨names', rfl, hrest⟩
      · exact .inl rfl
      · exact .inr ⟨_, rfl, ih.mpr ⟨names', hrest, rfl⟩⟩

theorem Grown.addStack {passing : List (Int64 × List WalkedFrame)} {root root' : TrieNode}
    (h : Grown canon passing root) {x : Int64 × List WalkedFrame}
    (hrun : Kit.addStack canon root (counted x.1) x.2 = .ok root') :
    Grown canon (passing ++ [x]) root' := by
  unfold Kit.addStack at hrun
  rw [bind_eq_ok] at hrun
  obtain ⟨total, htotal, hrun⟩ := hrun
  rw [addTrapping_ok] at htotal
  rw [← h.depth] at hrun
  have hadded := addFrames_added (h.owes.add htotal) hrun
  refine ⟨hadded.id.trans h.id, hadded.parentId.trans h.parentId, hadded.depth.trans h.depth,
    hadded.owes, ?_, ?_⟩
  · rw [hadded.totalValue, htotal, h.totalValue]
    simp [countedSum]
  · intro c
    have hsame : c ∈ TrieNode.paths canon { root with totalValue := total } ↔
        c ∈ root.paths canon := by
      rw [TrieNode.mem_paths, TrieNode.mem_paths]
    rw [hadded.paths, hsame, h.paths, prefix_keysFrom]
    simp only [CallPath, List.mem_append, List.mem_singleton, or_and_right, exists_or,
      exists_eq_left, or_assoc]

theorem Grown.foldlM {passing : List (Int64 × List WalkedFrame)} {root root' : TrieNode}
    (h : Grown canon passing root) {rest : List (Int64 × List WalkedFrame)}
    (hrun : rest.foldlM (fun root x => Kit.addStack canon root (counted x.1) x.2) root =
      .ok root') : Grown canon (passing ++ rest) root' := by
  induction rest generalizing passing root with
  | nil =>
    cases hrun
    rw [List.append_nil]
    exact h
  | cons x rest ih =>
    rw [List.foldlM_cons, bind_eq_ok] at hrun
    obtain ⟨next, hnext, hrest⟩ := hrun
    have happend : passing ++ x :: rest = (passing ++ [x]) ++ rest := by simp
    rw [happend]
    exact ih (h.addStack hnext) hrest

def TrieNode.subtree (canon : String → String) (node : TrieNode) : List TrieNode :=
  (node.entries canon).map Prod.snd

theorem TrieNode.subtree_eq (node : TrieNode) :
    node.subtree canon = node :: node.childNodes.flatMap (TrieNode.subtree canon) := by
  rw [subtree, entries_eq, List.map_cons, List.map_flatMap, childNodes, List.flatMap_map]
  congr 2
  funext entry
  rw [subtree, List.map_map]
  rfl

theorem breadthFirst_perm (canon : String → String) (queue : List TrieNode) :
    (breadthFirst queue).Perm ((queue.flatMap (TrieNode.subtree canon)).map TrieNode.flat) := by
  induction queue using breadthFirst.induct with
  | case1 => rw [breadthFirst]; exact .refl _
  | case2 node rest ih =>
    rw [breadthFirst, List.flatMap_cons, TrieNode.subtree_eq, List.cons_append, List.map_cons]
    refine List.Perm.cons _ (ih.trans ?_)
    rw [List.flatMap_append]
    exact List.perm_append_comm.map _

theorem breadthFirst_parent (canon : String → String) {queue : List TrieNode} {i : ℕ}
    {node : FlamegraphNode} (h : (breadthFirst queue)[i]? = some node) :
    (∃ n, queue[i]? = some n ∧ node = n.flat) ∨
      ∃ j parent, j < i ∧ (breadthFirst queue)[j]? = some parent.flat ∧
        parent ∈ queue.flatMap (TrieNode.subtree canon) ∧
        ∃ entry ∈ parent.children, node = entry.2.flat := by
  induction queue using breadthFirst.induct generalizing i with
  | case1 =>
    rw [breadthFirst] at h
    cases h
  | case2 first rest ih =>
    rw [breadthFirst] at h ⊢
    cases i with
    | zero => exact .inl ⟨first, rfl, (Option.some.inj h).symm⟩
    | succ i =>
      rw [List.getElem?_cons_succ] at h ⊢
      rcases ih h with ⟨n, hn, rfl⟩ | ⟨j, parent, hj, hparent, hbelow, hentry⟩
      · by_cases hi : i < rest.length
        · rw [List.getElem?_append_left hi] at hn
          exact .inl ⟨n, hn, rfl⟩
        · -- A child of the node that has just been handed out.
          rw [List.getElem?_append_right (Nat.le_of_not_lt hi)] at hn
          obtain ⟨entry, hentry, rfl⟩ := List.mem_map.mp (List.mem_of_getElem? hn)
          refine .inr ⟨0, first, Nat.succ_pos i, rfl, ?_, entry, hentry, rfl⟩
          rw [List.flatMap_cons, TrieNode.subtree_eq]
          exact List.mem_cons_self
      · refine .inr ⟨j + 1, parent, Nat.succ_lt_succ hj, hparent, ?_, hentry⟩
        rw [List.flatMap_cons, TrieNode.subtree_eq]
        rw [List.flatMap_append, List.mem_append] at hbelow
        rw [List.cons_append, List.mem_cons, List.mem_append]
        exact .inr hbelow.symm

theorem indexFrom_getElem? {nodes : List FlamegraphNode}
    (h : (nodes.map fun node => canon node.id).Nodup) (start : ℕ) (map : Std.ExtHashMap String ℕ) :
    (∀ key, key ∉ (nodes.map fun node => canon node.id) →
      ((nodes.zipIdx start).foldl (fun index entry => index.insert (canon entry.1.id) entry.2)
        map)[key]? = map[key]?) ∧
    ∀ i node, nodes[i]? = some node →
      ((nodes.zipIdx start).foldl (fun index entry => index.insert (canon entry.1.id) entry.2)
        map)[canon node.id]? = some (start + i) := by
  induction nodes generalizing start map with
  | nil => simp
  | cons first rest ih =>
    rw [List.map_cons, List.nodup_cons] at h
    rw [List.zipIdx_cons, List.foldl_cons]
    obtain ⟨hout, hin⟩ := ih h.2 (start + 1) (map.insert (canon first.id) start)
    constructor
    · intro key hkey
      rw [List.map_cons, List.mem_cons, not_or] at hkey
      rw [hout key hkey.2, Std.ExtHashMap.getElem?_insert]
      simp [Ne.symm hkey.1]
    · intro i node hi
      cases i with
      | zero =>
        rw [List.getElem?_cons_zero, Option.some.injEq] at hi
        subst hi
        rw [hout _ h.1, Std.ExtHashMap.getElem?_insert_self, Nat.add_zero]
      | succ i =>
        rw [List.getElem?_cons_succ] at hi
        rw [hin i node hi]
        congr 1
        omega

theorem indexNodes_getElem? {nodes : List FlamegraphNode}
    (h : (nodes.map fun node => canon node.id).Nodup) {i : ℕ} {node : FlamegraphNode}
    (hi : nodes[i]? = some node) : (indexNodes canon nodes)[canon node.id]? = some i := by
  have hin := (indexFrom_getElem? h 0 ∅).2 i node hi
  rwa [Nat.zero_add] at hin

/-- The nodes are a tree that the index by id finds its way in. -/
structure ConsistentTree (canon : String → String) (result : ProfileConversionResult) (grand : ℤ) :
    Prop where
  distinct : (result.nodes.map fun node => canon node.id).Nodup
  indexed : ∀ i node, result.nodes[i]? = some node → result.nodeIndex[canon node.id]? = some i
  linked : ∀ i node, result.nodes[i]? = some node → i ≠ 0 → ∃ parentId j parent,
    node.parentId = some parentId ∧ result.nodeIndex[canon parentId]? = some j ∧ j < i ∧
      result.nodes[j]? = some parent ∧ result.getNode canon parentId = some parent ∧
      (parent.childIds.countP fun childId => sameString canon childId node.id) = 1 ∧
      node.depth = parent.depth + 1
  root : ∀ root, result.nodes[0]? = some root →
    root.parentId = none ∧ root.depth = 0 ∧ root.totalValue.toInt = grand
  balanced : ∀ node ∈ result.nodes, ∃ children,
    List.Forall₂ (fun childId child => result.getNode canon childId = some child)
      node.childIds children ∧
    node.totalValue.toInt =
      node.selfValue.toInt + (children.map fun child => child.totalValue.toInt).sum

/-- Two call paths with the same id are the same path, id by id. -/
def DistinctPaths (canon : String → String) (passing : List (Int64 × List WalkedFrame)) : Prop :=
  ∀ p q, CallPath passing p → CallPath passing q → canon (pathId p) = canon (pathId q) →
    keysFrom canon "root" p = keysFrom canon "root" q

theorem keysFrom_getLast? (key : String) (names : List String) :
    (keysFrom canon key names).getLast?.getD (canon key) =
      canon (names.foldl (fun key name => key ++ "/" ++ name) key) := by
  induction names generalizing key with
  | nil => rfl
  | cons name rest ih =>
    rw [keysFrom, List.foldl_cons, ← ih, List.getLast?_cons, Option.getD_some]

variable {passing : List (Int64 × List WalkedFrame)} {root : TrieNode}

theorem Grown.ids (h : Grown canon passing root) :
    ((breadthFirst [root]).map fun node => canon node.id).Perm
      ((root.paths canon).map fun c => c.getLast?.getD (canon "root")) := by
  have hperm := (breadthFirst_perm canon [root]).map fun node => canon node.id
  refine hperm.trans (List.Perm.of_eq ?_)
  rw [List.flatMap_singleton, TrieNode.subtree, TrieNode.paths, List.map_map, List.map_map,
    List.map_map]
  apply List.map_congr_left
  rintro ⟨c, n⟩ hn
  change canon n.id = c.getLast?.getD (canon "root")
  rw [h.owes.entry_id hn, h.id]

theorem Grown.distinct_iff (h : Grown canon passing root) :
    ((breadthFirst [root]).map fun node => canon node.id).Nodup ↔ DistinctPaths canon passing := by
  rw [h.ids.nodup_iff, List.nodup_map_iff_inj_on h.owes.paths_nodup]
  constructor
  · intro hinj p q hp hq hid
    apply hinj _ ((h.paths _).mpr ⟨p, hp, rfl⟩) _ ((h.paths _).mpr ⟨q, hq, rfl⟩)
    rw [keysFrom_getLast?, keysFrom_getLast?]
    exact hid
  · intro hdistinct c hc d hd hlast
    obtain ⟨p, hp, rfl⟩ := (h.paths c).mp hc
    obtain ⟨q, hq, rfl⟩ := (h.paths d).mp hd
    rw [keysFrom_getLast?, keysFrom_getLast?] at hlast
    exact hdistinct p q hp hq hlast

theorem mem_breadthFirst (canon : String → String) {n : TrieNode} :
    n.flat ∈ breadthFirst [root] ↔ ∃ m ∈ root.subtree canon, n.flat = m.flat := by
  rw [(breadthFirst_perm canon [root]).mem_iff, List.flatMap_singleton, List.mem_map]
  simp only [eq_comm]

theorem TrieNode.mem_subtree_child {n : TrieNode} (hn : n ∈ root.subtree canon)
    {entry : String × TrieNode} (hentry : entry ∈ n.children) : entry.2 ∈ root.subtree canon := by
  obtain ⟨⟨c, m⟩, hm, rfl⟩ := List.mem_map.mp hn
  exact List.mem_map.mpr ⟨_, TrieNode.child_mem_entries hm hentry, rfl⟩

theorem TrieNode.Owes.subtree (h : root.Owes canon 0) {n : TrieNode}
    (hn : n ∈ root.subtree canon) : n.Owes canon 0 := by
  obtain ⟨⟨c, m⟩, hm, rfl⟩ := List.mem_map.mp hn
  exact h.entry_owes hm

section Result

variable {result : ProfileConversionResult} (hnodes : result.nodes = breadthFirst [root])
  (hindex : result.nodeIndex = indexNodes canon result.nodes)
  (hdistinct : (result.nodes.map fun node => canon node.id).Nodup)
include hindex hdistinct

theorem getNode_of_getElem? {i : ℕ} {node : FlamegraphNode} (hi : result.nodes[i]? = some node)
    {id : String} (hid : canon id = canon node.id) : result.getNode canon id = some node := by
  unfold ProfileConversionResult.getNode
  rw [hid, hindex, indexNodes_getElem? hdistinct hi]
  exact hi

include hnodes

theorem getNode_subtree {n : TrieNode} (hn : n ∈ root.subtree canon) :
    result.getNode canon n.id = some n.flat := by
  have hmem : n.flat ∈ result.nodes := by
    rw [hnodes, mem_breadthFirst canon]
    exact ⟨n, hn, rfl⟩
  obtain ⟨i, hi⟩ := List.mem_iff_getElem?.mp hmem
  exact getNode_of_getElem? hindex hdistinct hi rfl

theorem linked_of_grown (h : Grown canon passing root) {i : ℕ} {node : FlamegraphNode}
    (hi : result.nodes[i]? = some node) (hne : i ≠ 0) : ∃ parentId j parent,
      node.parentId = some parentId ∧ result.nodeIndex[canon parentId]? = some j ∧ j < i ∧
      result.nodes[j]? = some parent ∧ result.getNode canon parentId = some parent ∧
      (parent.childIds.countP fun childId => sameString canon childId node.id) = 1 ∧
      node.depth = parent.depth + 1 := by
  rw [hnodes] at hi
  rcases breadthFirst_parent canon hi with
    ⟨n, hn, -⟩ | ⟨j, parent, hj, hparent, hsubtree, entry, hentry, rfl⟩
  · obtain ⟨k, rfl⟩ := Nat.exists_eq_succ_of_ne_zero hne
    cases hn
  · rw [List.flatMap_singleton] at hsubtree
    have hlinks := (h.owes.subtree hsubtree).links
    rw [← hnodes] at hparent
    refine ⟨parent.id, j, parent.flat, hlinks.parents entry hentry, ?_, hj, hparent,
      getNode_of_getElem? hindex hdistinct hparent rfl, ?_, hlinks.depths entry hentry⟩
    · rw [hindex]
      exact indexNodes_getElem? hdistinct hparent
    · change ((parent.children.map Prod.fst).countP fun childId =>
        sameString canon childId entry.2.id) = 1
      have hcount : (parent.children.map fun entry => canon entry.1).count (canon entry.1) = 1 :=
        List.count_eq_one_of_mem hlinks.keys (List.mem_map_of_mem hentry)
      rw [hlinks.ids entry hentry, List.countP_map, ← hcount, List.count, List.countP_map]
      apply List.countP_congr
      intro other _
      simp [sameString]

theorem balanced_of_grown (h : Grown canon passing root) {node : FlamegraphNode}
    (hnode : node ∈ result.nodes) : ∃ children,
      List.Forall₂ (fun childId child => result.getNode canon childId = some child)
        node.childIds children ∧
      node.totalValue.toInt =
        node.selfValue.toInt + (children.map fun child => child.totalValue.toInt).sum := by
  rw [hnodes, (breadthFirst_perm canon [root]).mem_iff, List.flatMap_singleton] at hnode
  obtain ⟨n, hn, rfl⟩ := List.mem_map.mp hnode
  have howes := h.owes.subtree hn
  refine ⟨n.childNodes.map TrieNode.flat, ?_, ?_⟩
  · change List.Forall₂ _ (n.children.map Prod.fst) _
    rw [TrieNode.childNodes, List.map_map, List.forall₂_map_left_iff, List.forall₂_map_right_iff,
      List.forall₂_same]
    intro entry hentry
    rw [← howes.links.ids entry hentry]
    exact getNode_subtree hnodes hindex hdistinct (TrieNode.mem_subtree_child hn hentry)
  · have hbalanced := howes.balanced
    rw [TrieNode.childTotal, add_zero] at hbalanced
    rw [List.map_map]
    exact hbalanced

end Result

theorem counted_toInt (raw : Int64) :
    (counted raw).toInt = |raw.toInt| - if raw = -0x8000000000000000 then 1 else 0 := by
  unfold counted
  split_ifs with hmin hneg
  · rw [hmin]
    rfl
  · have hlt : raw.toInt < 0 := Int64.lt_iff_toInt_lt.mp hneg
    have hne : raw.toInt ≠ -2 ^ 63 := fun he => hmin (Int64.toInt_inj.mp he)
    have hin := toInt_inI64 raw
    have hfit : InI64 (-raw.toInt) := by
      unfold InI64 at *
      omega
    rw [Int64.toInt_neg, bmod_eq_self hfit, abs_of_neg hlt, sub_zero]
  · have hnonneg : 0 ≤ raw.toInt := by
      by_contra hlt
      exact hneg (Int64.lt_iff_toInt_lt.mpr (by simpa using hlt))
    rw [abs_of_nonneg hnonneg, sub_zero]

def magnitudeSum (passing : List (Int64 × List WalkedFrame)) : ℤ :=
  (passing.map fun x => |x.1.toInt|).sum

theorem countedSum_eq_iff (passing : List (Int64 × List WalkedFrame)) :
    countedSum passing = magnitudeSum passing ↔
      ∀ x ∈ passing, x.1 ≠ -0x8000000000000000 := by
  have hcount : countedSum passing = magnitudeSum passing -
      (passing.countP fun x => x.1 = -0x8000000000000000 : ℕ) := by
    induction passing with
    | nil => rfl
    | cons x rest ih =>
      have hx := counted_toInt x.1
      have hcounted : countedSum (x :: rest) = (counted x.1).toInt + countedSum rest := rfl
      have hmagnitude : magnitudeSum (x :: rest) = |x.1.toInt| + magnitudeSum rest := rfl
      rw [hcounted, hmagnitude, ih, hx, List.countP_cons]
      split_ifs <;> simp_all <;> omega
  rw [hcount]
  constructor
  · intro h x hx hmin
    have hpos : 0 < passing.countP fun x => x.1 = -0x8000000000000000 :=
      List.countP_pos_iff.mpr ⟨x, hx, by simpa using hmin⟩
    omega
  · intro h
    have hzero : (passing.countP fun x => x.1 = -0x8000000000000000) = 0 := by
      rw [List.countP_eq_zero]
      intro x hx
      simpa using h x hx
    rw [hzero]
    omega

theorem convertProfile_ok {result : ProfileConversionResult}
    (h : convertProfile canon profile options = .ok result) :
    ∃ passing, passingSamples canon profile options = .ok passing ∧
      ((passing = [] ∧ result.nodes = [] ∧ result.nodeIndex = ∅) ∨
        ∃ root, Grown canon passing root ∧ result.nodes = breadthFirst [root] ∧
          result.nodeIndex = indexNodes canon result.nodes) := by
  unfold convertProfile at h
  simp only [bind_eq_ok] at h
  obtain ⟨selectedHeap, hheap, valueTypeNames, -, threads, -, h⟩ := h
  unfold passingSamples
  rw [hheap]
  split_ifs at h with hempty
  · cases h
    rw [hempty]
    exact ⟨[], rfl, .inl ⟨rfl, rfl, rfl⟩⟩
  · rw [bind_eq_ok] at h
    obtain ⟨root, hroot, h⟩ := h
    cases h
    obtain ⟨passing, hpassing, hfold⟩ := addConverted_fold hroot
    have hgrown := rootNode_grown.foldlM hfold
    exact ⟨passing, hpassing, .inr ⟨root, hgrown, rfl, rfl⟩⟩

theorem consistent_of_grown (h : Grown canon passing root) {result : ProfileConversionResult}
    (hnodes : result.nodes = breadthFirst [root])
    (hindex : result.nodeIndex = indexNodes canon result.nodes) :
    ConsistentTree canon result (magnitudeSum passing) ↔ DistinctPaths canon passing ∧
      ∀ x ∈ passing, x.1 ≠ -0x8000000000000000 := by
  have hroot : result.nodes[0]? = some root.flat := by
    rw [hnodes, breadthFirst]
    rfl
  rw [← h.distinct_iff, ← hnodes, ← countedSum_eq_iff, ← h.totalValue]
  constructor
  · intro hconsistent
    exact ⟨hconsistent.distinct, (hconsistent.root root.flat hroot).2.2⟩
  · rintro ⟨hdistinct, hsum⟩
    refine ⟨hdistinct, ?_, fun i node => linked_of_grown hnodes hindex hdistinct h, ?_,
      fun node => balanced_of_grown hnodes hindex hdistinct h⟩
    · intro i node hi
      rw [hindex]
      exact indexNodes_getElem? hdistinct hi
    · intro node hnode
      rw [hroot, Option.some.injEq] at hnode
      subst hnode
      exact ⟨h.parentId, h.depth, hsum⟩

/-- The flame graph is a consistent tree exactly where the call paths have ids of
their own and every value has an absolute value. -/
theorem convertProfile_consistent_iff {result : ProfileConversionResult}
    (h : convertProfile canon profile options = .ok result) :
    ∃ passing, passingSamples canon profile options = .ok passing ∧
      (ConsistentTree canon result (magnitudeSum passing) ↔
        DistinctPaths canon passing ∧ ∀ x ∈ passing, x.1 ≠ -0x8000000000000000) := by
  obtain ⟨passing, hpassing, ⟨rfl, hnodes, -⟩ | ⟨root, hgrown, hnodes, hindex⟩⟩ :=
    convertProfile_ok h
  · refine ⟨[], hpassing, ?_, ?_⟩
    · intro _
      refine ⟨?_, by simp⟩
      rintro p q (rfl | ⟨x, hx, -⟩) (rfl | ⟨y, hy, -⟩) -
      · rfl
      · cases hy
      · cases hx
      · cases hx
    · intro _
      refine ⟨?_, ?_, ?_, ?_, ?_⟩ <;> simp [hnodes]
  · exact ⟨passing, hpassing, consistent_of_grown hgrown hnodes hindex⟩

theorem callPath_iff_mem (passing : List (Int64 × List WalkedFrame)) (names : List String) :
    CallPath passing names ↔
      names ∈ [] :: passing.flatMap fun x => (x.2.map WalkedFrame.name).inits := by
  rw [List.mem_cons, List.mem_flatMap]
  simp only [List.mem_inits, CallPath]

def everything : ConversionOptions where
  valueTypeIndex := 0
  threadFilter := none
  timeRangeNanos := none
  valueSign := .positive
  heapDomain := none

/-- A function `a/b`, and a function `a` that calls a function `b`. -/
def slashed : DecodedProfile :=
  { DecodedProfile.new with
    sampleTypes := [⟨1, 2⟩]
    samples := [⟨[1], [5], []⟩, ⟨[3, 2], [3], []⟩]
    locations := [⟨1, 0, 0, [⟨1, 0, 0⟩], false⟩, ⟨2, 0, 0, [⟨2, 0, 0⟩], false⟩,
      ⟨3, 0, 0, [⟨3, 0, 0⟩], false⟩]
    functions := [⟨1, 3, 0, 0, 0⟩, ⟨2, 4, 0, 0, 0⟩, ⟨3, 5, 0, 0, 0⟩]
    stringTable := ["", "samples", "count", "a/b", "a", "b"] }

def slashedRoot : TrieNode :=
  { rootNode with
    totalValue := 8
    children := [
      ("root/a/b", ⟨"root/a/b", "a/b", none, none, none, 1, some "root", 5, 5, []⟩),
      ("root/a", ⟨"root/a", "a", none, none, none, 1, some "root", 0, 3, [
        ("root/a/b", ⟨"root/a/b", "b", none, none, none, 2, some "root/a", 3, 3, []⟩)]⟩)] }

def selfCalling : DecodedProfile :=
  { slashed with samples := [⟨[1, 1, 2], [5], []⟩, ⟨[1, 2], [3], []⟩, ⟨[2], [-1], []⟩] }

theorem selectedHeapOf_everything {p : DecodedProfile}
    (h : p.samples.mapM (heapDomainFor id p) = .ok (p.samples.map fun _ => none)) :
    selectedHeapOf id p everything = .ok none := by
  have hnone : (p.samples.map fun _ => (none : Option String)).filterMap id = [] := by
    rw [List.filterMap_eq_nil_iff]
    intro domain hdomain
    obtain ⟨_, -, rfl⟩ := List.mem_map.mp hdomain
    rfl
  have hdomains : heapDomains id p = .ok [] := by
    unfold heapDomains
    rw [h]
    change Except.ok (sortedSet id (List.filterMap id _)) = _
    rw [hnone, sortedSet, List.foldl_nil, List.mergeSort_nil]
  unfold selectedHeapOf
  change (heapDomains id p >>= _) = _
  rw [hdomains]
  rfl

theorem convertProfile_consistent_iff_selfCalling :
    ∃ result passing, convertProfile id selfCalling everything = .ok result ∧
      passingSamples id selfCalling everything = .ok passing ∧
      magnitudeSum passing = 8 ∧ ConsistentTree id result (magnitudeSum passing) := by
  have hheap : selectedHeapOf id selfCalling everything = .ok none :=
    selectedHeapOf_everything rfl
  have hok : ∃ result, convertProfile id selfCalling everything = .ok result := by
    unfold convertProfile
    rw [hheap]
    exact ⟨_, rfl⟩
  obtain ⟨result, hok⟩ := hok
  obtain ⟨passing, hpassing, hiff⟩ := convertProfile_consistent_iff hok
  refine ⟨result, passing, hok, hpassing, ?_⟩
  have hframes : passing = [(5, [⟨"a", none, none, none⟩, ⟨"a/b", none, none, none⟩,
      ⟨"a/b", none, none, none⟩]), (3, [⟨"a", none, none, none⟩, ⟨"a/b", none, none, none⟩])] := by
    unfold passingSamples at hpassing
    rw [hheap] at hpassing
    exact (Except.ok.inj hpassing).symm
  subst hframes
  refine ⟨rfl, hiff.mpr ⟨?_, by decide⟩⟩
  intro p q hp hq
  rw [callPath_iff_mem] at hp hq
  revert q
  revert p
  decide

/-- The child of `a` has the id of the other function, which it replaces in the index. -/
theorem slashed_ids_collide :
    ∃ result passing, convertProfile id slashed everything = .ok result ∧
      passingSamples id slashed everything = .ok passing ∧
      result.nodes.map FlamegraphNode.id = ["root", "root/a/b", "root/a", "root/a/b"] ∧
      ¬ConsistentTree id result (magnitudeSum passing) := by
  have hheap : selectedHeapOf id slashed everything = .ok none := selectedHeapOf_everything rfl
  have hroot : slashed.samples.foldlM (addConverted id slashed everything none) rootNode =
      .ok slashedRoot := by rfl
  have hnodes : (breadthFirst [slashedRoot]).map FlamegraphNode.id =
      ["root", "root/a/b", "root/a", "root/a/b"] := by
    simp [breadthFirst, slashedRoot, rootNode, TrieNode.flat, TrieNode.childNodes]
  have hok : ∃ result, convertProfile id slashed everything = .ok result ∧
      result.nodes = breadthFirst [slashedRoot] := by
    unfold convertProfile
    rw [hheap]
    exact ⟨_, rfl, rfl⟩
  obtain ⟨result, hok, hresult⟩ := hok
  obtain ⟨passing, hpassing, -⟩ := convertProfile_ok hok
  rw [← hresult] at hnodes
  refine ⟨result, passing, hok, hpassing, hnodes, ?_⟩
  intro hconsistent
  have hdistinct : (result.nodes.map FlamegraphNode.id).Nodup := hconsistent.distinct
  rw [hnodes] at hdistinct
  revert hdistinct
  decide

end PProfessor.Kit
