import PProfessor.ReportOrder

set_option autoImplicit false

/-!
# The rows of the call tree

The nodes of a tree add up where nothing saturates, and `render_tree` shows the
start of a pre-order walk.
-/
namespace PProfessor.Report
open CheckedArith Ranking

namespace CallTree

/-! ## Trees that add up -/

def FramesExact (value : Int64) : List ReportFrame → CallTree → Prop
  | [], node => InI64 (node.selfValue.toInt + value.toInt)
  | frame :: rest, node =>
    let key := ReportFrameKey.ofFrame frame
    let next := (child key node.children).getD (leaf (some frame))
    InI64 (next.value.toInt + value.toInt) ∧
      FramesExact value rest { next with value := saturatingAddI64 next.value value }

/-- No addition of the loop over the stacks saturates. -/
def StacksExact : List StackStat → CallTree → Prop
  | [], _ => True
  | stack :: rest, root =>
    InI64 (root.value.toInt + stack.value.toInt) ∧
      FramesExact stack.value stack.frames
        { root with value := saturatingAddI64 root.value stack.value } ∧
      StacksExact rest (addStack root stack)

instance decidableFramesExact (value : Int64) : (frames : List ReportFrame) → (node : CallTree) →
    Decidable (FramesExact value frames node)
  | [], _ => inferInstanceAs (Decidable (InI64 _))
  | _ :: rest, _ =>
    have := decidableFramesExact value rest
    inferInstanceAs (Decidable (_ ∧ _))

instance decidableStacksExact : (ranked : List StackStat) → (root : CallTree) →
    Decidable (StacksExact ranked root)
  | [], _ => inferInstanceAs (Decidable True)
  | _ :: rest, _ =>
    have := decidableStacksExact rest
    inferInstanceAs (Decidable (_ ∧ _ ∧ _))

def childrenValue (node : CallTree) : ℤ := (node.childNodes.map fun c => c.value.toInt).sum

/-- Every node's value is its self value and the values of its children. -/
inductive Balanced : CallTree → Prop
  | mk {node : CallTree} (here : node.value.toInt = node.selfValue.toInt + node.childrenValue)
      (children : ∀ c ∈ node.childNodes, Balanced c) : Balanced node

theorem Balanced.here {node : CallTree} (h : Balanced node) :
    node.value.toInt = node.selfValue.toInt + node.childrenValue := by
  cases h
  assumption

theorem Balanced.children {node : CallTree} (h : Balanced node) :
    ∀ c ∈ node.childNodes, Balanced c := by
  cases h
  assumption

theorem balanced_leaf (frame : Option ReportFrame) : Balanced (leaf frame) :=
  .mk rfl fun _ h => absurd h List.not_mem_nil

theorem child_mem {key : ReportFrameKey} {children : List (ReportFrameKey × CallTree)}
    {c : CallTree} (h : child key children = some c) : c ∈ children.map Prod.snd := by
  obtain ⟨entry, hentry, rfl⟩ := Option.map_eq_some_iff.mp h
  exact List.mem_map_of_mem (List.mem_of_find?_eq_some hentry)

theorem mem_setChild {key : ReportFrameKey} {tree : CallTree}
    {children : List (ReportFrameKey × CallTree)} {c : CallTree}
    (h : c ∈ (setChild key tree children).map Prod.snd) :
    c = tree ∨ c ∈ children.map Prod.snd := by
  induction children with
  | nil => exact .inl (List.mem_singleton.mp h)
  | cons entry rest ih =>
    unfold setChild at h
    split_ifs at h with hkey
    · exact (List.mem_cons.mp h).imp_right (List.mem_cons_of_mem _)
    · rcases List.mem_cons.mp h with rfl | h
      · exact .inr List.mem_cons_self
      · exact (ih h).imp_right (List.mem_cons_of_mem _)

theorem child_cons (key : ReportFrameKey) (entry : ReportFrameKey × CallTree)
    (rest : List (ReportFrameKey × CallTree)) :
    child key (entry :: rest) = if entry.1 = key then some entry.2 else child key rest := by
  unfold child
  rw [List.find?_cons]
  by_cases h : entry.1 = key
  · simp [h]
  · simp [h]

theorem sum_setChild (key : ReportFrameKey) (tree : CallTree) (frame : Option ReportFrame)
    (children : List (ReportFrameKey × CallTree)) :
    (((setChild key tree children).map Prod.snd).map fun c => c.value.toInt).sum +
        ((child key children).getD (leaf frame)).value.toInt =
      ((children.map Prod.snd).map fun c => c.value.toInt).sum + tree.value.toInt := by
  induction children with
  | nil =>
    change tree.value.toInt + 0 + 0 = 0 + tree.value.toInt
    omega
  | cons entry rest ih =>
    rw [setChild, child_cons]
    split_ifs with hkey
    · simp only [List.map_cons, List.sum_cons, Option.getD_some]
      omega
    · simp only [List.map_cons, List.sum_cons]
      omega

theorem addFrames_value (value : Int64) (frames : List ReportFrame) (node : CallTree) :
    (addFrames value frames node).value = node.value := by
  cases frames <;> rfl

theorem addFrames_frame (value : Int64) (frames : List ReportFrame) (node : CallTree) :
    (addFrames value frames node).frame = node.frame := by
  cases frames <;> rfl

/-- A node whose value already has the new cost in it adds up again once the
frames below have it too. -/
theorem addFrames_balanced {value : Int64} {frames : List ReportFrame} {node : CallTree}
    (hexact : FramesExact value frames node)
    (hvalue : node.value.toInt = node.selfValue.toInt + node.childrenValue + value.toInt)
    (hchildren : ∀ c ∈ node.childNodes, Balanced c) :
    Balanced (addFrames value frames node) := by
  induction frames generalizing node with
  | nil =>
    refine .mk ?_ hchildren
    change node.value.toInt = (saturatingAddI64 node.selfValue value).toInt + node.childrenValue
    rw [saturatingAddI64_toInt hexact]
    omega
  | cons frame rest ih =>
    obtain ⟨next, hdef⟩ : ∃ next, (child (.ofFrame frame) node.children).getD
        (leaf (some frame)) = next := ⟨_, rfl⟩
    have hadd : addFrames value (frame :: rest) node =
        { node with children := setChild (.ofFrame frame) (addFrames value rest
            { next with value := saturatingAddI64 next.value value }) node.children } := by
      rw [← hdef]
      rfl
    have hstep : InI64 (next.value.toInt + value.toInt) ∧ FramesExact value rest
        { next with value := saturatingAddI64 next.value value } := by
      rw [← hdef]
      exact hexact
    have hbalanced : Balanced next := by
      rw [← hdef]
      cases hc : child (.ofFrame frame) node.children with
      | none => exact balanced_leaf _
      | some c => exact hchildren c (child_mem hc)
    have hnew : Balanced (addFrames value rest
        { next with value := saturatingAddI64 next.value value }) := by
      refine ih hstep.2 ?_ hbalanced.children
      change (saturatingAddI64 next.value value).toInt = _
      rw [saturatingAddI64_toInt hstep.1, hbalanced.here]
      rfl
    have hsum := sum_setChild (.ofFrame frame) (addFrames value rest
      { next with value := saturatingAddI64 next.value value }) (some frame) node.children
    rw [addFrames_value, saturatingAddI64_toInt hstep.1, hdef] at hsum
    rw [hadd]
    refine .mk ?_ fun c hc => ?_
    · change node.value.toInt = node.selfValue.toInt + List.sum _
      change node.value.toInt = node.selfValue.toInt +
        ((node.children.map Prod.snd).map fun c => c.value.toInt).sum + value.toInt at hvalue
      dsimp only [childNodes]
      omega
    · rcases mem_setChild hc with rfl | hc
      · exact hnew
      · exact hchildren c hc

theorem foldl_addStack_balanced {ranked : List StackStat} {root : CallTree}
    (hexact : StacksExact ranked root) (h : Balanced root) :
    Balanced (ranked.foldl addStack root) := by
  induction ranked generalizing root with
  | nil => exact h
  | cons stack rest ih =>
    obtain ⟨hroot, hframes, hrest⟩ := hexact
    refine ih hrest (addFrames_balanced hframes ?_ h.children)
    change (saturatingAddI64 root.value stack.value).toInt = _
    rw [saturatingAddI64_toInt hroot, h.here]
    rfl

theorem addStack_value (root : CallTree) (stack : StackStat) :
    (addStack root stack).value = saturatingAddI64 root.value stack.value :=
  addFrames_value _ _ _

theorem foldl_addStack_exact {ranked : List StackStat} {root : CallTree}
    (hexact : StacksExact ranked root) : (ranked.foldl addStack root).value.toInt =
      root.value.toInt + (ranked.map fun stack => stack.value.toInt).sum := by
  induction ranked generalizing root with
  | nil => exact (add_zero _).symm
  | cons stack rest ih =>
    obtain ⟨hroot, -, hrest⟩ := hexact
    rw [List.foldl_cons, ih hrest, addStack_value, saturatingAddI64_toInt hroot, List.map_cons,
      List.sum_cons, add_assoc]

theorem Balanced.reordered {a b : CallTree} (ha : Balanced a) (h : Reordered a b) :
    Balanced b := by
  induction a using CallTree.induct generalizing b with
  | h a ih =>
    cases h with
    | mk frame value selfValue perm matched =>
      refine .mk ?_ fun d hd => ?_
      · rw [← value, ← selfValue, ha.here]
        congr 1
        unfold childrenValue
        rw [(perm.map _).sum_eq]
        congr 1
        rw [← List.forall₂_eq_eq_eq, List.forall₂_map_left_iff, List.forall₂_map_right_iff]
        exact matched.imp fun _ _ hcd => congrArg Int64.toInt hcd.value
      · obtain ⟨c, hc, hcd⟩ := KeyedSum.forall₂_exists_left matched hd
        have hmem := perm.mem_iff.mpr hc
        exact ih c hmem (ha.children c hmem) hcd

inductive Framed : CallTree → Prop
  | mk {node : CallTree} (here : ∀ c ∈ node.childNodes, c.frame.isSome)
      (children : ∀ c ∈ node.childNodes, Framed c) : Framed node

theorem Framed.here {node : CallTree} (h : Framed node) :
    ∀ c ∈ node.childNodes, c.frame.isSome := by
  cases h
  assumption

theorem Framed.children {node : CallTree} (h : Framed node) :
    ∀ c ∈ node.childNodes, Framed c := by
  cases h
  assumption

theorem framed_leaf (frame : Option ReportFrame) : Framed (leaf frame) :=
  .mk (fun _ h => absurd h List.not_mem_nil) fun _ h => absurd h List.not_mem_nil

theorem addFrames_framed (value : Int64) (frames : List ReportFrame) {node : CallTree}
    (h : Framed node) : Framed (addFrames value frames node) := by
  induction frames generalizing node with
  | nil => exact .mk h.here h.children
  | cons frame rest ih =>
    have hnext : Framed ((child (.ofFrame frame) node.children).getD (leaf (some frame))) ∧
        ((child (.ofFrame frame) node.children).getD (leaf (some frame))).frame.isSome := by
      cases hc : child (.ofFrame frame) node.children with
      | none => exact ⟨framed_leaf _, rfl⟩
      | some c => exact ⟨h.children c (child_mem hc), h.here c (child_mem hc)⟩
    refine .mk (fun c hc => ?_) fun c hc => ?_
    · rcases mem_setChild hc with rfl | hc
      · rw [addFrames_frame]
        exact hnext.2
      · exact h.here c hc
    · rcases mem_setChild hc with rfl | hc
      · exact ih (.mk hnext.1.here hnext.1.children)
      · exact h.children c hc

theorem foldl_addStack_framed (ranked : List StackStat) {root : CallTree} (h : Framed root) :
    Framed (ranked.foldl addStack root) := by
  induction ranked generalizing root with
  | nil => exact h
  | cons stack rest ih => exact ih (addFrames_framed _ _ (.mk h.here h.children))

theorem Framed.reordered {a b : CallTree} (ha : Framed a) (h : Reordered a b) : Framed b := by
  induction a using CallTree.induct generalizing b with
  | h a ih =>
    cases h with
    | mk frame value selfValue perm matched =>
      refine .mk (fun d hd => ?_) fun d hd => ?_
      · obtain ⟨c, hc, hcd⟩ := KeyedSum.forall₂_exists_left matched hd
        rw [← hcd.frame]
        exact ha.here c (perm.mem_iff.mpr hc)
      · obtain ⟨c, hc, hcd⟩ := KeyedSum.forall₂_exists_left matched hd
        have hmem := perm.mem_iff.mpr hc
        exact ih c hmem (ha.children c hmem) hcd

end CallTree

open CallTree

def deeper (visit : ℕ × CallTree) : ℕ × CallTree := (visit.1 + 1, visit.2)

/-- A pre-order walk of the nodes below that are shown, each with its depth;
siblings stand by descending absolute value, which saturates. -/
inductive PreOrder (shown : CallTree → Bool) : CallTree → List (ℕ × CallTree) → Prop
  | mk {node : CallTree} {siblings : List CallTree} {under : List (List (ℕ × CallTree))}
      (perm : siblings.Perm (node.childNodes.filter shown))
      (descending : siblings.Pairwise fun a b =>
        saturatingAbsI64 b.value ≤ saturatingAbsI64 a.value)
      (visits : List.Forall₂ (PreOrder shown) siblings under) :
      PreOrder shown node
        (List.zipWith (fun child visits => (0, child) :: visits.map deeper) siblings under).flatten

section Walk

variable {F : Type} (floats : Floats F) (report : ProfileReport) (options : RenderOptions F)

def walkSiblings : List CallTree → List (ℕ × CallTree)
  | [] => []
  | child :: rest =>
    (0, child) :: (walkSiblings
      (rank compareChildren (eligibleChildren floats report options child))).map deeper ++
        walkSiblings rest
termination_by siblings => (siblings.map sizeOf).sum
decreasing_by
  · have h := sizeOf_rank_eligibleChildren floats report options child
    simp only [List.map_cons, List.sum_cons]
    omega
  · have h := child.sizeOf_childNodes
    simp only [List.map_cons, List.sum_cons]
    omega

def walk (node : CallTree) : List (ℕ × CallTree) :=
  walkSiblings floats report options
    (rank compareChildren (eligibleChildren floats report options node))

theorem walkSiblings_cons (child : CallTree) (rest : List CallTree) :
    walkSiblings floats report options (child :: rest) =
      (0, child) :: (walk floats report options child).map deeper ++
        walkSiblings floats report options rest := by
  rw [walkSiblings]
  rfl

theorem walkSiblings_eq (siblings : List CallTree) :
    walkSiblings floats report options siblings =
      (List.zipWith (fun child visits => (0, child) :: visits.map deeper) siblings
        (siblings.map (walk floats report options))).flatten := by
  induction siblings with
  | nil =>
    rw [walkSiblings]
    rfl
  | cons child rest ih =>
    rw [walkSiblings_cons, ih]
    rfl

theorem preOrder_walk (node : CallTree) :
    PreOrder (eligible floats report options) node (walk floats report options node) := by
  induction node using CallTree.induct with
  | h node ih =>
    have hperm := rank_perm compareChildren (eligibleChildren floats report options node)
    rw [walk, walkSiblings_eq]
    refine .mk hperm ?_ ?_
    · refine (rank_pairwise compareChildren _).imp fun {a b} hab => ?_
      exact Std.LawfulOrderOrd.isLE_compare _ _ |>.mp (Ordering.isLE_left_of_isLE_then hab)
    · rw [List.forall₂_map_right_iff, List.forall₂_same]
      intro child hchild
      exact ih child (List.mem_filter.mp (hperm.mem_iff.mp hchild)).1

theorem walkSiblings_length (siblings : List CallTree) :
    (walkSiblings floats report options siblings).length =
      (siblings.map fun node => 1 + (walk floats report options node).length).sum := by
  induction siblings with
  | nil =>
    rw [walkSiblings]
    rfl
  | cons child rest ih =>
    rw [walkSiblings_cons, List.length_append, List.length_cons, List.length_map, ih,
      List.map_cons, List.sum_cons]
    omega

theorem walk_length (node : CallTree) : (walk floats report options node).length =
    eligibleNodeCount floats report options node := by
  induction node using CallTree.induct with
  | h node ih =>
    have hperm := rank_perm compareChildren (eligibleChildren floats report options node)
    rw [walk, walkSiblings_length, eligibleNodeCount, countNodes_eq_sum, (hperm.map _).sum_eq]
    refine congrArg List.sum (List.map_congr_left fun child hchild => ?_)
    rw [ih child (List.mem_filter.mp hchild).1]

/-- Before a deeper row stands the row of its parent. -/
theorem walkSiblings_parent {siblings : List CallTree} {before after : List (ℕ × CallTree)}
    {depth : ℕ} {node : CallTree}
    (h : walkSiblings floats report options siblings = before ++ (depth, node) :: after) :
    (depth = 0 ∧ node ∈ siblings) ∨
      ∃ d parent, depth = d + 1 ∧ (d, parent) ∈ before ∧ node ∈ parent.childNodes := by
  induction siblings using walkSiblings.induct floats report options
    generalizing before after depth node with
  | case1 =>
    rw [walkSiblings] at h
    exact absurd h.symm (List.append_ne_nil_of_right_ne_nil _ (List.cons_ne_nil _ _))
  | case2 child rest ihBelow ihRest =>
    rw [walkSiblings_cons] at h
    cases before with
    | nil =>
      have hhead := (List.cons.inj h).1
      rw [Prod.mk.injEq] at hhead
      exact .inl ⟨hhead.1.symm, hhead.2 ▸ List.mem_cons_self⟩
    | cons first before =>
      obtain ⟨rfl, htail⟩ := List.cons.inj h
      rcases List.append_eq_append_iff.mp htail with ⟨seen, rfl, hrest⟩ | ⟨seen, hbelow, hafter⟩
      · rcases ihRest hrest with ⟨hdepth, hmem⟩ | ⟨d, parent, hdepth, hparent, hmem⟩
        · exact .inl ⟨hdepth, List.mem_cons_of_mem _ hmem⟩
        · exact .inr ⟨d, parent, hdepth,
            List.mem_cons_of_mem _ (List.mem_append_right _ hparent), hmem⟩
      · cases seen with
        | nil =>
          rw [List.append_nil] at hbelow
          have hstart : walkSiblings floats report options rest = [] ++ (depth, node) :: after :=
            hafter.symm
          rcases ihRest hstart with ⟨hdepth, hmem⟩ | ⟨d, parent, _, hparent, _⟩
          · exact .inl ⟨hdepth, List.mem_cons_of_mem _ hmem⟩
          · cases hparent
        | cons visit seen =>
          obtain ⟨rfl, -⟩ := List.cons.inj hafter
          obtain ⟨above, visits, hwalk, habove, hvisits⟩ := List.map_eq_append_iff.mp hbelow
          obtain ⟨inner, later, rfl, hinner, -⟩ := List.map_eq_cons_iff.mp hvisits
          have hpair := Prod.mk.inj hinner
          right
          rcases ihBelow hwalk with ⟨hdepth, hmem⟩ | ⟨d, parent, hdepth, hparent, hmem⟩
          · refine ⟨0, child, ?_, List.mem_cons_self, ?_⟩
            · rw [← hpair.1, hdepth]
            · rw [← hpair.2]
              exact (List.mem_filter.mp ((rank_perm _ _).mem_iff.mp hmem)).1
          · refine ⟨d + 1, parent, ?_, List.mem_cons_of_mem _ ?_, ?_⟩
            · rw [← hpair.1, hdepth]
            · rw [← habove]
              exact List.mem_map_of_mem (f := deeper) hparent
            · rw [← hpair.2]
              exact hmem

/-- The row shows the node. -/
def RowOf (visit : ℕ × CallTree) (row : String) : Prop :=
  ∃ start connector frame, visit.2.frame = some frame ∧
    row = nodeLine floats report start connector visit.2 frame

theorem RowOf.of_deeper {visits : List (ℕ × CallTree)} {rows : List String}
    (h : List.Forall₂ (RowOf floats report) visits rows) :
    List.Forall₂ (RowOf floats report) (visits.map deeper) rows :=
  List.forall₂_map_left_iff.mpr h

/-- The loop over the siblings shows their walk until the limit is reached. -/
theorem renderSiblings_rows {siblings : List CallTree}
    (hframed : ∀ c ∈ siblings, c.frame.isSome ∧ Framed c) (start : String) (out : TreeLines) :
    ∃ rows, renderSiblings floats report options siblings start out =
        ⟨out.lines ++ rows, out.emitted + rows.length⟩ ∧
      List.Forall₂ (RowOf floats report)
        ((walkSiblings floats report options siblings).take (options.limit - out.emitted))
        rows := by
  induction siblings using walkSiblings.induct floats report options generalizing start out with
  | case1 =>
    rw [renderSiblings, walkSiblings, List.take_nil]
    exact ⟨[], by rw [List.append_nil]; rfl, .nil⟩
  | case2 child rest ihBelow ihRest =>
    rw [renderSiblings]
    by_cases hlimit : options.limit ≤ out.emitted
    · rw [if_pos hlimit, Nat.sub_eq_zero_of_le hlimit, List.take_zero]
      exact ⟨[], by rw [List.append_nil]; rfl, .nil⟩
    · rw [if_neg hlimit, walkSiblings_cons]
      obtain ⟨hsome, hchild⟩ := hframed child List.mem_cons_self
      obtain ⟨frame, hframe⟩ := Option.isSome_iff_exists.mp hsome
      have hunder : ∀ c ∈ rank compareChildren (eligibleChildren floats report options child),
          c.frame.isSome ∧ Framed c := by
        intro c hc
        have hmem := (List.mem_filter.mp ((rank_perm _ _).mem_iff.mp hc)).1
        exact ⟨hchild.here c hmem, hchild.children c hmem⟩
      dsimp only
      rw [hframe]
      dsimp only
      obtain ⟨rows, hrows, hvisits⟩ := ihBelow hunder
        (start ++ if rest.isEmpty = true then "   " else "│  ")
        ⟨out.lines ++ [nodeLine floats report start
          (if rest.isEmpty = true then "└─ " else "├─ ") child frame], out.emitted + 1⟩
      obtain ⟨later, hlater, hrest⟩ := ihRest
        (fun c hc => hframed c (List.mem_cons_of_mem _ hc)) start
        ⟨out.lines ++ [nodeLine floats report start
          (if rest.isEmpty = true then "└─ " else "├─ ") child frame] ++ rows,
          out.emitted + 1 + rows.length⟩
      refine ⟨nodeLine floats report start
        (if rest.isEmpty = true then "└─ " else "├─ ") child frame :: rows ++ later, ?_, ?_⟩
      · rw [hrows, hlater]
        congr 1
        · simp
        · rw [List.length_append, List.length_cons]
          dsimp only
          omega
      · have hlength := hvisits.length_eq
        rw [List.length_take] at hlength
        obtain ⟨room, hroom⟩ : ∃ room, options.limit - out.emitted = room + 1 :=
          ⟨options.limit - out.emitted - 1, by omega⟩
        have hbelow : options.limit - (out.emitted + 1) = room := by omega
        dsimp only at hvisits hlength hrest
        rw [hbelow] at hvisits hlength
        have hafter : options.limit - (out.emitted + 1 + rows.length) =
            room - ((walk floats report options child).map deeper).length := by
          change min room (walk floats report options child).length = rows.length at hlength
          rw [List.length_map]
          omega
        rw [hafter] at hrest
        rw [hroom, List.cons_append, List.take_succ_cons, List.take_append, List.cons_append,
          ← List.map_take]
        exact .cons ⟨start, _, frame, hframe, rfl⟩
          (List.rel_append (RowOf.of_deeper floats report hvisits) hrest)

/-- The value and the self cost of the row of all samples. -/
def rootSelfValue (tree : CallTree) : Int64 :=
  saturatingSubI64 report.totalValue (saturatingAbsI64 tree.value)

/-- The row of all samples. -/
def rootRow (tree : CallTree) : String :=
  formatValue floats report.totalValue report.sampleUnit ++ " (100.00%) [self: " ++
    formatValue floats (rootSelfValue report tree) report.sampleUnit ++ "]  all samples"

def omittedLine (omitted : ℕ) : List String :=
  if 0 < omitted then
    ["… " ++ toString omitted ++ " additional call-tree node" ++
      (if omitted = 1 then "" else "s") ++ " omitted by --limit"]
  else []

/-- The text around the lines of the tree. -/
def treeText (lines : List String) : String :=
  let body := "\n".intercalate lines
  match options.format with
  | .terminal =>
    "Direction: callers at the top, callees beneath them.\n" ++
      "Row format: inclusive cost (percent of total) [self cost] function.\n" ++
      "At most " ++ toString options.limit ++
      " call-tree nodes are shown, hottest branches first.\n\n" ++ body ++ "\n"
  | .markdown =>
    "- Direction: callers at the top, callees beneath them.\n" ++
      "- Row format: `inclusive cost (percent of total) [self cost] function`.\n" ++
      "- Inclusive cost includes samples in the function and its descendants.\n" ++
      "- Self cost includes samples attributed directly to the function.\n" ++
      "- At most " ++ toString options.limit ++
      " call-tree nodes are shown, hottest branches first.\n" ++
      (if floats.lt floats.zero options.minPercent then
        "- Nodes below " ++ floats.fixed2 options.minPercent ++ "% of total cost are omitted.\n"
      else "") ++
      "\n```text\n" ++ body ++ "\n```\n"

theorem renderTree_eq (tree : CallTree) {rows : List String}
    (h : renderChildren floats report options tree "" ⟨[rootRow floats report tree], 0⟩ =
      ⟨rootRow floats report tree :: rows, rows.length⟩) :
    renderTree floats report options tree = treeText floats options
      (rootRow floats report tree :: rows ++
        omittedLine (eligibleNodeCount floats report options tree - rows.length)) := by
  have hlines : (if 0 < eligibleNodeCount floats report options tree - rows.length then
      (rootRow floats report tree :: rows) ++ ["… " ++
        toString (eligibleNodeCount floats report options tree - rows.length) ++
        " additional call-tree node" ++
        (if eligibleNodeCount floats report options tree - rows.length = 1 then "" else "s") ++
        " omitted by --limit"]
      else rootRow floats report tree :: rows) = rootRow floats report tree :: rows ++
        omittedLine (eligibleNodeCount floats report options tree - rows.length) := by
    unfold omittedLine
    split_ifs
    · rfl
    · rfl
    · rw [List.append_nil]
  unfold renderTree
  dsimp only
  rw [show (⟨[formatValue floats report.totalValue report.sampleUnit ++ " (100.00%) [self: " ++
    formatValue floats (saturatingSubI64 report.totalValue (saturatingAbsI64 tree.value))
      report.sampleUnit ++ "]  all samples"], 0⟩ : TreeLines) =
        ⟨[rootRow floats report tree], 0⟩ from rfl, h]
  dsimp only
  rw [hlines]
  rfl

/-- The rows of the text are the start of a pre-order walk of the nodes that are shown. -/
structure Truncated (tree : CallTree) (visits : List (ℕ × CallTree)) (rows : List String)
    (omitted : ℕ) : Prop where
  preOrder : PreOrder (eligible floats report options) tree visits
  visited : visits.length = eligibleNodeCount floats report options tree
  text : renderTree floats report options tree =
    treeText floats options (rootRow floats report tree :: rows ++ omittedLine omitted)
  shown : List.Forall₂ (RowOf floats report) (visits.take options.limit) rows
  emitted : rows.length = min options.limit (eligibleNodeCount floats report options tree)
  counted : rows.length + omitted = eligibleNodeCount floats report options tree
  parents : ∀ before depth node after,
    visits.take options.limit = before ++ (depth, node) :: after →
      (depth = 0 ∧ node ∈ tree.childNodes) ∨
        ∃ d parent, depth = d + 1 ∧ (d, parent) ∈ before ∧ node ∈ parent.childNodes

theorem truncated_of_framed {tree : CallTree} (h : Framed tree) :
    ∃ rows omitted, Truncated floats report options tree (walk floats report options tree) rows
      omitted := by
  have hframed : ∀ c ∈ rank compareChildren (eligibleChildren floats report options tree),
      c.frame.isSome ∧ Framed c := by
    intro c hc
    have hmem := (List.mem_filter.mp ((rank_perm _ _).mem_iff.mp hc)).1
    exact ⟨h.here c hmem, h.children c hmem⟩
  obtain ⟨rows, hrows, hshown⟩ := renderSiblings_rows floats report options hframed ""
    ⟨[rootRow floats report tree], 0⟩
  have hlength := hshown.length_eq
  change List.Forall₂ _ ((walk floats report options tree).take (options.limit - 0)) rows
    at hshown
  change ((walk floats report options tree).take (options.limit - 0)).length = _ at hlength
  rw [Nat.sub_zero] at hshown hlength
  rw [List.length_take, walk_length] at hlength
  refine ⟨rows, eligibleNodeCount floats report options tree - rows.length,
    preOrder_walk floats report options tree, walk_length floats report options tree, ?_, hshown,
    hlength.symm, by omega, fun before depth node after hsplit => ?_⟩
  · apply renderTree_eq
    rw [Nat.zero_add] at hrows
    exact hrows
  · have hwhole : walk floats report options tree = before ++ (depth, node) :: (after ++
        (walk floats report options tree).drop options.limit) := by
      rw [← List.cons_append, ← List.append_assoc, ← hsplit, List.take_append_drop]
    rcases walkSiblings_parent floats report options hwhole with ⟨hdepth, hmem⟩ | hparent
    · exact .inl ⟨hdepth, (List.mem_filter.mp ((rank_perm _ _).mem_iff.mp hmem)).1⟩
    · exact .inr hparent

/-- Where no addition saturates every node is its own cost and that of its children, the root that
of all stacks, and the rows are the start of a pre-order walk, with the rest counted. -/
theorem call_tree_truncates (ranked : List StackStat) {tree : CallTree}
    (htree : Reordered (fromStacks ranked) tree) :
    (StacksExact ranked (leaf none) → Balanced tree ∧
      tree.value.toInt = (ranked.map fun stack => stack.value.toInt).sum) ∧
    ∃ visits rows omitted, Truncated floats report options tree visits rows omitted := by
  constructor
  · intro hexact
    refine ⟨(foldl_addStack_balanced hexact (balanced_leaf none)).reordered htree, ?_⟩
    have hvalue := foldl_addStack_exact hexact
    change _ = 0 + _ at hvalue
    rw [zero_add] at hvalue
    rw [← htree.value]
    exact hvalue
  · have hframed := (foldl_addStack_framed ranked (framed_leaf none)).reordered htree
    obtain ⟨rows, omitted, h⟩ := truncated_of_framed floats report options hframed
    exact ⟨_, rows, omitted, h⟩

end Walk

def twoCallees : ProfileReport where
  sampleType := "cpu"
  sampleUnit := "nanoseconds"
  availableSampleTypes := ["cpu"]
  durationNanos := 0
  sampleRecords := 3
  totalValue := 14
  topFrames := []
  topStacks := [⟨[⟨"main", "a.rs", 1⟩, ⟨"walk", "a.rs", 5⟩], 7⟩, ⟨[⟨"main", "a.rs", 1⟩], 4⟩,
    ⟨[⟨"main", "a.rs", 1⟩, ⟨"visit", "b.rs", 9⟩], -3⟩]

theorem call_tree_truncates_twoCallees : Balanced (fromStacks twoCallees.topStacks) ∧
    (fromStacks twoCallees.topStacks).value.toInt = 8 ∧
    ∃ visits rows omitted, Truncated hundredths twoCallees ⟨.terminal, 2, 0⟩
      (fromStacks twoCallees.topStacks) visits rows omitted := by
  obtain ⟨hbalanced, htruncated⟩ := call_tree_truncates hundredths twoCallees ⟨.terminal, 2, 0⟩
    twoCallees.topStacks (Matches.refl (fun _ => rfl) _)
  obtain ⟨hsums, hvalue⟩ := hbalanced (by decide)
  exact ⟨hsums, hvalue, htruncated⟩

end PProfessor.Report
