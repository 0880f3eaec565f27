import PProfessor.CostTree
import PProfessor.KitTrie
import PProfessor.ReportRootRow

set_option autoImplicit false

/-!
# What the nodes of the call tree cost

Nothing saturates where the absolute values of the stacks add up below `2 ^ 63`, and
the nodes along a path of function names then have the values of the stacks through it.
-/
namespace PProfessor.Report.CallTree
open CheckedArith CostTree KeyedSum

def shownName (node : CallTree) : String := (node.frame.map ReportFrame.function).getD ""

def spelledChild (canon : String → String) (key : String) (child : CallTree) :
    String × String × CallTree :=
  (canon (key ++ "/" ++ child.shownName), key ++ "/" ++ child.shownName, child)

def spelledView (canon : String → String) : View (String × CallTree) String where
  children node := node.2.childNodes.map (spelledChild canon node.1)
  cost node := node.2.value.toInt
  own node := node.2.selfValue.toInt

inductive Sound : ℤ → CallTree → Prop
  | mk {budget : ℤ} {node : CallTree} (value : |node.value.toInt| ≤ budget)
      (own : |node.selfValue.toInt| ≤ budget)
      (frames : ∀ entry ∈ node.children, entry.2.frame.map ReportFrameKey.ofFrame = some entry.1)
      (children : ∀ entry ∈ node.children, Sound budget entry.2) : Sound budget node

namespace Sound

variable {budget : ℤ} {node : CallTree}

theorem value (h : Sound budget node) : |node.value.toInt| ≤ budget := by
  cases h
  assumption

theorem own (h : Sound budget node) : |node.selfValue.toInt| ≤ budget := by
  cases h
  assumption

theorem frames (h : Sound budget node) :
    ∀ entry ∈ node.children, entry.2.frame.map ReportFrameKey.ofFrame = some entry.1 := by
  cases h
  assumption

theorem children (h : Sound budget node) : ∀ entry ∈ node.children, Sound budget entry.2 := by
  cases h
  assumption

theorem mono {budget' : ℤ} (h : Sound budget node) (hle : budget ≤ budget') :
    Sound budget' node := by
  induction h with
  | mk value own frames _ ih => exact .mk (value.trans hle) (own.trans hle) frames ih

theorem leaf (hbudget : 0 ≤ budget) (frame : Option ReportFrame) :
    Sound budget (CallTree.leaf frame) :=
  .mk (by simpa [CallTree.leaf] using hbudget) (by simpa [CallTree.leaf] using hbudget)
    (by simp [CallTree.leaf]) (by simp [CallTree.leaf])

end Sound

theorem setChild_of_none {key : ReportFrameKey} {children : List (ReportFrameKey × CallTree)}
    (h : child key children = none) (tree : CallTree) :
    setChild key tree children = children ++ [(key, tree)] := by
  induction children with
  | nil => rfl
  | cons entry rest ih =>
    rw [child_cons] at h
    split_ifs at h with hkey
    simp [setChild, hkey, ih h]

theorem setChild_of_some {key : ReportFrameKey} {children : List (ReportFrameKey × CallTree)}
    {old : CallTree} (h : child key children = some old) : ∃ before after,
      children = before ++ (key, old) :: after ∧
      ∀ tree, setChild key tree children = before ++ (key, tree) :: after := by
  induction children with
  | nil => cases h
  | cons entry rest ih =>
    rw [child_cons] at h
    split_ifs at h with hkey
    · refine ⟨[], rest, ?_, fun tree => if_pos hkey⟩
      rw [← hkey, ← Option.some.inj h]
      rfl
    · obtain ⟨before, after, hchildren, hset⟩ := ih h
      refine ⟨entry :: before, after, by simp [hchildren], fun tree => ?_⟩
      simp [setChild, hkey, hset]

theorem saturatingAddI64_sound {budget : ℤ} {a value : Int64} (ha : |a.toInt| ≤ budget)
    (hfits : budget + |value.toInt| < 2 ^ 63) :
    (saturatingAddI64 a value).toInt = a.toInt + value.toInt ∧
      |a.toInt + value.toInt| ≤ budget + |value.toInt| := by
  have hle : |a.toInt + value.toInt| ≤ budget + |value.toInt| :=
    (abs_add_le _ _).trans (by omega)
  have hbounds := abs_le.mp hle
  exact ⟨saturatingAddI64_toInt ⟨by omega, by omega⟩, hle⟩

theorem exists_next {budget : ℤ} {node : CallTree} (h : Sound budget node) (frame : ReportFrame) :
    ∃ before after next,
      (child (.ofFrame frame) node.children).getD (leaf (some frame)) = next ∧
      Sound budget next ∧ next.frame.map ReportFrameKey.ofFrame = some (.ofFrame frame) ∧
      (node.children = before ++ (.ofFrame frame, next) :: after ∨
        node.children = before ++ after ∧ next = leaf (some frame)) ∧
      (∀ entry ∈ before ++ after, entry ∈ node.children) ∧
      ∀ tree, setChild (.ofFrame frame) tree node.children =
        before ++ (.ofFrame frame, tree) :: after := by
  have hbudget : 0 ≤ budget := (abs_nonneg _).trans h.value
  cases hchild : child (.ofFrame frame) node.children with
  | none =>
    refine ⟨node.children, [], leaf (some frame), rfl, .leaf hbudget _, rfl, Or.inr ⟨?_, rfl⟩, ?_,
      setChild_of_none hchild⟩
    · rw [List.append_nil]
    · simp
  | some next =>
    obtain ⟨before, after, hchildren, hset⟩ := setChild_of_some hchild
    have hmem : (.ofFrame frame, next) ∈ node.children := by simp [hchildren]
    refine ⟨before, after, next, rfl, h.children _ hmem, h.frames _ hmem, Or.inl hchildren, ?_,
      hset⟩
    intro entry hentry
    rw [hchildren]
    rcases List.mem_append.mp hentry with hentry | hentry
    · exact List.mem_append_left _ hentry
    · exact List.mem_append_right _ (List.mem_cons_of_mem _ hentry)

theorem shownName_of_frame {node : CallTree} {frame : ReportFrame}
    (h : node.frame.map ReportFrameKey.ofFrame = some (.ofFrame frame)) :
    node.shownName = frame.function := by
  obtain ⟨shown, hshown, hkey⟩ := Option.map_eq_some_iff.mp h
  have hfunction : shown.function = frame.function := congrArg ReportFrameKey.function hkey
  simp [shownName, hshown, hfunction]

theorem forall_mem_child {P : ReportFrameKey × CallTree → Prop}
    {before after : List (ReportFrameKey × CallTree)} {entry : ReportFrameKey × CallTree}
    (hother : ∀ e ∈ before ++ after, P e) (hentry : P entry) :
    ∀ e ∈ before ++ entry :: after, P e := by
  intro e he
  simp only [List.mem_append, List.mem_cons] at he hother
  rcases he with he | rfl | he
  · exact hother e (Or.inl he)
  · exact hentry
  · exact hother e (Or.inr he)

variable {canon : String → String}

theorem addFrames_adds {budget : ℤ} {value total : Int64} {frames : List ReportFrame}
    {key : String} {node : CallTree} (h : Sound budget node)
    (hfits : budget + |value.toInt| < 2 ^ 63)
    (htotal : total.toInt = node.value.toInt + value.toInt) :
    (spelledView canon).Adds value.toInt
        (Kit.keysFrom canon key (frames.map ReportFrame.function)) (key, node)
        (key, addFrames value frames { node with value := total }) ∧
      Sound (budget + |value.toInt|) (addFrames value frames { node with value := total }) := by
  have hvalue := saturatingAddI64_sound h.value hfits
  have hle : budget ≤ budget + |value.toInt| := by
    have hnonneg := abs_nonneg value.toInt
    omega
  induction frames generalizing key node total with
  | nil =>
    obtain ⟨hown, hownLe⟩ := saturatingAddI64_sound h.own hfits
    refine ⟨.here htotal hown rfl, .mk ?_ ?_ h.frames fun entry hentry => ?_⟩
    · exact (congrArg abs htotal).trans_le hvalue.2
    · exact (congrArg abs hown).trans_le hownLe
    · exact (h.children entry hentry).mono hle
  | cons frame rest ih =>
    obtain ⟨before, after, next, hnext, hsound, hframe, hold, hother, hset⟩ := exists_next h frame
    have hnextValue := saturatingAddI64_sound hsound.value hfits
    obtain ⟨hadds, hsound'⟩ := @ih _ (key ++ "/" ++ frame.function) _ hsound hnextValue.1
      hnextValue
    have hnewFrame : (addFrames value rest
        { next with value := saturatingAddI64 next.value value }).frame = next.frame :=
      addFrames_frame _ _ _
    generalize htree : addFrames value rest
      { next with value := saturatingAddI64 next.value value } = tree at *
    have hnode : addFrames value (frame :: rest) { node with value := total } =
        { node with value := total, children := before ++ (.ofFrame frame, tree) :: after } := by
      rw [← hset, ← htree, ← hnext]
      rfl
    have hname := shownName_of_frame hframe
    have hname' : tree.shownName = frame.function := shownName_of_frame (hnewFrame ▸ hframe)
    rw [hnode]
    refine ⟨.deeper ((before.map Prod.snd).map (spelledChild canon key))
      ((after.map Prod.snd).map (spelledChild canon key)) htotal rfl ?_ ?_ hadds,
      .mk ?_ (h.own.trans hle) ?_ ?_⟩
    · rcases hold with hold | ⟨hold, hleaf⟩
      · left
        simp [spelledView, spelledChild, childNodes, hold, hname]
      · right
        refine ⟨by simp [spelledView, childNodes, hold], ?_⟩
        rw [hleaf]
        exact ⟨rfl, rfl, rfl⟩
    · simp [spelledView, spelledChild, childNodes, hname']
    · exact (congrArg abs htotal).trans_le hvalue.2
    · refine forall_mem_child (fun entry hentry => h.frames entry (hother entry hentry)) ?_
      rw [hnewFrame]
      exact hframe
    · exact forall_mem_child (fun entry hentry => (h.children entry (hother entry hentry)).mono hle)
        hsound'

theorem addStack_adds (canon : String → String) {budget : ℤ} {root : CallTree} (stack : StackStat)
    (h : Sound budget root)
    (hfits : budget + |stack.value.toInt| < 2 ^ 63) :
    (spelledView canon).Adds stack.value.toInt
        (Kit.keysFrom canon "root" (stack.frames.map ReportFrame.function)) ("root", root)
        ("root", addStack root stack) ∧
      Sound (budget + |stack.value.toInt|) (addStack root stack) :=
  addFrames_adds h hfits (saturatingAddI64_sound h.value hfits).1

def spelledStack (canon : String → String) (stack : StackStat) : List String :=
  Kit.keysFrom canon "root" (stack.frames.map ReportFrame.function)

def stackValue (stack : StackStat) : ℤ := stack.value.toInt

theorem addStacks_shows {budget : ℤ} {ranked done : List StackStat} {root : CallTree}
    (h : Sound budget root) (hfits : budget + (ranked.map fun s => |s.value.toInt|).sum < 2 ^ 63)
    (hshows : (spelledView canon).Shows (spelledStack canon) stackValue done ("root", root)) :
    (spelledView canon).Shows (spelledStack canon) stackValue (done ++ ranked)
      ("root", ranked.foldl addStack root) := by
  induction ranked generalizing budget done root with
  | nil => simpa using hshows
  | cons stack rest ih =>
    rw [List.map_cons, List.sum_cons] at hfits
    have hrest : 0 ≤ (rest.map fun s => |s.value.toInt|).sum :=
      List.sum_nonneg (by simp)
    obtain ⟨hadds, hsound⟩ := addStack_adds canon stack h (by omega)
    have hnext := ih hsound (by omega) (hshows.adds hadds)
    rwa [List.append_assoc] at hnext

theorem fromStacks_shows (canon : String → String) {ranked : List StackStat}
    (hfits : (ranked.map fun s => |s.value.toInt|).sum < 2 ^ 63) :
    (spelledView canon).Shows (spelledStack canon) stackValue ranked
      ("root", fromStacks ranked) :=
  addStacks_shows (.leaf le_rfl none) ((zero_add _).trans_lt hfits)
    (View.Blank.shows ⟨rfl, rfl, rfl⟩)

theorem sumAt_cons (f : String × CallTree → ℤ) (k : String) (rest : List String) (key : String)
    (node : CallTree) : (spelledView canon).sumAt f (k :: rest) (key, node) =
      total (fun child => (spelledChild canon key child).1)
        (fun child => (spelledView canon).sumAt f rest (spelledChild canon key child).2)
        node.childNodes k := by
  simp only [View.sumAt, spelledView, total_map]

theorem Reordered.spelledChild_eq (canon : String → String) {a b : CallTree} (h : Reordered a b)
    (key : String) :
    (spelledChild canon key a).1 = (spelledChild canon key b).1 ∧
      (spelledChild canon key a).2.1 = (spelledChild canon key b).2.1 := by
  simp [spelledChild, shownName, h.frame]

theorem Reordered.sumAt_eq {f : String × CallTree → ℤ}
    (hf : ∀ key a b, Reordered a b → f (key, a) = f (key, b)) (path : List String) (key : String)
    {a b : CallTree} (h : Reordered a b) :
    (spelledView canon).sumAt f path (key, a) = (spelledView canon).sumAt f path (key, b) := by
  induction path generalizing key a b with
  | nil => exact hf key a b h
  | cons k rest ih =>
    cases h with
    | mk frame value selfValue perm matched =>
      rw [sumAt_cons, sumAt_cons, total_perm _ _ perm]
      clear perm
      generalize b.childNodes = children at matched ⊢
      induction matched with
      | nil => rfl
      | @cons c d _ _ hchild _ ihrest =>
        obtain ⟨hlabel, hkey⟩ := Reordered.spelledChild_eq canon hchild key
        have hbelow : (spelledView canon).sumAt f rest (spelledChild canon key c).2 =
            (spelledView canon).sumAt f rest (spelledChild canon key d).2 := by
          refine (ih (spelledChild canon key c).2.1 hchild).trans ?_
          rw [hkey]
          rfl
        rw [total_cons, total_cons, ihrest, hlabel, hbelow]

end PProfessor.Report.CallTree
