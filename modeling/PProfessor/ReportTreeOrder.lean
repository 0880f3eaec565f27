import PProfessor.ReportTree

set_option autoImplicit false

/-!
# The order of the children does not show

Where siblings that tie are alike, a call tree is rendered the same in whatever
order its maps are traversed.
-/
namespace PProfessor.Report
open Ranking

namespace CallTree

theorem induct {motive : CallTree → Prop}
    (h : ∀ node : CallTree, (∀ child ∈ node.childNodes, motive child) → motive node)
    (node : CallTree) : motive node := by
  apply h node
  intro child hchild
  have hlt : sizeOf child < sizeOf node := by
    have hsum := node.sizeOf_childNodes
    have hle := List.single_le_sum (l := node.childNodes.map sizeOf) (by simp) _
      (List.mem_map_of_mem hchild)
    omega
  exact induct h child
termination_by node

/-- The same tree up to the order of the children and to what tells frames apart. -/
inductive Matches (same : Option ReportFrame → Option ReportFrame → Prop) :
    CallTree → CallTree → Prop
  | mk {a b : CallTree} (frame : same a.frame b.frame) (value : a.value = b.value)
      (selfValue : a.selfValue = b.selfValue) {children : List CallTree}
      (perm : a.childNodes.Perm children)
      (matched : List.Forall₂ (Matches same) children b.childNodes) : Matches same a b

/-- The tree with its maps traversed in other orders. -/
abbrev Reordered : CallTree → CallTree → Prop := Matches Eq

/-- Trees that differ in the files and lines of their frames at most. -/
abbrev Alike : CallTree → CallTree → Prop :=
  Matches fun f g => f.map ReportFrame.function = g.map ReportFrame.function

/-- Siblings that the ranking leaves tied are alike. -/
inductive TiesAlike : CallTree → Prop
  | mk {node : CallTree} (here : ∀ a ∈ node.childNodes, ∀ b ∈ node.childNodes,
        compareChildren a b = .eq → Alike a b)
      (below : ∀ child ∈ node.childNodes, TiesAlike child) : TiesAlike node

variable {same : Option ReportFrame → Option ReportFrame → Prop}

theorem Matches.mono {same' : Option ReportFrame → Option ReportFrame → Prop}
    (hsame : ∀ f g, same f g → same' f g) {a b : CallTree} (h : Matches same a b) :
    Matches same' a b := by
  induction a using CallTree.induct generalizing b with
  | h a ih =>
    cases h with
    | mk frame value selfValue perm matched =>
      refine .mk (hsame _ _ frame) value selfValue perm ?_
      refine (forall₂_mem matched).imp ?_
      rintro c d ⟨hc, -, hcd⟩
      exact ih c (perm.mem_iff.mpr hc) hcd

theorem Matches.trans (hsame : ∀ f g k, same f g → same g k → same f k) {a b c : CallTree}
    (h : Matches same a b) (h' : Matches same b c) : Matches same a c := by
  induction a using CallTree.induct generalizing b c with
  | h a ih =>
    cases h with
    | mk frame value selfValue perm matched =>
      cases h' with
      | mk frame' value' selfValue' perm' matched' =>
        have hcomp : Relation.Comp (List.Forall₂ (Matches same)) List.Perm _ _ :=
          ⟨_, matched, perm'⟩
        rw [List.forall₂_comp_perm_eq_perm_comp_forall₂] at hcomp
        obtain ⟨middle, hperm, hmiddle⟩ := hcomp
        refine .mk (hsame _ _ _ frame frame') (value.trans value') (selfValue.trans selfValue')
          (perm.trans hperm) ?_
        refine forall₂_comp ?_ (forall₂_mem hmiddle) matched'
        rintro x y z ⟨hx, -, hxy⟩ hyz
        exact ih x ((perm.trans hperm).mem_iff.mpr hx) hxy hyz

theorem Matches.frame {a b : CallTree} (h : Matches same a b) : same a.frame b.frame := by
  cases h
  assumption

theorem Matches.value {a b : CallTree} (h : Matches same a b) : a.value = b.value := by
  cases h
  assumption

theorem Matches.selfValue {a b : CallTree} (h : Matches same a b) :
    a.selfValue = b.selfValue := by
  cases h
  assumption

theorem Matches.refl (hsame : ∀ f, same f f) (a : CallTree) : Matches same a a := by
  induction a using CallTree.induct with
  | h a ih => exact .mk (hsame _) rfl rfl (.refl _) (List.forall₂_same.mpr ih)

theorem Reordered.alike {a b : CallTree} (h : Reordered a b) : Alike a b :=
  Matches.mono (fun _ _ hfg => congrArg (Option.map ReportFrame.function) hfg) h

theorem Alike.trans {a b c : CallTree} (h : Alike a b) (h' : Alike b c) : Alike a c := by
  apply Matches.trans _ h h'
  exact fun _ _ _ => Eq.trans

theorem TiesAlike.here {node : CallTree} (h : TiesAlike node) : ∀ a ∈ node.childNodes,
    ∀ b ∈ node.childNodes, compareChildren a b = .eq → Alike a b := by
  cases h
  assumption

theorem TiesAlike.children {node : CallTree} (h : TiesAlike node) :
    ∀ child ∈ node.childNodes, TiesAlike child := by
  cases h
  assumption

theorem TiesAlike.of_leaf {node : CallTree} (h : node.childNodes = []) : TiesAlike node :=
  .mk (by simp [h]) (by simp [h])

theorem TiesAlike.of_child {node child : CallTree} (h : node.childNodes = [child])
    (hchild : TiesAlike child) : TiesAlike node := by
  refine .mk ?_ ?_
  · rw [h]
    intro a ha b hb _
    rw [List.mem_singleton.mp ha, List.mem_singleton.mp hb]
    apply Matches.refl
    exact fun _ => rfl
  · rw [h]
    intro c hc
    rw [List.mem_singleton.mp hc]
    exact hchild

end CallTree

open CallTree

instance : Std.TransCmp compareChildren := by
  have h : Std.TransCmp (compareLex
      (fun a b : CallTree => compareOn (fun t => saturatingAbsI64 t.value) b a)
      (compareOn fun t : CallTree => t.frame.map ReportFrame.function)) := inferInstance
  exact h

theorem compareChildren_of_alike {a b : CallTree} (h : Alike a b) : compareChildren a b = .eq := by
  unfold compareChildren
  rw [h.value, h.frame, Std.ReflOrd.compare_self, Std.ReflOrd.compare_self]
  rfl

section Rendering

variable {F : Type} (floats : Floats F) (report : ProfileReport) (options : RenderOptions F)

theorem eligible_of_alike {a b : CallTree} (h : Alike a b) :
    eligible floats report options a = eligible floats report options b := by
  rw [eligible, eligible, h.value]

theorem eligibleChildren_of_alike {a b : CallTree} (h : Alike a b) : ∃ children,
    (eligibleChildren floats report options a).Perm children ∧
      List.Forall₂ Alike children (eligibleChildren floats report options b) := by
  cases h with
  | mk _ _ _ perm matched =>
    refine ⟨_, perm.filter _, List.rel_filter ?_ matched⟩
    intro c d hcd
    change eligible floats report options c = true ↔ eligible floats report options d = true
    rw [eligible_of_alike floats report options hcd]

theorem rank_of_alike {a b : CallTree} (ha : TiesAlike a) (h : Alike a b) :
    List.Forall₂ Alike (rank compareChildren (eligibleChildren floats report options a))
      (rank compareChildren (eligibleChildren floats report options b)) := by
  obtain ⟨children, hperm, hmatched⟩ := eligibleChildren_of_alike floats report options h
  refine rank_forall₂ compareChildren (R := Alike) (fun _ _ _ => Alike.trans)
    (fun _ _ => compareChildren_of_alike) ?_ hperm hmatched
  intro c hc d hd
  exact ha.here c (List.mem_filter.mp hc).1 d (List.mem_filter.mp hd).1

theorem nodeLine_of_alike {a b : CallTree} (h : Alike a b) (start connector : String)
    {f g : ReportFrame} (hfg : f.function = g.function) :
    nodeLine floats report start connector a f = nodeLine floats report start connector b g := by
  have hvalue := h.value
  have hself := h.selfValue
  unfold nodeLine
  rw [hvalue, hself, hfg]

theorem renderSiblings_congr {as bs : List CallTree}
    (h : List.Forall₂ (fun a b => Alike a b ∧ ∀ start out,
      renderChildren floats report options a start out =
        renderChildren floats report options b start out) as bs)
    (start : String) (out : TreeLines) :
    renderSiblings floats report options as start out =
      renderSiblings floats report options bs start out := by
  induction h generalizing out with
  | nil => rfl
  | @cons a b as bs hab hrest ih =>
    obtain ⟨halike, hbelow⟩ := hab
    have hempty : as.isEmpty = bs.isEmpty := by
      cases hrest <;> rfl
    have hframe := halike.frame
    rw [renderSiblings, renderSiblings, hempty]
    split_ifs with hlimit
    · rfl
    · dsimp only
      change renderSiblings floats report options as start
        (renderChildren floats report options a _ _) = renderSiblings floats report options bs start
          (renderChildren floats report options b _ _)
      rw [hbelow, ih]
      congr 2
      cases ha : a.frame with
      | none =>
        cases hb : b.frame with
        | none => rfl
        | some g =>
          rw [ha, hb] at hframe
          cases hframe
      | some f =>
        cases hb : b.frame with
        | none =>
          rw [ha, hb] at hframe
          cases hframe
        | some g =>
          rw [ha, hb] at hframe
          have hfg : f.function = g.function := Option.some.inj hframe
          dsimp only
          rw [nodeLine_of_alike floats report halike _ _ hfg]

theorem renderChildren_of_alike {a b : CallTree} (ha : TiesAlike a) (h : Alike a b) (start : String)
    (out : TreeLines) : renderChildren floats report options a start out =
      renderChildren floats report options b start out := by
  induction a using CallTree.induct generalizing b start out with
  | h a ih =>
    apply renderSiblings_congr
    refine (forall₂_mem (rank_of_alike floats report options ha h)).imp ?_
    rintro c d ⟨hc, -, hcd⟩
    have hchild : c ∈ a.childNodes :=
      (List.mem_filter.mp ((rank_perm _ _).mem_iff.mp hc)).1
    exact ⟨hcd, fun start out => ih c hchild (ha.children c hchild) hcd start out⟩

theorem countNodes_eq_sum (siblings : List CallTree) :
    countNodes floats report options siblings =
      (siblings.map fun node => 1 + eligibleNodeCount floats report options node).sum := by
  induction siblings with
  | nil => rw [countNodes]; rfl
  | cons node rest ih => rw [countNodes, ih, List.map_cons, List.sum_cons]; rfl

theorem eligibleNodeCount_of_alike {a b : CallTree} (h : Alike a b) :
    eligibleNodeCount floats report options a = eligibleNodeCount floats report options b := by
  induction a using CallTree.induct generalizing b with
  | h a ih =>
    obtain ⟨children, hperm, hmatched⟩ := eligibleChildren_of_alike floats report options h
    unfold eligibleNodeCount
    rw [countNodes_eq_sum, countNodes_eq_sum, (hperm.map _).sum_eq]
    congr 1
    rw [← List.forall₂_eq_eq_eq, List.forall₂_map_left_iff, List.forall₂_map_right_iff]
    refine (forall₂_mem hmatched).imp ?_
    rintro c d ⟨hc, -, hcd⟩
    rw [ih c (List.mem_filter.mp (hperm.mem_iff.mpr hc)).1 hcd]

theorem renderTree_of_reordered {a b : CallTree} (ha : TiesAlike a) (h : Reordered a b) :
    renderTree floats report options a = renderTree floats report options b := by
  have hchildren : renderChildren floats report options a =
      renderChildren floats report options b := by
    funext start out
    exact renderChildren_of_alike floats report options ha h.alike start out
  unfold renderTree
  rw [hchildren, eligibleNodeCount_of_alike floats report options h.alike, h.value]

end Rendering

end PProfessor.Report
