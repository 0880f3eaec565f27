import PProfessor.Ranking
import PProfessor.Report

set_option autoImplicit false

/-!
# The call tree of a report

`CallTree` and `render_tree` of `src/report.rs`. A hash map of children hands them
out in an order of its own, which a tree's list of children stands for. `f64` and
its formatting are parameters.
-/
namespace PProfessor.Report
open CheckedArith Ranking

/-- `i64::saturating_sub`. -/
def saturatingSubI64 (a b : Int64) : Int64 :=
  (subI64 a b).getD (if b.toInt < 0 then 0x7FFFFFFFFFFFFFFF else -0x8000000000000000)

structure ReportFrameKey where
  function : String
  file : String
  line : Int64
  deriving DecidableEq, Repr

def ReportFrameKey.ofFrame (frame : ReportFrame) : ReportFrameKey where
  function := frame.function
  file := frame.file
  line := frame.line

/-- The children, in an order that a traversal of the map may take, under their keys. -/
structure CallTree where
  frame : Option ReportFrame
  value : Int64
  selfValue : Int64
  children : List (ReportFrameKey × CallTree)

namespace CallTree

def leaf (frame : Option ReportFrame) : CallTree where
  frame := frame
  value := 0
  selfValue := 0
  children := []

def child (key : ReportFrameKey) (children : List (ReportFrameKey × CallTree)) : Option CallTree :=
  (children.find? fun entry => entry.1 = key).map Prod.snd

def setChild (key : ReportFrameKey) (tree : CallTree) :
    List (ReportFrameKey × CallTree) → List (ReportFrameKey × CallTree)
  | [] => [(key, tree)]
  | entry :: rest =>
    if entry.1 = key then (key, tree) :: rest else entry :: setChild key tree rest

def addFrames (value : Int64) : List ReportFrame → CallTree → CallTree
  | [], node => { node with selfValue := saturatingAddI64 node.selfValue value }
  | frame :: rest, node =>
    let key := ReportFrameKey.ofFrame frame
    let next := (child key node.children).getD (leaf (some frame))
    let next := addFrames value rest { next with value := saturatingAddI64 next.value value }
    { node with children := setChild key next node.children }

def addStack (root : CallTree) (stack : StackStat) : CallTree :=
  addFrames stack.value stack.frames
    { root with value := saturatingAddI64 root.value stack.value }

/-- `CallTree::from_stacks`. -/
def fromStacks (ranked : List StackStat) : CallTree := ranked.foldl addStack (leaf none)

def childNodes (node : CallTree) : List CallTree := node.children.map Prod.snd

theorem sizeOf_childNodes (node : CallTree) : (node.childNodes.map sizeOf).sum < sizeOf node := by
  have hlist (children : List (ReportFrameKey × CallTree)) :
      ((children.map Prod.snd).map sizeOf).sum ≤ sizeOf children := by
    induction children with
    | nil => exact Nat.zero_le _
    | cons entry rest ih =>
      obtain ⟨key, tree⟩ := entry
      simp only [List.map_cons, List.sum_cons, List.cons.sizeOf_spec, Prod.mk.sizeOf_spec]
      omega
  have h := hlist node.children
  obtain ⟨_, _, _, children⟩ := node
  simp only [childNodes, CallTree.mk.sizeOf_spec] at h ⊢
  omega

end CallTree

/-- The operations of `f64` that a report uses. -/
structure Floats (F : Type) where
  zero : F
  /-- `a as f64 / b as f64 * 100.0`. -/
  hundredths : Int64 → Int64 → F
  /-- `value as f64 / divisor`. -/
  quotient : Int64 → ℕ → F
  le : F → F → Bool
  lt : F → F → Bool
  /-- `{:.2}`. -/
  fixed2 : F → String

variable {F : Type} (floats : Floats F)

def percent (value total : Int64) : F :=
  if total = 0 then floats.zero
  else floats.hundredths (saturatingAbsI64 value) (saturatingAbsI64 total)

/-- `format_value`; `to_ascii_lowercase` is `String.toLower`. -/
def formatValue (value : Int64) (unit : String) : String :=
  let magnitude := (saturatingAbsI64 value).toInt
  let scaled (divisor : ℕ) (suffix : String) :=
    floats.fixed2 (floats.quotient value divisor) ++ suffix
  let plain := toString value.toInt
  let lower := unit.toLower
  if lower ∈ ["nanoseconds", "nanosecond", "ns"] then
    if 1000000000 ≤ magnitude then scaled 1000000000 "s"
    else if 1000000 ≤ magnitude then scaled 1000000 "ms"
    else if 1000 ≤ magnitude then scaled 1000 "us"
    else plain ++ "ns"
  else if lower ∈ ["bytes", "byte"] then
    if 1073741824 ≤ magnitude then scaled 1073741824 "GiB"
    else if 1048576 ≤ magnitude then scaled 1048576 "MiB"
    else if 1024 ≤ magnitude then scaled 1024 "KiB"
    else plain ++ "B"
  else if lower ∈ ["", "count", "samples", "objects"] then plain
  else plain ++ " " ++ lower

inductive ReportFormat where
  | terminal
  | markdown
  deriving DecidableEq, Repr

/-- The options that a view is rendered with. -/
structure RenderOptions (F : Type) where
  format : ReportFormat
  limit : ℕ
  minPercent : F

/-- The comparison of `children.sort_by`. -/
def compareChildren (a b : CallTree) : Ordering :=
  (compare (saturatingAbsI64 b.value) (saturatingAbsI64 a.value)).then
    (compare (a.frame.map ReportFrame.function) (b.frame.map ReportFrame.function))

structure TreeLines where
  lines : List String
  emitted : ℕ
  deriving DecidableEq, Repr

section Tree

variable (report : ProfileReport) (options : RenderOptions F)

/-- `children.retain`. -/
def eligible (node : CallTree) : Bool :=
  floats.le options.minPercent (percent floats node.value report.totalValue)

def eligibleChildren (node : CallTree) : List CallTree :=
  node.childNodes.filter (eligible floats report options)

theorem sizeOf_filter_childNodes (p : CallTree → Bool) (node : CallTree) :
    ((node.childNodes.filter p).map sizeOf).sum < sizeOf node := by
  have h := node.sizeOf_childNodes
  have hle := (List.filter_sublist (p := p) (l := node.childNodes)).map sizeOf
  have hsum := hle.sum_le_sum (by simp)
  omega

theorem sizeOf_rank_eligibleChildren (node : CallTree) :
    ((rank compareChildren (eligibleChildren floats report options node)).map sizeOf).sum <
      sizeOf node := by
  rw [((rank_perm _ _).map sizeOf).sum_eq]
  exact sizeOf_filter_childNodes _ node

/-- `eligible_node_count` over a list of siblings that are eligible. -/
def countNodes : List CallTree → ℕ
  | [] => 0
  | node :: rest => 1 + countNodes (eligibleChildren floats report options node) + countNodes rest
termination_by siblings => (siblings.map sizeOf).sum
decreasing_by
  · have h := sizeOf_filter_childNodes (eligible floats report options) node
    simp only [List.map_cons, List.sum_cons, eligibleChildren]
    omega
  · have h := node.sizeOf_childNodes
    simp only [List.map_cons, List.sum_cons]
    omega

/-- `eligible_node_count`. -/
def eligibleNodeCount (node : CallTree) : ℕ :=
  countNodes floats report options (eligibleChildren floats report options node)

def nodeLine (start connector : String) (child : CallTree) (frame : ReportFrame) : String :=
  start ++ connector ++ formatValue floats child.value report.sampleUnit ++ " (" ++
    floats.fixed2 (percent floats child.value report.totalValue) ++ "%) [self: " ++
    formatValue floats child.selfValue report.sampleUnit ++ "]  " ++ frame.function

/-- The loop of `render_children` over the ranked siblings. -/
def renderSiblings : List CallTree → String → TreeLines → TreeLines
  | [], _, out => out
  | child :: rest, start, out =>
    if options.limit ≤ out.emitted then out
    else
      let isLast := rest.isEmpty
      let connector := if isLast then "└─ " else "├─ "
      let out := match child.frame with
        | none => out
        | some frame =>
          { lines := out.lines ++ [nodeLine floats report start connector child frame]
            emitted := out.emitted + 1 }
      let below := rank compareChildren (eligibleChildren floats report options child)
      renderSiblings rest start
        (renderSiblings below (start ++ if isLast then "   " else "│  ") out)
termination_by siblings => (siblings.map sizeOf).sum
decreasing_by
  · have h := sizeOf_rank_eligibleChildren floats report options child
    simp only [List.map_cons, List.sum_cons]
    omega
  · have h := child.sizeOf_childNodes
    simp only [List.map_cons, List.sum_cons]
    omega

/-- `render_children`. -/
def renderChildren (node : CallTree) (start : String) (out : TreeLines) : TreeLines :=
  renderSiblings floats report options
    (rank compareChildren (eligibleChildren floats report options node)) start out

/-- `render_tree`, over the tree as its maps are traversed. -/
def renderTree (tree : CallTree) : String :=
  let selfValue := saturatingSubI64 report.totalValue (saturatingAbsI64 tree.value)
  let total := formatValue floats report.totalValue report.sampleUnit
  let first := total ++ " (100.00%) [self: " ++ formatValue floats selfValue report.sampleUnit ++
    "]  all samples"
  let out := renderChildren floats report options tree "" ⟨[first], 0⟩
  let omitted := eligibleNodeCount floats report options tree - out.emitted
  let lines :=
    if 0 < omitted then
      out.lines ++ ["… " ++ toString omitted ++ " additional call-tree node" ++
        (if omitted = 1 then "" else "s") ++ " omitted by --limit"]
    else out.lines
  let body := "\n".intercalate lines
  match options.format with
  | .terminal =>
    "Direction: callers at the top, callees beneath them.\n" ++
      "Row format: inclusive cost (percent of total) [self cost] function.\n" ++
      "At most " ++ toString options.limit ++
      " call-tree nodes are shown, hottest branches first.\n\n" ++ body ++ "\n"
  | .markdown =>
    "- Direction: callers at the top, callees beneath them.\n" ++
      "- Row format: `inclusive cost (percent of total) [self cost] function`.\n" ++
      "- Inclusive cost includes samples in the function and its descendants.\n" ++
      "- Self cost includes samples attributed directly to the function.\n" ++
      "- At most " ++ toString options.limit ++
      " call-tree nodes are shown, hottest branches first.\n" ++
      (if floats.lt floats.zero options.minPercent then
        "- Nodes below " ++ floats.fixed2 options.minPercent ++ "% of total cost are omitted.\n"
      else "") ++
      "\n```text\n" ++ body ++ "\n```\n"

end Tree

end PProfessor.Report
