import PProfessor.KeyedSum

set_option autoImplicit false

/-!
# Trees of costs

A tree that weighted stacks have been added to, seen through the labels of its
children. What it shows at a path of labels is the cost of the stacks that begin
with the path.
-/
namespace PProfessor.CostTree
open KeyedSum

variable {T κ α β : Type} [DecidableEq κ]

/-- The weight of the stacks that begin with the path. -/
def through (key : α → List κ) (weight : α → ℤ) (xs : List α) (path : List κ) : ℤ :=
  total (fun x => decide (path <+: key x)) weight xs true

variable {key : α → List κ} {weight : α → ℤ}

@[simp] theorem through_nil (path : List κ) : through key weight [] path = 0 := rfl

theorem through_cons (x : α) (xs : List α) (path : List κ) :
    through key weight (x :: xs) path =
      (if path <+: key x then weight x else 0) + through key weight xs path := by
  simp [through, total_cons]

theorem through_append (xs ys : List α) (path : List κ) :
    through key weight (xs ++ ys) path =
      through key weight xs path + through key weight ys path := by
  simp [through, total_append]

theorem total_sub {κ' : Type} [DecidableEq κ'] (key : α → κ') (weight' : α → ℤ) (xs : List α)
    (k : κ') : total key weight xs k - total key weight' xs k =
      total key (fun x => weight x - weight' x) xs k := by
  induction xs with
  | nil => simp
  | cons x xs ih =>
    simp only [total_cons]
    split_ifs <;> omega

theorem abs_total_le (key : α → κ) (xs : List α) (k : κ) :
    |total key weight xs k| ≤ total key (fun x => |weight x|) xs k := by
  induction xs with
  | nil => simp
  | cons x xs ih =>
    rw [total_cons, total_cons]
    split_ifs
    · exact (abs_add_le _ _).trans (by omega)
    · simpa using ih

theorem total_abs_le (key : α → κ) (xs : List α) (k : κ) :
    total key (fun x => |weight x|) xs k ≤ (xs.map fun x => |weight x|).sum := by
  refine (List.filter_sublist.map _).sum_le_sum ?_
  simp

structure View (T κ : Type) where
  children : T → List (κ × T)
  cost : T → ℤ
  own : T → ℤ

namespace View

variable (view : View T κ)

/-- The sum of `f` over the nodes at a path. -/
def sumAt (f : T → ℤ) : List κ → T → ℤ
  | [], t => f t
  | k :: rest, t => total Prod.fst (fun entry => sumAt f rest entry.2) (view.children t) k

structure Blank (t : T) : Prop where
  children : view.children t = []
  cost : view.cost t = 0
  own : view.own t = 0

/-- A stack with the value is added: every node on its way gets the value, and the
last one has it as its own. -/
inductive Adds (value : ℤ) : List κ → T → T → Prop
  | here {t t' : T} (cost : view.cost t' = view.cost t + value)
      (own : view.own t' = view.own t + value) (children : view.children t' = view.children t) :
      Adds value [] t t'
  | deeper {k : κ} {rest : List κ} {t t' c c' : T} (before after : List (κ × T))
      (cost : view.cost t' = view.cost t + value) (own : view.own t' = view.own t)
      (old : view.children t = before ++ (k, c) :: after ∨
        view.children t = before ++ after ∧ view.Blank c)
      (new : view.children t' = before ++ (k, c') :: after) (child : Adds value rest c c') :
      Adds value (k :: rest) t t'

variable {view}

theorem Blank.sumAt_eq {t : T} (h : view.Blank t) {f : T → ℤ} (hf : f t = 0) (path : List κ) :
    view.sumAt f path t = 0 := by
  cases path with
  | nil => exact hf
  | cons k rest => simp [sumAt, h.children]

theorem sumAt_child {f : T → ℤ} {t t' c c' : T} {k k' : κ} {rest : List κ}
    {before after : List (κ × T)} (hblank : view.Blank c → f c = 0)
    (hold : view.children t = before ++ (k, c) :: after ∨
      view.children t = before ++ after ∧ view.Blank c)
    (hnew : view.children t' = before ++ (k, c') :: after) :
    view.sumAt f (k' :: rest) t' = view.sumAt f (k' :: rest) t +
      if k = k' then view.sumAt f rest c' - view.sumAt f rest c else 0 := by
  simp only [sumAt, hnew, total_append, total_cons]
  rcases hold with hold | ⟨hold, hc⟩
  · simp only [hold, total_append, total_cons]
    split_ifs <;> omega
  · simp only [hold, total_append, hc.sumAt_eq (hblank hc)]
    split_ifs <;> omega

variable {value : ℤ} {names : List κ} {t t' : T}

theorem Adds.cost_at (h : view.Adds value names t t') (path : List κ) :
    view.sumAt view.cost path t' =
      view.sumAt view.cost path t + if path <+: names then value else 0 := by
  induction h generalizing path with
  | here hcost hown hchildren =>
    cases path with
    | nil => simpa [sumAt] using hcost
    | cons k rest => simp [sumAt, hchildren]
  | deeper _ _ hcost hown hold hnew hchild ih =>
    cases path with
    | nil => simpa [sumAt] using hcost
    | cons k rest =>
      rw [sumAt_child (fun hc => hc.cost) hold hnew, ih]
      simp only [List.cons_prefix_cons, eq_comm (a := k)]
      split_ifs <;> simp_all

theorem Adds.own_at (h : view.Adds value names t t') (path : List κ) :
    view.sumAt view.own path t' =
      view.sumAt view.own path t + if names = path then value else 0 := by
  induction h generalizing path with
  | here hcost hown hchildren =>
    cases path with
    | nil => simpa [sumAt] using hown
    | cons k rest => simp [sumAt, hchildren]
  | deeper _ _ hcost hown hold hnew hchild ih =>
    cases path with
    | nil => simpa [sumAt] using hown
    | cons k rest =>
      rw [sumAt_child (fun hc => hc.own) hold hnew, ih]
      simp only [List.cons.injEq]
      split_ifs <;> simp_all

/-- The tree shows the costs of the stacks. -/
structure Shows (view : View T κ) (key : α → List κ) (weight : α → ℤ) (xs : List α) (t : T) :
    Prop where
  cost : ∀ path, view.sumAt view.cost path t = through key weight xs path
  own : ∀ path, view.sumAt view.own path t = total key weight xs path

theorem Blank.shows (h : view.Blank t) : view.Shows key weight [] t :=
  ⟨fun path => h.sumAt_eq h.cost path, fun path => h.sumAt_eq h.own path⟩

theorem Shows.adds {xs : List α} (h : view.Shows key weight xs t) {x : α}
    (hadds : view.Adds (weight x) (key x) t t') : view.Shows key weight (xs ++ [x]) t' := by
  constructor
  · intro path
    rw [hadds.cost_at, h.cost, through_append, through_cons, through_nil, add_zero]
  · intro path
    rw [hadds.own_at, h.own, total_append, total_cons, total_nil, add_zero]

end View

end PProfessor.CostTree
