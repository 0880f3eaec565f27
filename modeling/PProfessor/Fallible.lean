import Mathlib.Tactic

set_option autoImplicit false

/-!
# Rules for fallible computations

When a `do` block over `Except` returns, what it then returned, which errors it
can throw and how two of them run side by side: the rules for a bind and for the
loops `forM`, `mapM` and `foldlM`.
-/
namespace PProfessor.Fallible

variable {ε α β σ : Type}

theorem bind_eq_ok {x : Except ε α} {f : α → Except ε β} {b : β} :
    x >>= f = .ok b ↔ ∃ a, x = .ok a ∧ f a = .ok b := by
  cases x with
  | error e =>
    change Except.error e = .ok b ↔ _
    simp
  | ok a =>
    change f a = .ok b ↔ _
    simp

theorem ok_bind (a : α) (f : α → Except ε β) : Except.ok a >>= f = f a := rfl

theorem bind_error {x : Except ε α} (f : α → Except ε β) {e : ε} (h : x = .error e) :
    x >>= f = .error e := by
  rw [h]
  rfl

theorem forM_eq_ok_iff (f : α → Except ε Unit) (xs : List α) (u : Unit) :
    xs.forM f = .ok u ↔ ∀ x ∈ xs, f x = .ok () := by
  induction xs with
  | nil => exact ⟨by simp, fun _ => rfl⟩
  | cons x xs ih =>
    change f x >>= (fun _ => xs.forM f) = .ok u ↔ _
    rw [bind_eq_ok, List.forall_mem_cons, ← ih]
    exact ⟨fun ⟨_, hx, hxs⟩ => ⟨hx, hxs⟩, fun ⟨hx, hxs⟩ => ⟨(), hx, hxs⟩⟩

theorem mapM_cons_eq_ok_iff (f : α → Except ε β) (x : α) (xs : List α) (ys : List β) :
    (x :: xs).mapM f = .ok ys ↔ ∃ y rest, f x = .ok y ∧ xs.mapM f = .ok rest ∧ ys = y :: rest := by
  rw [List.mapM_cons]
  simp only [bind_eq_ok, pure, Except.pure, Except.ok.injEq]
  constructor
  · rintro ⟨y, hy, rest, hrest, rfl⟩
    exact ⟨y, rest, hy, hrest, rfl⟩
  · rintro ⟨y, rest, hy, hrest, rfl⟩
    exact ⟨y, hy, rest, hrest, rfl⟩

theorem mapM_nil_eq_ok_iff (f : α → Except ε β) (ys : List β) :
    ([] : List α).mapM f = .ok ys ↔ ys = [] := by
  rw [List.mapM_nil]
  simp [pure, Except.pure, eq_comm]

theorem mapM_eq_ok_of_forall {f : α → Except ε β} {g : α → β} {xs : List α}
    (h : ∀ x ∈ xs, f x = .ok (g x)) : xs.mapM f = .ok (xs.map g) := by
  induction xs with
  | nil => rfl
  | cons x xs ih =>
    rw [List.forall_mem_cons] at h
    rw [mapM_cons_eq_ok_iff]
    exact ⟨g x, xs.map g, h.1, ih h.2, rfl⟩

theorem mapM_ok_of_forall {f : α → Except ε β} {xs : List α} (h : ∀ x ∈ xs, ∃ y, f x = .ok y) :
    ∃ ys, xs.mapM f = .ok ys := by
  induction xs with
  | nil => exact ⟨[], rfl⟩
  | cons x xs ih =>
    rw [List.forall_mem_cons] at h
    obtain ⟨y, hy⟩ := h.1
    obtain ⟨ys, hys⟩ := ih h.2
    exact ⟨y :: ys, (mapM_cons_eq_ok_iff f x xs _).mpr ⟨y, ys, hy, hys, rfl⟩⟩

/-- A loop whose body can only return `g x` returns the map of `g`. -/
theorem mapM_eq_map {f : α → Except ε β} {g : α → β} (hg : ∀ x y, f x = .ok y → y = g x)
    {xs : List α} {ys : List β} (h : xs.mapM f = .ok ys) : ys = xs.map g := by
  induction xs generalizing ys with
  | nil => exact (mapM_nil_eq_ok_iff f ys).mp h
  | cons x xs ih =>
    obtain ⟨y, rest, hy, hrest, rfl⟩ := (mapM_cons_eq_ok_iff f x xs ys).mp h
    rw [List.map_cons, hg x y hy, ih hrest]

theorem mapM_length {f : α → Except ε β} {xs : List α} {ys : List β} (h : xs.mapM f = .ok ys) :
    ys.length = xs.length := by
  induction xs generalizing ys with
  | nil =>
    rw [mapM_nil_eq_ok_iff] at h
    simp [h]
  | cons x xs ih =>
    obtain ⟨y, rest, -, hrest, rfl⟩ := (mapM_cons_eq_ok_iff f x xs ys).mp h
    simp [ih hrest]

/-- Element `i` of the result comes from element `i` of the list. -/
theorem mapM_getElem? {f : α → Except ε β} {xs : List α} {ys : List β} (h : xs.mapM f = .ok ys)
    {i : ℕ} {x : α} (hx : xs[i]? = some x) : ∃ y, ys[i]? = some y ∧ f x = .ok y := by
  induction xs generalizing ys i with
  | nil => simp at hx
  | cons head xs ih =>
    obtain ⟨y, rest, hy, hrest, rfl⟩ := (mapM_cons_eq_ok_iff f head xs ys).mp h
    cases i with
    | zero =>
      rw [List.getElem?_cons_zero, Option.some.injEq] at hx
      subst hx
      exact ⟨y, rfl, hy⟩
    | succ i => exact ih hrest hx

theorem forall_ok_of_mapM {f : α → Except ε β} {xs : List α} {ys : List β}
    (h : xs.mapM f = .ok ys) : ∀ x ∈ xs, ∃ y, f x = .ok y := by
  intro x hx
  obtain ⟨i, hi⟩ := List.mem_iff_getElem?.mp hx
  obtain ⟨y, -, hy⟩ := mapM_getElem? h hi
  exact ⟨y, hy⟩

theorem mapM_mem {f : α → Except ε β} {xs : List α} {ys : List β} (h : xs.mapM f = .ok ys)
    {y : β} (hy : y ∈ ys) : ∃ x ∈ xs, f x = .ok y := by
  induction xs generalizing ys with
  | nil =>
    rw [mapM_nil_eq_ok_iff] at h
    simp [h] at hy
  | cons x xs ih =>
    obtain ⟨z, rest, hz, hrest, rfl⟩ := (mapM_cons_eq_ok_iff f x xs ys).mp h
    rcases List.mem_cons.mp hy with rfl | hy
    · exact ⟨x, List.mem_cons_self, hz⟩
    · obtain ⟨w, hw, hwy⟩ := ih hrest hy
      exact ⟨w, List.mem_cons_of_mem _ hw, hwy⟩

theorem mapM_map_eq {γ : Type} {f : α → Except ε β} {g : α → γ} {g' : β → γ} {xs : List α}
    {ys : List β} (h : xs.mapM f = .ok ys) (hg : ∀ x ∈ xs, ∀ y, f x = .ok y → g' y = g x) :
    ys.map g' = xs.map g := by
  induction xs generalizing ys with
  | nil =>
    rw [mapM_nil_eq_ok_iff] at h
    rw [h]
    rfl
  | cons x xs ih =>
    rw [List.forall_mem_cons] at hg
    obtain ⟨y, rest, hy, hrest, rfl⟩ := (mapM_cons_eq_ok_iff f x xs ys).mp h
    rw [List.map_cons, List.map_cons, hg.1 y hy, ih hrest hg.2]

theorem mapM_map_eq_ok {f : α → Except ε β} {γ : Type} {g : γ → Except ε β} (r : α → γ)
    {xs : List α} {ys : List β} (h : xs.mapM f = .ok ys)
    (hg : ∀ x ∈ xs, ∀ y, f x = .ok y → g (r x) = .ok y) : (xs.map r).mapM g = .ok ys := by
  induction xs generalizing ys with
  | nil =>
    rw [mapM_nil_eq_ok_iff] at h
    subst h
    rfl
  | cons x xs ih =>
    rw [List.forall_mem_cons] at hg
    obtain ⟨y, rest, hy, hrest, rfl⟩ := (mapM_cons_eq_ok_iff f x xs ys).mp h
    rw [List.map_cons, mapM_cons_eq_ok_iff]
    exact ⟨y, rest, hg.1 y hy, ih hrest hg.2, rfl⟩

theorem foldlM_invariant (Inv : List α → σ → Prop) {step : σ → α → Except ε σ} {init result : σ}
    (xs : List α) (hinit : Inv [] init)
    (hstep : ∀ done x s s', Inv done s → x ∈ xs → step s x = .ok s' → Inv (done ++ [x]) s')
    (h : xs.foldlM step init = .ok result) : Inv xs result := by
  suffices hgen : ∀ (ys done : List α) (s : σ), (∀ y ∈ ys, y ∈ xs) → Inv done s →
      ys.foldlM step s = .ok result → Inv (done ++ ys) result by
    simpa using hgen xs [] init (fun _ hx => hx) hinit h
  intro ys
  induction ys with
  | nil =>
    intro done s _ hs hr
    cases hr
    simpa using hs
  | cons y ys ih =>
    intro done s hmem hs hr
    rw [List.forall_mem_cons] at hmem
    rw [List.foldlM_cons, bind_eq_ok] at hr
    obtain ⟨s', hy, hys⟩ := hr
    have := ih (done ++ [y]) s' hmem.2 (hstep done y s s' hs hmem.1 hy) hys
    simpa using this

theorem foldlM_forall {step : σ → α → Except ε σ} {P : α → Prop} {xs : List α} {init result : σ}
    (h : xs.foldlM step init = .ok result) (hstep : ∀ s x s', step s x = .ok s' → P x) :
    ∀ x ∈ xs, P x := by
  refine foldlM_invariant (fun done _ => ∀ x ∈ done, P x) xs (by simp) ?_ h
  intro done x s s' hdone _ hs y hy
  rcases List.mem_append.mp hy with hy | hy
  · exact hdone y hy
  · rw [List.mem_singleton.mp hy]
    exact hstep s x s' hs

theorem foldlM_congr {f g : σ → α → Except ε σ} {xs : List α}
    (h : ∀ x ∈ xs, ∀ a, f a x = g a x) (a : σ) : xs.foldlM f a = xs.foldlM g a := by
  induction xs generalizing a with
  | nil => rfl
  | cons x xs ih =>
    rw [List.foldlM_cons, List.foldlM_cons, h x List.mem_cons_self]
    exact congrArg _ (funext fun b => ih (fun y hy => h y (List.mem_cons_of_mem _ hy)) b)

/-- The computation returns a value that satisfies `post`. -/
def Returns (post : α → Prop) (x : Except ε α) : Prop := ∃ a, x = .ok a ∧ post a

namespace Returns

theorem of_ok {post : α → Prop} {a : α} (h : post a) : Returns post (.ok a : Except ε α) :=
  ⟨a, rfl, h⟩

theorem mono {post post' : α → Prop} {x : Except ε α} (h : Returns post x)
    (hpost : ∀ a, post a → post' a) : Returns post' x := by
  obtain ⟨a, rfl, ha⟩ := h
  exact ⟨a, rfl, hpost a ha⟩

theorem bind {post : α → Prop} {post' : β → Prop} {x : Except ε α} {f : α → Except ε β}
    (h : Returns post x) (hf : ∀ a, post a → Returns post' (f a)) : Returns post' (x >>= f) := by
  obtain ⟨a, rfl, ha⟩ := h
  exact hf a ha

theorem foldlM {step : σ → α → Except ε σ} (Inv : List α → List α → σ → Prop)
    (hstep : ∀ done x rest s, Inv done (x :: rest) s → Returns (Inv (done ++ [x]) rest) (step s x))
    {done xs : List α} {init : σ} (hinit : Inv done xs init) :
    Returns (Inv (done ++ xs) []) (xs.foldlM step init) := by
  induction xs generalizing done init with
  | nil =>
    rw [List.append_nil]
    exact ⟨init, rfl, hinit⟩
  | cons x xs ih =>
    rw [List.foldlM_cons]
    refine (hstep done x xs init hinit).bind fun s hs => ?_
    have := ih hs
    rwa [List.append_assoc, List.singleton_append] at this

end Returns

/-- Whatever the computation returns satisfies `post`. -/
def Yields (post : α → Prop) (x : Except ε α) : Prop := ∀ a, x = .ok a → post a

namespace Yields

theorem of_ok {post : α → Prop} {a : α} (h : post a) : Yields post (.ok a : Except ε α) := by
  intro b hb
  cases hb
  exact h

theorem of_error {post : α → Prop} {e : ε} : Yields post (.error e : Except ε α) := by
  intro b hb
  cases hb

theorem any (x : Except ε α) : Yields (fun _ => True) x := fun _ _ => trivial

theorem bind {post : α → Prop} {post' : β → Prop} {x : Except ε α} {f : α → Except ε β}
    (h : Yields post x) (hf : ∀ a, post a → Yields post' (f a)) : Yields post' (x >>= f) := by
  intro b hb
  obtain ⟨a, ha, hb⟩ := bind_eq_ok.mp hb
  exact hf a (h a ha) b hb

theorem foldlM {step : σ → α → Except ε σ} (Inv : σ → Prop) {xs : List α}
    (hstep : ∀ s x, Inv s → Yields Inv (step s x)) {init : σ} (hinit : Inv init) :
    Yields Inv (xs.foldlM step init) := by
  induction xs generalizing init with
  | nil => exact of_ok hinit
  | cons x xs ih =>
    rw [List.foldlM_cons]
    exact (hstep init x hinit).bind fun s hs => ih hs

end Yields

/-- The computation returns `a` if `P` holds, and nothing if it does not. -/
def ReturnsWhen (P : Prop) (a : α) (x : Except ε α) : Prop := (P → x = .ok a) ∧ ∀ b, x = .ok b → P

namespace ReturnsWhen

variable {P Q : Prop}

theorem of_ok (a : α) : ReturnsWhen True a (.ok a : Except ε α) :=
  ⟨fun _ => rfl, fun _ _ => trivial⟩

theorem of_error {a : α} {e : ε} (h : ¬P) : ReturnsWhen P a (.error e : Except ε α) :=
  ⟨fun hp => absurd hp h, fun b hb => by cases hb⟩

theorem iff {a : α} {x : Except ε α} (h : ReturnsWhen P a x) (hPQ : P ↔ Q) : ReturnsWhen Q a x :=
  ⟨fun hq => h.1 (hPQ.mpr hq), fun b hb => hPQ.mp (h.2 b hb)⟩

theorem exists_iff {a : α} {x : Except ε α} (h : ReturnsWhen P a x) : (∃ b, x = .ok b) ↔ P :=
  ⟨fun ⟨b, hb⟩ => h.2 b hb, fun hp => ⟨a, h.1 hp⟩⟩

theorem bind {a : α} {b : β} {x : Except ε α} {f : α → Except ε β} (h : ReturnsWhen P a x)
    (hf : P → ReturnsWhen Q b (f a)) : ReturnsWhen (P ∧ Q) b (x >>= f) := by
  constructor
  · rintro ⟨hp, hq⟩
    rw [h.1 hp, ok_bind]
    exact (hf hp).1 hq
  · intro c hc
    obtain ⟨a', ha', hc⟩ := bind_eq_ok.mp hc
    have hp := h.2 a' ha'
    rw [h.1 hp] at ha'
    cases ha'
    exact ⟨hp, (hf hp).2 c hc⟩

theorem bind_ok {a : α} {b : β} {x : Except ε α} {f : α → Except ε β} (h : ReturnsWhen P a x)
    (hf : P → f a = .ok b) : ReturnsWhen P b (x >>= f) := by
  refine (h.bind (Q := True) fun hp => ?_).iff (and_iff_left trivial)
  rw [hf hp]
  exact of_ok b

theorem map {a : α} {x : Except ε α} (h : ReturnsWhen P a x) (f : α → β) :
    ReturnsWhen P (f a) (f <$> x) := by
  rw [map_eq_pure_bind]
  exact h.bind_ok fun _ => rfl

theorem mapM {f : α → Except ε β} {g : α → β} {P : α → Prop} {xs : List α}
    (h : ∀ x ∈ xs, ReturnsWhen (P x) (g x) (f x)) :
    ReturnsWhen (∀ x ∈ xs, P x) (xs.map g) (xs.mapM f) := by
  constructor
  · exact fun hP => mapM_eq_ok_of_forall fun x hx => (h x hx).1 (hP x hx)
  · intro ys hys x hx
    obtain ⟨y, hy⟩ := forall_ok_of_mapM hys x hx
    exact (h x hx).2 y hy

theorem foldlM {step : σ → α → Except ε σ} {g : σ → α → σ} {P : α → Prop} {xs : List α}
    (h : ∀ s, ∀ x ∈ xs, ReturnsWhen (P x) (g s x) (step s x)) (init : σ) :
    ReturnsWhen (∀ x ∈ xs, P x) (xs.foldl g init) (xs.foldlM step init) := by
  induction xs generalizing init with
  | nil => exact (of_ok init).iff (by simp)
  | cons x xs ih =>
    rw [List.foldlM_cons]
    refine ((h init x List.mem_cons_self).bind fun _ => ?_).iff List.forall_mem_cons.symm
    exact ih (fun s y hy => h s y (List.mem_cons_of_mem _ hy)) _

end ReturnsWhen

/-- The computation fails only with errors in `P`. -/
def Throws (P : ε → Prop) (x : Except ε α) : Prop := ∀ e, x = .error e → P e

namespace Throws

variable {P : ε → Prop}

theorem of_eq_ok {x : Except ε α} {a : α} (h : x = .ok a) : Throws P x := by
  intro e he
  rw [h] at he
  cases he

theorem of_ok (a : α) : Throws P (.ok a : Except ε α) := of_eq_ok rfl

theorem error_iff {e : ε} : Throws P (.error e : Except ε α) ↔ P e := by
  constructor
  · exact fun h => h e rfl
  · intro h e' he
    cases he
    exact h

theorem mono {Q : ε → Prop} {x : Except ε α} (h : Throws P x) (hPQ : ∀ e, P e → Q e) :
    Throws Q x := fun e he => hPQ e (h e he)

theorem bind {x : Except ε α} {f : α → Except ε β} (h : Throws P x)
    (hf : ∀ a, x = .ok a → Throws P (f a)) : Throws P (x >>= f) := by
  cases x with
  | error e =>
    intro e' he
    cases he
    exact h e rfl
  | ok a => exact hf a rfl

theorem forM {f : α → Except ε Unit} {xs : List α} (h : ∀ x ∈ xs, Throws P (f x)) :
    Throws P (xs.forM f) := by
  induction xs with
  | nil => exact of_ok ()
  | cons x xs ih =>
    rw [List.forall_mem_cons] at h
    change Throws P (f x >>= fun _ => xs.forM f)
    exact h.1.bind fun _ _ => ih h.2

theorem mapM {f : α → Except ε β} {xs : List α} (h : ∀ x ∈ xs, Throws P (f x)) :
    Throws P (xs.mapM f) := by
  induction xs with
  | nil => exact of_eq_ok List.mapM_nil
  | cons x xs ih =>
    rw [List.forall_mem_cons] at h
    rw [List.mapM_cons]
    refine h.1.bind fun y _ => (ih h.2).bind fun ys _ => ?_
    exact of_ok (y :: ys)

theorem map {x : Except ε α} (h : Throws P x) (f : α → β) : Throws P (f <$> x) := by
  cases x with
  | error e =>
    intro e' he
    cases he
    exact h e rfl
  | ok a => exact of_ok (f a)

theorem anyM {f : α → Except ε Bool} {xs : List α} (h : ∀ x ∈ xs, Throws P (f x)) :
    Throws P (xs.anyM f) := by
  induction xs with
  | nil => exact of_ok false
  | cons x xs ih =>
    rw [List.forall_mem_cons] at h
    rw [List.anyM]
    refine h.1.bind fun b _ => ?_
    cases b with
    | true => exact of_ok true
    | false => exact ih h.2

theorem findM? {f : α → Except ε Bool} {xs : List α} (h : ∀ x ∈ xs, Throws P (f x)) :
    Throws P (xs.findM? f) := by
  induction xs with
  | nil => exact of_ok none
  | cons x xs ih =>
    rw [List.forall_mem_cons] at h
    rw [List.findM?]
    refine h.1.bind fun b _ => ?_
    cases b with
    | true => exact of_ok (some x)
    | false => exact ih h.2

theorem foldlM {step : σ → α → Except ε σ} {xs : List α} (h : ∀ s, ∀ x ∈ xs, Throws P (step s x))
    (init : σ) : Throws P (xs.foldlM step init) := by
  induction xs generalizing init with
  | nil => exact of_ok init
  | cons x xs ih =>
    rw [List.foldlM_cons]
    refine (h init x List.mem_cons_self).bind fun s _ => ?_
    exact ih (fun s y hy => h s y (List.mem_cons_of_mem _ hy)) s

end Throws

/-- Whenever `x` returns, `x'` returns something related. -/
def Matches {α' : Type} (R : α → α' → Prop) (x : Except ε α) (x' : Except ε α') : Prop :=
  ∀ a, x = .ok a → ∃ a', x' = .ok a' ∧ R a a'

namespace Matches

variable {α' β' σ' : Type}

theorem of_ok {R : α → α' → Prop} {a : α} {a' : α'} (h : R a a') :
    Matches R (.ok a : Except ε α) (.ok a') := by
  intro b hb
  cases hb
  exact ⟨a', rfl, h⟩

theorem refl (x : Except ε α) : Matches Eq x x := fun a h => ⟨a, h, rfl⟩

theorem bind {R : α → α' → Prop} {S : β → β' → Prop} {x : Except ε α} {x' : Except ε α'}
    {f : α → Except ε β} {f' : α' → Except ε β'} (h : Matches R x x')
    (hf : ∀ a a', x = .ok a → R a a' → Matches S (f a) (f' a')) :
    Matches S (x >>= f) (x' >>= f') := by
  intro b hb
  obtain ⟨a, ha, hb⟩ := bind_eq_ok.mp hb
  obtain ⟨a', ha', hR⟩ := h a ha
  obtain ⟨b', hb', hS⟩ := hf a a' ha hR b hb
  exact ⟨b', bind_eq_ok.mpr ⟨a', ha', hb'⟩, hS⟩

theorem mapM {S : α → α' → Prop} {R : β → β' → Prop} {f : α → Except ε β}
    {f' : α' → Except ε β'} {xs : List α} {xs' : List α'} (hS : List.Forall₂ S xs xs')
    (hf : ∀ x x', S x x' → Matches R (f x) (f' x')) :
    Matches (List.Forall₂ R) (xs.mapM f) (xs'.mapM f') := by
  induction hS with
  | nil =>
    rw [List.mapM_nil, List.mapM_nil]
    exact of_ok .nil
  | cons hx _ ih =>
    rw [List.mapM_cons, List.mapM_cons]
    refine (hf _ _ hx).bind fun y y' _ hy => ih.bind fun ys ys' _ hys => ?_
    exact of_ok (.cons hy hys)

theorem mapM_self {R : β → β' → Prop} {f : α → Except ε β} {f' : α → Except ε β'}
    (hf : ∀ x, Matches R (f x) (f' x)) (xs : List α) :
    Matches (List.Forall₂ R) (xs.mapM f) (xs.mapM f') := by
  refine Matches.mapM (List.forall₂_same.mpr fun x _ => (rfl : x = x)) ?_
  rintro x _ rfl
  exact hf x

theorem foldlM {S : α → α' → Prop} {R : σ → σ' → Prop} {step : σ → α → Except ε σ}
    {step' : σ' → α' → Except ε σ'} {xs : List α} {xs' : List α'} (hS : List.Forall₂ S xs xs')
    (hstep : ∀ x x', S x x' → ∀ s s', R s s' → Matches R (step s x) (step' s' x')) {s : σ}
    {s' : σ'} (hs : R s s') : Matches R (xs.foldlM step s) (xs'.foldlM step' s') := by
  induction hS generalizing s s' with
  | nil => exact of_ok hs
  | cons hx _ ih =>
    rw [List.foldlM_cons, List.foldlM_cons]
    exact (hstep _ _ hx s s' hs).bind fun t t' _ ht => ih ht

end Matches

end PProfessor.Fallible
