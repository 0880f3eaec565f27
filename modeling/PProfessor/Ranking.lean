import PProfessor.KeyedSum

set_option autoImplicit false

/-!
# Rankings

Stable sorting by a comparison that leaves ties. What the ranking of a list owes
to the order of the list is how it arranges the ties, and nothing else.
-/
namespace PProfessor.Ranking
open KeyedSum

variable {α : Type} (cmp : α → α → Ordering)

/-- `slice::sort_by`. -/
def rank (xs : List α) : List α := xs.mergeSort fun a b => (cmp a b).isLE

theorem rank_perm (xs : List α) : (rank cmp xs).Perm xs := List.mergeSort_perm _ _

variable [Std.TransCmp cmp]

theorem isLE_total (a b : α) : ((cmp a b).isLE || (cmp b a).isLE) = true := by
  cases h : cmp a b with
  | lt => rfl
  | eq => rfl
  | gt =>
    have hlt : cmp b a = .lt := Std.OrientedCmp.lt_of_gt h
    rw [hlt]
    rfl

theorem rank_pairwise (xs : List α) :
    (rank cmp xs).Pairwise fun a b => (cmp a b).isLE = true :=
  List.pairwise_mergeSort (fun _ _ _ => Std.TransCmp.isLE_trans) (isLE_total cmp) xs

theorem filter_rank (a : α) (xs : List α) :
    (rank cmp xs).filter (fun x => cmp a x = .eq) = xs.filter fun x => cmp a x = .eq := by
  have htied : (xs.filter fun x => cmp a x = .eq).Pairwise fun x y => (cmp x y).isLE = true := by
    apply List.Pairwise.imp_of_mem (R := fun _ _ => True) _
      (List.pairwise_of_forall fun _ _ => trivial)
    intro x y hx hy _
    have hax : cmp a x = .eq := by simpa using (List.mem_filter.mp hx).2
    have hay : cmp a y = .eq := by simpa using (List.mem_filter.mp hy).2
    rw [Std.TransCmp.eq_trans (Std.OrientedCmp.eq_symm hax) hay]
    rfl
  have hsub : (xs.filter fun x => cmp a x = .eq).Sublist (rank cmp xs) :=
    List.sublist_mergeSort (fun _ _ _ => Std.TransCmp.isLE_trans) (isLE_total cmp) htied
      List.filter_sublist
  have hfilter := hsub.filter fun x => decide (cmp a x = .eq)
  rw [List.filter_filter] at hfilter
  simp only [Bool.and_self] at hfilter
  exact (hfilter.eq_of_length ((rank_perm cmp xs).filter _).length_eq.symm).symm

theorem tied_of_perm {xs ys : List α} (hp : xs.Perm ys)
    (hx : xs.Pairwise fun a b => (cmp a b).isLE = true)
    (hy : ys.Pairwise fun a b => (cmp a b).isLE = true) :
    List.Forall₂ (fun a b => cmp a b = .eq) xs ys := by
  -- In the order of the classes of tied elements there are no ties left.
  let _ : Preorder α :=
    { le := fun a b => (cmp a b).isLE = true
      le_refl := fun a => by
        have hself : cmp a a = .eq := Std.ReflCmp.compare_self
        rw [hself]
        rfl
      le_trans := fun _ _ _ => Std.TransCmp.isLE_trans }
  let classOf : α → Antisymmetrization α (· ≤ ·) := toAntisymmetrization (· ≤ ·)
  have hx' : (xs.map classOf).Pairwise fun a b => a ≤ b := by
    rw [List.pairwise_map]
    exact hx
  have hy' : (ys.map classOf).Pairwise fun a b => a ≤ b := by
    rw [List.pairwise_map]
    exact hy
  have hclasses : xs.map classOf = ys.map classOf :=
    List.Perm.eq_of_pairwise (fun _ _ _ _ => le_antisymm) hx' hy' (hp.map _)
  rw [← List.forall₂_eq_eq_eq, List.forall₂_map_left_iff, List.forall₂_map_right_iff] at hclasses
  refine hclasses.imp ?_
  intro a b hab
  have hrel : AntisymmRel (· ≤ ·) a b := Quotient.exact hab
  exact Std.OrientedCmp.isLE_antisymm hrel.1 hrel.2

theorem forall₂_mem {R : α → α → Prop} {xs ys : List α} (h : List.Forall₂ R xs ys) :
    List.Forall₂ (fun x y => x ∈ xs ∧ y ∈ ys ∧ R x y) xs ys := by
  rw [List.forall₂_iff_zip] at h ⊢
  refine ⟨h.1, ?_⟩
  intro a b hab
  have hmem := List.of_mem_zip hab
  exact ⟨hmem.1, hmem.2, h.2 hab⟩

theorem forall₂_comp {R S T : α → α → Prop} (h : ∀ a b c, R a b → S b c → T a c)
    {xs ys zs : List α} (hR : List.Forall₂ R xs ys) (hS : List.Forall₂ S ys zs) :
    List.Forall₂ T xs zs := by
  induction hR generalizing zs with
  | nil =>
    cases hS
    exact .nil
  | cons hab _ ih =>
    cases hS with
    | cons hbc hrest => exact .cons (h _ _ _ hab hbc) (ih hrest)

theorem pairwise_of_tied {xs ys : List α} (h : List.Forall₂ (fun a b => cmp a b = .eq) xs ys)
    (hy : ys.Pairwise fun a b => (cmp a b).isLE = true) :
    xs.Pairwise fun a b => (cmp a b).isLE = true := by
  induction h with
  | nil => exact .nil
  | @cons a b xs ys hab hrest ih =>
    rw [List.pairwise_cons] at hy ⊢
    refine ⟨?_, ih hy.2⟩
    intro x hx
    obtain ⟨i, hi, rfl⟩ := List.getElem_of_mem hx
    have hlen := hrest.length_eq
    have hxy : cmp xs[i] ys[i] = .eq := hrest.get hi (hlen ▸ hi)
    have hby : (cmp b ys[i]).isLE = true := hy.1 _ (List.getElem_mem _)
    rw [Std.TransCmp.congr_left hab, Std.TransCmp.congr_right hxy]
    exact hby

/-- Lists with related elements, in any order, have related rankings if the ties
of one of them are related. -/
theorem rank_forall₂ {R : α → α → Prop} (htrans : ∀ a b c, R a b → R b c → R a c)
    (hcmp : ∀ a b, R a b → cmp a b = .eq) {xs ys zs : List α}
    (hties : ∀ a ∈ xs, ∀ b ∈ xs, cmp a b = .eq → R a b) (hp : xs.Perm ys)
    (hR : List.Forall₂ R ys zs) : List.Forall₂ R (rank cmp xs) (rank cmp zs) := by
  have hcomp : Relation.Comp (List.Forall₂ R) List.Perm ys (rank cmp zs) :=
    ⟨zs, hR, (rank_perm cmp zs).symm⟩
  rw [List.forall₂_comp_perm_eq_perm_comp_forall₂] at hcomp
  obtain ⟨ws, hws, hranked⟩ := hcomp
  have hsorted : ws.Pairwise fun a b => (cmp a b).isLE = true :=
    pairwise_of_tied cmp (hranked.imp hcmp) (rank_pairwise cmp zs)
  have hperm : (rank cmp xs).Perm ws := (rank_perm cmp xs).trans (hp.trans hws)
  have htied := forall₂_mem (tied_of_perm cmp hperm (rank_pairwise cmp xs) hsorted)
  refine forall₂_comp htrans (htied.imp ?_) hranked
  rintro a b ⟨ha, hb, hab⟩
  exact hties a ((rank_perm cmp xs).mem_iff.mp ha) b ((hp.trans hws).mem_iff.mpr hb) hab

theorem rank_eq_of_perm {xs ys : List α} (hties : ∀ a ∈ xs, ∀ b ∈ xs, cmp a b = .eq → a = b)
    (hp : xs.Perm ys) : rank cmp xs = rank cmp ys := by
  have hrank := rank_forall₂ cmp (R := (· = ·)) (fun _ _ _ => Eq.trans)
    (fun a b hab => hab ▸ Std.ReflCmp.compare_self) hties hp (List.forall₂_refl ys)
  rwa [List.forall₂_eq_eq_eq] at hrank

theorem tie_eq_of_rank_eq {xs : List α} (h : ∀ ys, xs.Perm ys → rank cmp ys = rank cmp xs)
    {a b : α} (ha : a ∈ xs) (hb : b ∈ xs) (hab : cmp a b = .eq) : a = b := by
  classical
  by_contra hne
  obtain ⟨rest, hrest⟩ : ∃ rest, xs.Perm (a :: b :: rest) := by
    have hb' : b ∈ xs.erase a := (List.mem_erase_of_ne (Ne.symm hne)).mpr hb
    exact ⟨(xs.erase a).erase b,
      (List.perm_cons_erase ha).trans ((List.perm_cons_erase hb').cons a)⟩
  have hfirst := congrArg (List.filter fun x => cmp a x = .eq) (h _ hrest)
  have hsecond := congrArg (List.filter fun x => cmp a x = .eq)
    (h _ (hrest.trans (.swap b a rest)))
  rw [filter_rank] at hfirst hsecond
  rw [← hsecond, List.filter_cons_of_pos (by simp [Std.ReflCmp.compare_self]),
    List.filter_cons_of_pos (by simp [hab]), List.filter_cons_of_pos (by simp [hab])] at hfirst
  exact hne (List.cons.inj hfirst).1

section Maps

variable {ρ κ : Type} [BEq κ] [Hashable κ] [LawfulBEq κ] [LawfulHashable κ]

theorem exists_order_of_perm {map : Std.ExtHashMap κ α} {order : List (κ × α)}
    (h : Enumerates order map) {ys : List α} (hp : (order.map Prod.snd).Perm ys) :
    ∃ order', Enumerates order' map ∧ order'.map Prod.snd = ys := by
  have hcomp : Relation.Comp (List.Forall₂ fun (e : κ × α) s => e.2 = s) List.Perm order ys := by
    refine ⟨order.map Prod.snd, ?_, hp⟩
    rw [List.forall₂_map_right_iff, List.forall₂_same]
    exact fun _ _ => rfl
  rw [List.forall₂_comp_perm_eq_perm_comp_forall₂] at hcomp
  obtain ⟨order', hperm, hmap⟩ := hcomp
  refine ⟨order', ⟨hperm.nodup_iff.mp h.nodup, ?_⟩, ?_⟩
  · intro k v
    rw [← hperm.mem_iff, h.mem_iff]
  · rw [← List.forall₂_eq_eq_eq, List.forall₂_map_left_iff]
    exact hmap

/-- Maps with the same keys rank the same in every order of their entries exactly
where values that tie are equal, also across the maps. -/
theorem rank_maps_eq_iff (maps : ρ → Std.ExtHashMap κ α)
    (hkeys : ∀ (r r' : ρ) (k : κ), ((maps r)[k]?).isSome = true → ((maps r')[k]?).isSome = true)
    (htie : ∀ (r r' : ρ) (k : κ) (s s' : α), (maps r)[k]? = some s → (maps r')[k]? = some s' →
      cmp s s' = .eq) :
    (∀ r r' order order', Enumerates order (maps r) → Enumerates order' (maps r') →
      rank cmp (order.map Prod.snd) = rank cmp (order'.map Prod.snd)) ↔
    ∀ (r r' : ρ) (k k' : κ) (s s' : α), (maps r)[k]? = some s → (maps r')[k']? = some s' →
      cmp s s' = .eq → s = s' := by
  constructor
  · intro h r r' k k' s s' hs hs' hss'
    obtain ⟨order, horder⟩ := Enumerates.exists_order (maps r)
    obtain ⟨order', horder'⟩ := Enumerates.exists_order (maps r')
    have hmem : s ∈ order.map Prod.snd :=
      List.mem_map.mpr ⟨(k, s), (horder.mem_iff k s).mpr hs, rfl⟩
    -- The other run's value is in its ranking, which is this run's too.
    have hmem' : s' ∈ order.map Prod.snd := by
      have hother : s' ∈ order'.map Prod.snd :=
        List.mem_map.mpr ⟨(k', s'), (horder'.mem_iff k' s').mpr hs', rfl⟩
      rw [← (rank_perm cmp _).mem_iff] at hother ⊢
      rwa [h r r' order order' horder horder']
    refine tie_eq_of_rank_eq cmp ?_ hmem hmem' hss'
    intro ys hys
    obtain ⟨moved, hmoved, rfl⟩ := exists_order_of_perm horder hys
    exact h r r moved order hmoved horder
  · intro h r r' order order' horder horder'
    have hsame (k : κ) : (maps r)[k]? = (maps r')[k]? := by
      cases hs : (maps r)[k]? with
      | none =>
        cases hs' : (maps r')[k]? with
        | none => rfl
        | some s' =>
          have hsome := hkeys r' r k (by rw [hs']; rfl)
          rw [hs] at hsome
          cases hsome
      | some s =>
        have hsome := hkeys r r' k (by rw [hs]; rfl)
        obtain ⟨s', hs'⟩ := Option.isSome_iff_exists.mp hsome
        rw [hs', h r r' k k s s' hs hs' (htie r r' k s s' hs hs')]
    have hperm : order.Perm order' := by
      rw [List.perm_ext_iff_of_nodup horder.nodup horder'.nodup]
      rintro ⟨k, s⟩
      rw [horder.mem_iff, horder'.mem_iff, hsame]
    refine rank_eq_of_perm cmp ?_ (hperm.map _)
    intro s hs s' hs' hss'
    obtain ⟨⟨k, _⟩, hk, rfl⟩ := List.mem_map.mp hs
    obtain ⟨⟨k', _⟩, hk', rfl⟩ := List.mem_map.mp hs'
    exact h r r k k' _ _ ((horder.mem_iff _ _).mp hk) ((horder.mem_iff _ _).mp hk') hss'

end Maps

end PProfessor.Ranking
