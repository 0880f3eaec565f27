import PProfessor.ImageMappings

set_option autoImplicit false

/-!
# The native symbolizer of a session

`NativeSymbolizer` of `src/symbolicate.rs`: addresses are resolved in batches, and those that
could not be resolved are tried again after the images have changed.
-/
namespace PProfessor.Capture
open PartitionPoint

/-- `resolve_all` finds one symbol for each address, whatever else it is asked. -/
def Pointwise (resolve : List LoadedImage → List UInt64 → Std.ExtHashMap UInt64 SymbolInfo)
    (symbol : List LoadedImage → UInt64 → Option SymbolInfo) : Prop :=
  ∀ (images : List LoadedImage) (addresses : List UInt64) (a : UInt64),
    (resolve images addresses)[a]? = if a ∈ addresses then symbol images a else none

/-- The symbol of the image before an address, if the image reaches as far. -/
def symbolAt (files : String → Option ObjectData) (demangle : String → String)
    (images : List LoadedImage) (a : UInt64) : Option SymbolInfo :=
  (preceding (fun img => decide (img.loadAddress ≤ a)) (imageInfos files images)).bind fun img =>
    if a - img.loadAddress < img.object.len then img.symbol demangle a else none

theorem resolveAll_pointwise (files : String → Option ObjectData) (demangle : String → String) :
    Pointwise (resolveAll files demangle) (symbolAt files demangle) := by
  intro images addresses a
  refine Option.ext fun info => ?_
  rw [resolveAll_getElem?]
  simp only [resolvedWith_iff]
  unfold symbolAt
  constructor
  · rintro ⟨img, hmem, himg, hreach, hsymbol⟩
    rw [if_pos hmem, himg, Option.bind_some, if_pos hreach, hsymbol]
  · intro h
    split_ifs at h with hmem
    obtain ⟨img, himg, h⟩ := Option.bind_eq_some_iff.mp h
    split_ifs at h with hreach
    exact ⟨img, hmem, himg, hreach, h⟩

structure NativeSymbolizer where
  images : List LoadedImage
  resolved : Std.ExtHashMap UInt64 SymbolInfo
  attempted : Finset UInt64

/-- `filter(|address| attempted.insert(*address))`: what it lets through, and the set after it. -/
def pendingOf : List UInt64 → Finset UInt64 → List UInt64 × Finset UInt64
  | [], attempted => ([], attempted)
  | a :: rest, attempted =>
    if a ∈ attempted then pendingOf rest attempted
    else
      let (pending, attempted) := pendingOf rest (insert a attempted)
      (a :: pending, attempted)

namespace NativeSymbolizer

section

variable (resolve : List LoadedImage → List UInt64 → Std.ExtHashMap UInt64 SymbolInfo)

def new (images : List LoadedImage) (addresses : List UInt64) : NativeSymbolizer where
  images := images
  resolved := resolve images addresses
  attempted := addresses.toFinset

def resolveMore (s : NativeSymbolizer) (addresses : List UInt64) : NativeSymbolizer :=
  let (pending, attempted) := pendingOf addresses s.attempted
  if pending ≠ [] then
    { s with attempted := attempted, resolved := s.resolved ∪ resolve s.images pending }
  else { s with attempted := attempted }

def refreshImages (s : NativeSymbolizer) (images : List LoadedImage) : NativeSymbolizer :=
  if images = [] ∨ images = s.images then s
  else { s with images := images, attempted := s.attempted.filter fun a => a ∈ s.resolved }

def symbolizeFrame (s : NativeSymbolizer) : Symbolizer := fun a =>
  s.resolved[a]?.map fun info => ⟨info.function, info.file, info.line⟩

/-- The calls of a session after `new`. -/
inductive Op where
  | resolveMore (addresses : List UInt64)
  | refreshImages (images : List LoadedImage)

def step (s : NativeSymbolizer) : Op → NativeSymbolizer
  | .resolveMore addresses => s.resolveMore resolve addresses
  | .refreshImages images => s.refreshImages images

def run (images : List LoadedImage) (addresses : List UInt64) (ops : List Op) :
    NativeSymbolizer :=
  ops.foldl (step resolve) (new resolve images addresses)

end

theorem pendingOf_spec (addresses : List UInt64) (attempted : Finset UInt64) :
    (∀ a, a ∈ (pendingOf addresses attempted).1 ↔ a ∈ addresses ∧ a ∉ attempted) ∧
      (pendingOf addresses attempted).2 = attempted ∪ addresses.toFinset := by
  induction addresses generalizing attempted with
  | nil => simp [pendingOf]
  | cons b rest ih =>
    unfold pendingOf
    split_ifs with hb
    · obtain ⟨hmem, hset⟩ := ih attempted
      constructor
      · intro a
        rw [hmem, List.mem_cons]
        constructor
        · exact fun h => ⟨.inr h.1, h.2⟩
        · rintro ⟨rfl | ha, hnot⟩
          · exact absurd hb hnot
          · exact ⟨ha, hnot⟩
      · rw [hset, List.toFinset_cons, Finset.union_insert, Finset.insert_eq_of_mem]
        exact Finset.mem_union_left _ hb
    · obtain ⟨hmem, hset⟩ := ih (insert b attempted)
      constructor
      · intro a
        change a ∈ b :: (pendingOf rest (insert b attempted)).1 ↔ _
        rw [List.mem_cons, hmem, List.mem_cons, Finset.mem_insert]
        by_cases hab : a = b
        · simp [hab, hb]
        · simp [hab]
      · change (pendingOf rest (insert b attempted)).2 = _
        rw [hset, List.toFinset_cons, Finset.union_insert, Finset.insert_union]

variable {resolve : List LoadedImage → List UInt64 → Std.ExtHashMap UInt64 SymbolInfo}
  {symbol : List LoadedImage → UInt64 → Option SymbolInfo}

theorem resolveMore_images (s : NativeSymbolizer) (addresses : List UInt64) :
    (s.resolveMore resolve addresses).images = s.images := by
  unfold resolveMore
  dsimp only
  split_ifs <;> rfl

theorem resolveMore_attempted (s : NativeSymbolizer) (addresses : List UInt64) :
    (s.resolveMore resolve addresses).attempted = s.attempted ∪ addresses.toFinset := by
  rw [← (pendingOf_spec addresses s.attempted).2]
  unfold resolveMore
  dsimp only
  split_ifs <;> rfl

theorem resolveMore_resolved (h : Pointwise resolve symbol) (s : NativeSymbolizer)
    (addresses : List UInt64) (a : UInt64) : (s.resolveMore resolve addresses).resolved[a]? =
      (if a ∈ addresses ∧ a ∉ s.attempted then symbol s.images a else none).or s.resolved[a]? := by
  have hmem := (pendingOf_spec addresses s.attempted).1 a
  unfold resolveMore
  dsimp only
  by_cases hpending : (pendingOf addresses s.attempted).1 = []
  · rw [if_neg (not_not.mpr hpending), if_neg, Option.none_or]
    rw [← hmem, hpending]
    exact List.not_mem_nil
  · rw [if_pos hpending]
    dsimp only
    rw [Std.ExtHashMap.getElem?_union, h]
    simp only [hmem]

/-- Addresses that were attempted in vain have no symbol in the images of now. -/
structure UpToDate (symbol : List LoadedImage → UInt64 → Option SymbolInfo)
    (s : NativeSymbolizer) : Prop where
  attempted : ∀ a info, s.resolved[a]? = some info → a ∈ s.attempted
  unresolved : ∀ a ∈ s.attempted, s.resolved[a]? = none → symbol s.images a = none

theorem upToDate_new (h : Pointwise resolve symbol) (images : List LoadedImage)
    (addresses : List UInt64) : (new resolve images addresses).UpToDate symbol := by
  constructor
  · intro a info ha
    change (resolve images addresses)[a]? = some info at ha
    rw [h] at ha
    split_ifs at ha with hmem
    exact List.mem_toFinset.mpr hmem
  · intro a ha hnone
    change (resolve images addresses)[a]? = none at hnone
    rwa [h, if_pos (List.mem_toFinset.mp ha)] at hnone

theorem UpToDate.resolveMore (hpointwise : Pointwise resolve symbol) {s : NativeSymbolizer}
    (h : s.UpToDate symbol) (addresses : List UInt64) :
    (s.resolveMore resolve addresses).UpToDate symbol := by
  constructor
  · intro a info ha
    rw [resolveMore_attempted, Finset.mem_union, List.mem_toFinset]
    rw [resolveMore_resolved hpointwise] at ha
    rcases Option.or_eq_some_iff.mp ha with hnew | ⟨-, hold⟩
    · split_ifs at hnew with hpending
      exact .inr hpending.1
    · exact .inl (h.attempted a info hold)
  · intro a ha hnone
    rw [resolveMore_attempted, Finset.mem_union, List.mem_toFinset] at ha
    rw [resolveMore_resolved hpointwise, Option.or_eq_none_iff] at hnone
    rw [resolveMore_images]
    by_cases hattempted : a ∈ s.attempted
    · exact h.unresolved a hattempted hnone.2
    · have hnew := hnone.1
      rwa [if_pos ⟨ha.resolve_left hattempted, hattempted⟩] at hnew

theorem UpToDate.refreshImages {s : NativeSymbolizer} (h : s.UpToDate symbol)
    (images : List LoadedImage) : (s.refreshImages images).UpToDate symbol := by
  unfold NativeSymbolizer.refreshImages
  split_ifs
  · exact h
  · constructor
    · intro a info ha
      refine Finset.mem_filter.mpr ⟨h.attempted a info ha, ?_⟩
      rw [Std.ExtHashMap.mem_iff_isSome_getElem?, ha]
      rfl
    · intro a ha hnone
      have hmem := (Finset.mem_filter.mp ha).2
      rw [Std.ExtHashMap.mem_iff_isSome_getElem?, hnone] at hmem
      cases hmem

theorem UpToDate.step (hpointwise : Pointwise resolve symbol) {s : NativeSymbolizer}
    (h : s.UpToDate symbol) (op : Op) : (s.step resolve op).UpToDate symbol := by
  cases op with
  | resolveMore addresses => exact h.resolveMore hpointwise addresses
  | refreshImages images => exact h.refreshImages images

variable (images : List LoadedImage) (addresses : List UInt64)

theorem run_concat (ops : List Op) (op : Op) : run resolve images addresses (ops ++ [op]) =
    (run resolve images addresses ops).step resolve op := by
  rw [run, List.foldl_append]
  rfl

theorem upToDate_run (h : Pointwise resolve symbol) (ops : List Op) :
    (run resolve images addresses ops).UpToDate symbol := by
  induction ops using List.reverseRecOn with
  | nil => exact upToDate_new h images addresses
  | append_singleton ops op ih =>
    rw [run_concat]
    exact ih.step h op

/-- The symbol was stored by `new`, or by a later batch with the address, as the images of that
moment had it. -/
def Stored (resolve : List LoadedImage → List UInt64 → Std.ExtHashMap UInt64 SymbolInfo)
    (symbol : List LoadedImage → UInt64 → Option SymbolInfo) (images : List LoadedImage)
    (addresses : List UInt64) (ops : List Op) (a : UInt64) (info : SymbolInfo) : Prop :=
  (a ∈ addresses ∧ symbol images a = some info) ∨
    ∃ before batch after, ops = before ++ .resolveMore batch :: after ∧ a ∈ batch ∧
      (run resolve images addresses before).resolved[a]? = none ∧
      symbol (run resolve images addresses before).images a = some info

theorem Stored.concat {ops : List Op} {a : UInt64} {info : SymbolInfo}
    (h : Stored resolve symbol images addresses ops a info) (op : Op) :
    Stored resolve symbol images addresses (ops ++ [op]) a info := by
  refine h.imp_right ?_
  rintro ⟨before, batch, after, rfl, hstored⟩
  exact ⟨before, batch, after ++ [op], by rw [List.append_assoc, List.cons_append], hstored⟩

theorem stored_of_resolved (h : Pointwise resolve symbol) {ops : List Op} {a : UInt64}
    {info : SymbolInfo} (ha : (run resolve images addresses ops).resolved[a]? = some info) :
    Stored resolve symbol images addresses ops a info := by
  induction ops using List.reverseRecOn with
  | nil =>
    change (resolve images addresses)[a]? = some info at ha
    rw [h] at ha
    split_ifs at ha with hmem
    exact .inl ⟨hmem, ha⟩
  | append_singleton ops op ih =>
    rw [run_concat] at ha
    cases op with
    | refreshImages newImages =>
      change ((run resolve images addresses ops).refreshImages newImages).resolved[a]? = _ at ha
      have hsame : ((run resolve images addresses ops).refreshImages newImages).resolved =
          (run resolve images addresses ops).resolved := by
        unfold NativeSymbolizer.refreshImages
        split_ifs <;> rfl
      rw [hsame] at ha
      exact (ih ha).concat images addresses _
    | resolveMore batch =>
      change ((run resolve images addresses ops).resolveMore resolve batch).resolved[a]? = _ at ha
      rw [resolveMore_resolved h] at ha
      cases hold : (run resolve images addresses ops).resolved[a]? with
      | some old =>
        have hattempted := (upToDate_run images addresses h ops).attempted a old hold
        rw [if_neg fun hpending => hpending.2 hattempted, Option.none_or] at ha
        exact (ih ha).concat images addresses _
      | none =>
        rw [hold, Option.or_none] at ha
        split_ifs at ha with hpending
        exact .inr ⟨ops, batch, [], rfl, hpending.1, hold, ha⟩

/-- The addresses of the calls of `resolve_more`. -/
def requested : List Op → List UInt64
  | [] => []
  | .resolveMore batch :: rest => batch ++ requested rest
  | .refreshImages _ :: rest => requested rest

/-- The call brings no other images. -/
def Op.Keeps (images : List LoadedImage) : Op → Prop
  | .resolveMore _ => True
  | .refreshImages newImages => newImages = [] ∨ newImages = images

structure Resolved (symbol : List LoadedImage → UInt64 → Option SymbolInfo)
    (images : List LoadedImage) (addresses : List UInt64) (s : NativeSymbolizer) : Prop where
  loaded : s.images = images
  attempted : s.attempted = addresses.toFinset
  resolved : ∀ a : UInt64, s.resolved[a]? = if a ∈ addresses then symbol images a else none

theorem resolved_new (h : Pointwise resolve symbol) :
    (new resolve images addresses).Resolved symbol images addresses :=
  ⟨rfl, rfl, h images addresses⟩

variable {images} {addresses}

theorem Resolved.resolveMore (hpointwise : Pointwise resolve symbol) {s : NativeSymbolizer}
    (h : s.Resolved symbol images addresses) (batch : List UInt64) :
    (s.resolveMore resolve batch).Resolved symbol images (addresses ++ batch) := by
  refine ⟨?_, ?_, fun a => ?_⟩
  · rw [resolveMore_images, h.loaded]
  · rw [resolveMore_attempted, h.attempted, List.toFinset_append]
  · rw [resolveMore_resolved hpointwise, h.resolved, h.loaded, h.attempted]
    simp only [List.mem_toFinset, List.mem_append]
    by_cases ha : a ∈ addresses
    · simp [ha]
    · simp [ha]

theorem Resolved.eq {s s' : NativeSymbolizer} (h : s.Resolved symbol images addresses)
    (h' : s'.Resolved symbol images addresses) : s = s' := by
  have hresolved : s.resolved = s'.resolved := by
    refine Std.ExtHashMap.ext_getElem? fun a => ?_
    rw [h.resolved, h'.resolved]
  obtain ⟨_, _, _⟩ := s
  obtain ⟨_, _, _⟩ := s'
  rw [mk.injEq]
  exact ⟨h.loaded.trans h'.loaded.symm, hresolved, h.attempted.trans h'.attempted.symm⟩

theorem Resolved.foldl (hpointwise : Pointwise resolve symbol) {s : NativeSymbolizer}
    (h : s.Resolved symbol images addresses) {ops : List Op}
    (hops : ∀ op ∈ ops, op.Keeps images) :
    (ops.foldl (step resolve) s).Resolved symbol images (addresses ++ requested ops) := by
  induction ops generalizing s addresses with
  | nil =>
    rw [requested, List.append_nil]
    exact h
  | cons op rest ih =>
    rw [List.forall_mem_cons] at hops
    rw [List.foldl_cons]
    cases op with
    | resolveMore batch =>
      rw [requested, ← List.append_assoc]
      exact ih (h.resolveMore hpointwise batch) hops.2
    | refreshImages newImages =>
      have hsame : s.step resolve (.refreshImages newImages) = s := by
        have hkeeps : newImages = [] ∨ newImages = images := hops.1
        change s.refreshImages newImages = s
        rw [NativeSymbolizer.refreshImages, h.loaded, if_pos hkeeps]
      rw [hsame]
      exact ih h hops.2

/-- However a session goes on, every address with a symbol was attempted, every symbol is the one
that the images of its moment had, and an address attempted in vain has none in the images of now.
As long as the images stay, batches come to the same as one call of `new`. -/
theorem symbolizer_keeps_trying
    (resolve : List LoadedImage → List UInt64 → Std.ExtHashMap UInt64 SymbolInfo)
    (symbol : List LoadedImage → UInt64 → Option SymbolInfo) (h : Pointwise resolve symbol)
    (images : List LoadedImage) (addresses : List UInt64) (ops : List Op) :
    (∀ a info, (run resolve images addresses ops).resolved[a]? = some info →
      a ∈ (run resolve images addresses ops).attempted ∧
        Stored resolve symbol images addresses ops a info) ∧
    (∀ a ∈ (run resolve images addresses ops).attempted,
      (run resolve images addresses ops).resolved[a]? = none →
        symbol (run resolve images addresses ops).images a = none) ∧
    ((∀ op ∈ ops, op.Keeps images) → (run resolve images addresses ops).symbolizeFrame =
      (new resolve images (addresses ++ requested ops)).symbolizeFrame) := by
  have hrun := upToDate_run images addresses h ops
  refine ⟨fun a info ha => ⟨hrun.attempted a info ha, ?_⟩, hrun.unresolved, fun hops => ?_⟩
  · exact stored_of_resolved images addresses h ha
  · have hresolved := (resolved_new images addresses h).foldl h hops
    rw [run, hresolved.eq (resolved_new images (addresses ++ requested ops) h)]

theorem symbolAt_gapImages : symbolAt gapFiles id gapImages 0x1200 = some ⟨"main", "", 0⟩ := by
  rw [symbolAt, gapImages_preceding, Option.bind_some]
  exact (if_pos (by decide)).trans (appObject_symbol (by decide))

/-- The address is asked for before the executable is loaded, and again after it. -/
theorem symbolizer_keeps_trying_app : ∃ info,
    (run (resolveAll gapFiles id) [] [0x1200] [.refreshImages gapImages,
      .resolveMore [0x1200]]).resolved[(0x1200 : UInt64)]? = some info ∧
    Stored (resolveAll gapFiles id) (symbolAt gapFiles id) [] [0x1200]
      [.refreshImages gapImages, .resolveMore [0x1200]] 0x1200 info := by
  obtain ⟨hstored, hvain, -⟩ := symbolizer_keeps_trying (resolveAll gapFiles id)
    (symbolAt gapFiles id) (resolveAll_pointwise gapFiles id) [] [0x1200]
    [.refreshImages gapImages, .resolveMore [0x1200]]
  have hattempted : 0x1200 ∈ (run (resolveAll gapFiles id) [] [0x1200]
      [.refreshImages gapImages, .resolveMore [0x1200]]).attempted := by
    change 0x1200 ∈ (NativeSymbolizer.resolveMore _ _ [0x1200]).attempted
    rw [resolveMore_attempted]
    exact Finset.mem_union_right _ (by decide)
  cases hresolved : (run (resolveAll gapFiles id) [] [0x1200]
      [.refreshImages gapImages, .resolveMore [0x1200]]).resolved[(0x1200 : UInt64)]? with
  | some info => exact ⟨info, rfl, (hstored _ info hresolved).2⟩
  | none =>
    have hnone := hvain _ hattempted hresolved
    have himages : (run (resolveAll gapFiles id) [] [0x1200]
        [.refreshImages gapImages, .resolveMore [0x1200]]).images = gapImages := by
      change (NativeSymbolizer.resolveMore _ _ [0x1200]).images = _
      rw [resolveMore_images]
      rfl
    rw [himages, symbolAt_gapImages] at hnone
    cases hnone

end NativeSymbolizer

end PProfessor.Capture
