import PProfessor.PartitionPoint
import PProfessor.Symbolicated

set_option autoImplicit false

/-!
# Resolving addresses against image files

`resolve_all` of `src/symbolicate.rs`. What the object readers find in a file is
the parameter `files`, by path; demangling is the parameter `demangle`.
-/
namespace PProfessor.Capture
open PartitionPoint

/-- The resolved name and source location for a single address. -/
structure SymbolInfo where
  function : String
  file : String
  line : UInt32
  deriving DecidableEq, Repr

/-- A parsed object: its segments and symbols, with the names that can be read, and
what its debug info answers for a file address and the address it stands for. -/
structure ObjectFile where
  segments : List (Option String × UInt64)
  symbols : List (UInt64 × Option String)
  context : Option (UInt64 → UInt64 → Option SymbolInfo)

/-- The native object inside a mapped file. -/
structure ObjectData where
  len : UInt64
  parse : Option ObjectFile

/-- A memory-mapped image with its load metadata; `path` is the mapped file. -/
structure ImageInfo where
  loadAddress : UInt64
  textVmaddr : UInt64
  path : String
  object : ObjectData

/-- The loaded image behind a mapped one. -/
def ImageInfo.image (img : ImageInfo) : LoadedImage := ⟨img.loadAddress, img.path⟩

def maxDwarfBytes : UInt64 := 50 * 1024 * 1024

def textSegmentVmaddr (obj : ObjectFile) : UInt64 :=
  match obj.segments.find? fun seg => seg.1 = some "__TEXT" with
  | some seg => seg.2
  | none => (obj.segments.map Prod.snd).min?.getD 0

def openImage (files : String → Option ObjectData) (path : String) (loadAddress : UInt64) :
    Option ImageInfo :=
  match files path with
  | none => none
  | some object =>
    match object.parse with
    | none => none
    | some obj => some ⟨loadAddress, textSegmentVmaddr obj, path, object⟩

def buildSymbolIndex (obj : ObjectFile) : List (UInt64 × String) :=
  sortByKey Prod.fst <| obj.symbols.filterMap fun symbol =>
    match symbol.2 with
    | none => none
    | some name => if symbol.1 ≠ 0 ∧ name ≠ "" then some (symbol.1, name) else none

def resolveViaSymbolIndex (demangle : String → String) (symbols : List (UInt64 × String))
    (fileAddr : UInt64) : Option SymbolInfo :=
  match preceding (fun symbol => symbol.1 ≤ fileAddr) symbols with
  | none => none
  | some (_, name) => some ⟨demangle name, "", 0⟩

/-- The symbol of one address in the loop of `resolve_for_image`. -/
def symbolFor (demangle : String → String) (img : ImageInfo) (obj : ObjectFile)
    (addr : UInt64) : Option SymbolInfo :=
  let fileAddr := addr - img.loadAddress + img.textVmaddr
  let symbols := buildSymbolIndex obj
  let ctx := if img.object.len ≤ maxDwarfBytes then obj.context else none
  match ctx with
  | some resolveWithCtx =>
    (resolveWithCtx fileAddr addr).or (resolveViaSymbolIndex demangle symbols fileAddr)
  | none => resolveViaSymbolIndex demangle symbols fileAddr

def resolveForImage (demangle : String → String) (img : ImageInfo) (addrs : List UInt64)
    (out : Std.ExtHashMap UInt64 SymbolInfo) : Std.ExtHashMap UInt64 SymbolInfo :=
  match img.object.parse with
  | none => out
  | some obj =>
    addrs.foldl (fun out addr =>
      match symbolFor demangle img obj addr with
      | some info => out.insert addr info
      | none => out) out

def imageInfos (files : String → Option ObjectData) (images : List LoadedImage) :
    List ImageInfo :=
  let sortedImages := sortByKey LoadedImage.loadAddress images
  sortByKey ImageInfo.loadAddress
    (sortedImages.filterMap fun img => openImage files img.path img.loadAddress)

/-- The bucket of an address. Addresses beyond the end of the image have none. -/
def imageIndex (infos : List ImageInfo) (addr : UInt64) : Option ℕ :=
  let idx := partitionPoint (fun img => img.loadAddress ≤ addr) infos
  if idx > 0 then
    match infos[idx - 1]? with
    | some img => if addr - img.loadAddress < img.object.len then some (idx - 1) else none
    | none => none
  else none

def pushAddress (infos : List ImageInfo) (byImage : List (List UInt64)) (addr : UInt64) :
    List (List UInt64) :=
  match imageIndex infos addr with
  | some i => byImage.modify i (· ++ [addr])
  | none => byImage

/-- `by_image` after the loop over the addresses. -/
def addressesByImage (infos : List ImageInfo) (addresses : List UInt64) : List (List UInt64) :=
  addresses.foldl (pushAddress infos) (List.replicate infos.length [])

def resolveStep (demangle : String → String) (result : Std.ExtHashMap UInt64 SymbolInfo)
    (entry : ImageInfo × List UInt64) : Std.ExtHashMap UInt64 SymbolInfo :=
  if entry.2 = [] then result else resolveForImage demangle entry.1 entry.2 result

def resolveAll (files : String → Option ObjectData) (demangle : String → String)
    (images : List LoadedImage) (addresses : List UInt64) : Std.ExtHashMap UInt64 SymbolInfo :=
  if addresses = [] then ∅
  else
    let infos := imageInfos files images
    (infos.zip (addressesByImage infos addresses)).foldl (resolveStep demangle) ∅

/-- The symbol that `resolve_for_image` finds for the address in the image. -/
def ImageInfo.symbol (demangle : String → String) (img : ImageInfo) (addr : UInt64) :
    Option SymbolInfo :=
  img.object.parse.bind fun obj => symbolFor demangle img obj addr

/-- The loop over the images reaches `img` with the address in its bucket and
inserts the symbol. -/
def ResolvedWith (files : String → Option ObjectData) (demangle : String → String)
    (images : List LoadedImage) (addresses : List UInt64) (addr : UInt64) (img : ImageInfo)
    (info : SymbolInfo) : Prop :=
  ∃ addrs, (img, addrs) ∈ (imageInfos files images).zip
      (addressesByImage (imageInfos files images) addresses) ∧
    addr ∈ addrs ∧ img.symbol demangle addr = some info

theorem addressesByImage_getElem? (infos : List ImageInfo) (addresses : List UInt64) {i : ℕ}
    (hi : i < infos.length) : (addressesByImage infos addresses)[i]? =
      some (addresses.filter fun addr => imageIndex infos addr = some i) := by
  have hrun : ∀ byImage : List (List UInt64),
      (addresses.foldl (pushAddress infos) byImage)[i]? =
        byImage[i]?.map (· ++ addresses.filter fun addr => imageIndex infos addr = some i) := by
    induction addresses with
    | nil =>
      intro byImage
      cases h : byImage[i]? with
      | none => rw [List.foldl_nil, h, Option.map_none]
      | some addrs => rw [List.foldl_nil, h, Option.map_some, List.filter_nil, List.append_nil]
    | cons addr addresses ih =>
      intro byImage
      rw [List.foldl_cons, ih]
      unfold pushAddress
      cases hidx : imageIndex infos addr with
      | none => rw [List.filter_cons_of_neg (by simp [hidx])]
      | some j =>
        dsimp only
        rw [List.getElem?_modify]
        by_cases hj : j = i
        · rw [List.filter_cons_of_pos (by simp [hidx, hj])]
          cases byImage[i]? with
          | none => rfl
          | some addrs => simp [hj]
        · rw [List.filter_cons_of_neg (by simp [hidx, hj])]
          cases byImage[i]? with
          | none => rfl
          | some addrs => simp [hj]
  unfold addressesByImage
  rw [hrun, List.getElem?_replicate, if_pos hi, Option.map_some, List.nil_append]

theorem mem_bucket_iff {infos : List ImageInfo} {addresses : List UInt64} {img : ImageInfo}
    {addr : UInt64} :
    (∃ addrs, (img, addrs) ∈ infos.zip (addressesByImage infos addresses) ∧ addr ∈ addrs) ↔
      addr ∈ addresses ∧ ∃ i, imageIndex infos addr = some i ∧ infos[i]? = some img := by
  constructor
  · rintro ⟨addrs, hmem, haddr⟩
    obtain ⟨i, hi⟩ := List.mem_iff_getElem?.mp hmem
    obtain ⟨himg, haddrs⟩ := List.getElem?_zip_eq_some.mp hi
    rw [addressesByImage_getElem? infos addresses (List.getElem?_eq_some_iff.mp himg).choose,
      Option.some.injEq] at haddrs
    dsimp only at haddrs
    rw [← haddrs, List.mem_filter, decide_eq_true_eq] at haddr
    exact ⟨haddr.1, i, haddr.2, himg⟩
  · rintro ⟨haddr, i, hidx, himg⟩
    have haddrs := addressesByImage_getElem? infos addresses
      (List.getElem?_eq_some_iff.mp himg).choose
    refine ⟨_, List.mem_of_getElem? (List.getElem?_zip_eq_some.mpr ⟨himg, haddrs⟩), ?_⟩
    exact List.mem_filter.mpr ⟨haddr, decide_eq_true hidx⟩

/-- The bucket of an address is that of the image before the partition point, if the
image reaches as far. -/
theorem imageIndex_spec {infos : List ImageInfo} {addr : UInt64} {img : ImageInfo} :
    (∃ i, imageIndex infos addr = some i ∧ infos[i]? = some img) ↔
      preceding (fun img => decide (img.loadAddress ≤ addr)) infos = some img ∧
        addr - img.loadAddress < img.object.len := by
  unfold imageIndex preceding
  by_cases hzero : partitionPoint (fun img : ImageInfo => decide (img.loadAddress ≤ addr)) infos = 0
  · simp [hzero]
  · dsimp only
    rw [if_pos (Nat.pos_of_ne_zero hzero), if_neg hzero]
    cases hget : infos[partitionPoint (fun img : ImageInfo => decide (img.loadAddress ≤ addr)) infos
        - 1]? with
    | none => simp
    | some found =>
      dsimp only
      split_ifs with hreach
      · constructor
        · rintro ⟨i, hi, himg⟩
          rw [← Option.some.inj hi, hget] at himg
          rw [← Option.some.inj himg]
          exact ⟨rfl, hreach⟩
        · rintro ⟨himg, _⟩
          exact ⟨_, rfl, hget.trans himg⟩
      · constructor
        · rintro ⟨i, hi, _⟩
          cases hi
        · rintro ⟨himg, hlt⟩
          rw [Option.some.inj himg] at hreach
          exact absurd hlt hreach

theorem resolvedWith_iff {files : String → Option ObjectData} {demangle : String → String}
    {images : List LoadedImage} {addresses : List UInt64} {addr : UInt64} {img : ImageInfo}
    {info : SymbolInfo} : ResolvedWith files demangle images addresses addr img info ↔
      addr ∈ addresses ∧
      preceding (fun img => decide (img.loadAddress ≤ addr)) (imageInfos files images) =
        some img ∧
      addr - img.loadAddress < img.object.len ∧ img.symbol demangle addr = some info := by
  unfold ResolvedWith
  simp only [← and_assoc]
  rw [exists_and_right, mem_bucket_iff, imageIndex_spec]
  tauto

theorem resolveForImage_getElem? (demangle : String → String) (img : ImageInfo)
    (addrs : List UInt64) (out : Std.ExtHashMap UInt64 SymbolInfo) (addr : UInt64) :
    (resolveForImage demangle img addrs out)[addr]? =
      (if addr ∈ addrs then img.symbol demangle addr else none).or out[addr]? := by
  unfold resolveForImage ImageInfo.symbol
  cases img.object.parse with
  | none => simp
  | some obj =>
    dsimp only [Option.bind_some]
    induction addrs using List.reverseRecOn with
    | nil => simp
    | append_singleton addrs a ih =>
      rw [List.foldl_append, List.foldl_cons, List.foldl_nil]
      by_cases ha : a = addr
      · subst ha
        rw [if_pos (List.mem_append_right _ (List.mem_singleton_self a))]
        cases hs : symbolFor demangle img obj a with
        | some info => rw [Std.ExtHashMap.getElem?_insert_self, Option.some_or]
        | none => rw [ih, hs, ite_self]
      · have hmem : addr ∈ addrs ++ [a] ↔ addr ∈ addrs := by
          rw [List.mem_append, List.mem_singleton, or_iff_left (Ne.symm ha)]
        simp only [hmem]
        cases hs : symbolFor demangle img obj a with
        | some info =>
          rw [Std.ExtHashMap.getElem?_insert, if_neg (by rwa [beq_iff_eq]), ih]
        | none => exact ih

theorem resolveStep_getElem? (demangle : String → String)
    (result : Std.ExtHashMap UInt64 SymbolInfo) (entry : ImageInfo × List UInt64)
    (addr : UInt64) : (resolveStep demangle result entry)[addr]? =
      (if addr ∈ entry.2 then entry.1.symbol demangle addr else none).or result[addr]? := by
  unfold resolveStep
  split_ifs with h hmem hmem
  · rw [h] at hmem
    exact absurd hmem List.not_mem_nil
  · rfl
  · rw [resolveForImage_getElem?, if_pos hmem]
  · rw [resolveForImage_getElem?, if_neg hmem]

theorem resolveLoop_getElem? (demangle : String → String)
    {entries : List (ImageInfo × List UInt64)} {addr : UInt64} {info : SymbolInfo}
    (honly : ∀ e ∈ entries, ∀ e' ∈ entries, addr ∈ e.2 → addr ∈ e'.2 → e.1 = e'.1) :
    (entries.foldl (resolveStep demangle) ∅)[addr]? = some info ↔
      ∃ img addrs,
        (img, addrs) ∈ entries ∧ addr ∈ addrs ∧ img.symbol demangle addr = some info := by
  induction entries using List.reverseRecOn with
  | nil => simp
  | append_singleton entries e ih =>
    have hprefix := ih fun a ha b hb =>
      honly a (List.mem_append_left _ ha) b (List.mem_append_left _ hb)
    have hlast : e ∈ entries ++ [e] := List.mem_append_right _ (List.mem_singleton_self e)
    rw [List.foldl_append, List.foldl_cons, List.foldl_nil, resolveStep_getElem?]
    constructor
    · intro h
      rcases Option.or_eq_some_iff.mp h with hnew | ⟨_, hold⟩
      · split_ifs at hnew with hmem
        exact ⟨e.1, e.2, hlast, hmem, hnew⟩
      · obtain ⟨img, addrs, hin, haddr, hsymbol⟩ := hprefix.mp hold
        exact ⟨img, addrs, List.mem_append_left _ hin, haddr, hsymbol⟩
    · rintro ⟨img, addrs, hin, haddr, hsymbol⟩
      by_cases hmem : addr ∈ e.2
      · have heq := honly _ hin _ hlast haddr hmem
        dsimp only at heq
        rw [if_pos hmem, ← heq, hsymbol, Option.some_or]
      · rw [if_neg hmem, Option.none_or]
        rcases List.mem_append.mp hin with hold | hnew
        · exact hprefix.mpr ⟨img, addrs, hold, haddr, hsymbol⟩
        · rw [← List.mem_singleton.mp hnew] at hmem
          exact absurd haddr hmem

theorem resolveAll_getElem? (files : String → Option ObjectData) (demangle : String → String)
    (images : List LoadedImage) (addresses : List UInt64) (addr : UInt64) (info : SymbolInfo) :
    (resolveAll files demangle images addresses)[addr]? = some info ↔
      ∃ img, ResolvedWith files demangle images addresses addr img info := by
  unfold resolveAll
  split_ifs with hempty
  · rw [Std.ExtHashMap.getElem?_empty]
    constructor
    · intro h
      cases h
    · rintro ⟨img, h⟩
      rw [resolvedWith_iff, hempty] at h
      exact absurd h.1 List.not_mem_nil
  · refine resolveLoop_getElem? demangle fun e he e' he' hmem hmem' => ?_
    obtain ⟨_, hfirst⟩ := mem_bucket_iff.mp ⟨e.2, he, hmem⟩
    obtain ⟨_, hsecond⟩ := mem_bucket_iff.mp ⟨e'.2, he', hmem'⟩
    have hpreceding := (imageIndex_spec.mp hfirst).1
    rw [(imageIndex_spec.mp hsecond).1] at hpreceding
    exact (Option.some.inj hpreceding).symm

end PProfessor.Capture
