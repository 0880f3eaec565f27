import PProfessor.ImageResolution
import PProfessor.ProtoExport

set_option autoImplicit false

/-!
# Images of symbols and of mappings

`resolve_all` looks for the image of an address among the images whose files can be
read, `build_proto` among all of them.
-/
namespace PProfessor.Capture
open NumberedTable PartitionPoint Pprof

/-- The image behind the `mapping_id` of an address. -/
def mappedImage (images : List LoadedImage) (addr : UInt64) : Option LoadedImage :=
  let sorted := sortByKey LoadedImage.loadAddress images
  let id := mappingFor sorted addr
  if id = 0 then none else sorted[id.toNat - 1]?

/-- No image above the address, and none nearer to it from below. -/
structure Nearest (images : List LoadedImage) (addr : UInt64) (image : LoadedImage) : Prop where
  loaded : image ∈ images
  below : image.loadAddress ≤ addr
  greatest : ∀ other ∈ images, other.loadAddress ≤ addr → other.loadAddress ≤ image.loadAddress

theorem mappingFor_toNat {images : List LoadedImage} (hlen : images.length < 2 ^ 64)
    (addr : UInt64) : (mappingFor images addr).toNat =
      partitionPoint (fun image => decide (image.loadAddress ≤ addr)) images :=
  UInt64.toNat_ofNat_of_lt' ((partitionPoint_le _ images).trans_lt hlen)

theorem mappedImage_eq {images : List LoadedImage} (hlen : images.length < 2 ^ 64)
    (addr : UInt64) : mappedImage images addr =
      ((sortByKey LoadedImage.loadAddress images).filter fun image =>
        decide (image.loadAddress ≤ addr)).getLast? := by
  have hsorted := sortByKey_sorted LoadedImage.loadAddress images
  have hlen' : (sortByKey LoadedImage.loadAddress images).length < 2 ^ 64 := by
    rwa [(sortByKey_perm LoadedImage.loadAddress images).length_eq]
  rw [← preceding_eq_filter (partitioned_of_sorted hsorted addr)]
  unfold mappedImage preceding
  dsimp only
  rw [← mappingFor_toNat hlen' addr]
  by_cases hzero : mappingFor (sortByKey LoadedImage.loadAddress images) addr = 0
  · have hnat : (mappingFor (sortByKey LoadedImage.loadAddress images) addr).toNat = 0 :=
      congrArg UInt64.toNat hzero
    rw [if_pos hzero, if_pos hnat]
  · have hnat : (mappingFor (sortByKey LoadedImage.loadAddress images) addr).toNat ≠ 0 :=
      fun h => hzero (UInt64.toNat_inj.mp h)
    rw [if_neg hzero, if_neg hnat]

theorem mappedImage_nearest {images : List LoadedImage} (hlen : images.length < 2 ^ 64)
    {addr : UInt64} {image : LoadedImage} (h : mappedImage images addr = some image) :
    Nearest images addr image := by
  have hsorted := sortByKey_sorted LoadedImage.loadAddress images
  have hperm := sortByKey_perm LoadedImage.loadAddress images
  rw [mappedImage_eq hlen, ← preceding_eq_filter (partitioned_of_sorted hsorted addr)] at h
  obtain ⟨hbelow, hmem⟩ := preceding_spec h
  refine ⟨hperm.mem_iff.mp hmem, of_decide_eq_true hbelow, fun other hother => ?_⟩
  exact preceding_greatest hsorted h other (hperm.mem_iff.mpr hother)

theorem openImage_image {files : String → Option ObjectData} {image : LoadedImage}
    {img : ImageInfo} (h : openImage files image.path image.loadAddress = some img) :
    img.image = image := by
  unfold openImage at h
  cases hfile : files image.path with
  | none =>
    rw [hfile] at h
    cases h
  | some object =>
    rw [hfile] at h
    dsimp only at h
    cases hparse : object.parse with
    | none =>
      rw [hparse] at h
      cases h
    | some obj =>
      rw [hparse] at h
      rw [← Option.some.inj h]
      rfl

/-- Among the images that can be read the search finds the nearest one: all images
between it and the address cannot be read. -/
theorem preceding_imageInfos {files : String → Option ObjectData} {images : List LoadedImage}
    {addr : UInt64} {img : ImageInfo} :
    preceding (fun img => decide (img.loadAddress ≤ addr)) (imageInfos files images) = some img ↔
      ∃ below image unread, ((sortByKey LoadedImage.loadAddress images).filter fun image =>
          decide (image.loadAddress ≤ addr)) = below ++ image :: unread ∧
        openImage files image.path image.loadAddress = some img ∧
        ∀ other ∈ unread, openImage files other.path other.loadAddress = none := by
  have hsorted := sortByKey_sorted LoadedImage.loadAddress images
  have hload : ∀ (image : LoadedImage) (img : ImageInfo),
      openImage files image.path image.loadAddress = some img →
        img.loadAddress = image.loadAddress :=
    fun image img h => congrArg LoadedImage.loadAddress (openImage_image h)
  have hinfos : imageInfos files images =
      (sortByKey LoadedImage.loadAddress images).filterMap fun image =>
        openImage files image.path image.loadAddress := by
    unfold imageInfos
    apply sortByKey_of_sorted
    rw [List.pairwise_filterMap]
    refine hsorted.imp fun {a b} hab img himg img' himg' => ?_
    rw [hload a img himg, hload b img' himg']
    exact hab
  rw [hinfos]
  refine preceding_filterMap (partitioned_of_sorted hsorted addr) fun image img h => ?_
  rw [hload image img h]

/-- Images that cannot be read lie between the address and the nearest image that
can, and that image reaches as far as the address and has a symbol for it. -/
def SymbolFromBelow (files : String → Option ObjectData) (demangle : String → String)
    (images : List LoadedImage) (addr : UInt64) : Prop :=
  ∃ below image unread img info,
    ((sortByKey LoadedImage.loadAddress images).filter fun image =>
      decide (image.loadAddress ≤ addr)) = below ++ image :: unread ∧
    unread ≠ [] ∧ (∀ other ∈ unread, openImage files other.path other.loadAddress = none) ∧
    openImage files image.path image.loadAddress = some img ∧
    addr - img.loadAddress < img.object.len ∧ img.symbol demangle addr = some info

theorem mappedImage_eq_some_iff {files : String → Option ObjectData} {images : List LoadedImage}
    (hlen : images.length < 2 ^ 64) {addr : UInt64} {below unread : List LoadedImage}
    {image : LoadedImage} {img : ImageInfo}
    (hsplit : ((sortByKey LoadedImage.loadAddress images).filter fun image =>
      decide (image.loadAddress ≤ addr)) = below ++ image :: unread)
    (hopen : openImage files image.path image.loadAddress = some img)
    (hunread : ∀ other ∈ unread, openImage files other.path other.loadAddress = none) :
    mappedImage images addr = some img.image ↔ unread = [] := by
  rw [mappedImage_eq hlen, hsplit, openImage_image hopen]
  induction unread using List.reverseRecOn with
  | nil =>
    rw [List.getLast?_concat]
    exact iff_of_true rfl rfl
  | append_singleton unread other =>
    rw [← List.cons_append, ← List.append_assoc, List.getLast?_concat]
    refine iff_of_false (fun h => ?_) (List.append_ne_nil_of_right_ne_nil _ (List.cons_ne_nil _ _))
    have hnone := hunread other (List.mem_append_right _ (List.mem_singleton_self other))
    rw [Option.some.inj h, hopen] at hnone
    cases hnone

/-- A symbol comes from the image of its mapping unless images that cannot be read
let it come from one further below. -/
theorem symbols_match_mappings (files : String → Option ObjectData)
    (demangle : String → String) (images : List LoadedImage) (hlen : images.length < 2 ^ 64)
    (addresses : List UInt64) (addr : UInt64) :
    (∀ info, (resolveAll files demangle images addresses)[addr]? = some info →
      ∃ img, ResolvedWith files demangle images addresses addr img info ∧
        mappedImage images addr = some img.image ∧ Nearest images addr img.image) ↔
    addr ∉ addresses ∨ ¬ SymbolFromBelow files demangle images addr := by
  rw [← not_and_or]
  constructor
  · rintro h ⟨haddr, below, image, unread, img, info, hsplit, hne, hunread, hopen, hreach, hsymbol⟩
    have hpreceding := preceding_imageInfos.mpr ⟨below, image, unread, hsplit, hopen, hunread⟩
    have hresolved := (resolveAll_getElem? files demangle images addresses addr info).mpr
      ⟨img, resolvedWith_iff.mpr ⟨haddr, hpreceding, hreach, hsymbol⟩⟩
    obtain ⟨img', hwith, hmapped, -⟩ := h info hresolved
    have hsame := (resolvedWith_iff.mp hwith).2.1
    rw [hpreceding, Option.some.injEq] at hsame
    subst hsame
    exact hne ((mappedImage_eq_some_iff hlen hsplit hopen hunread).mp hmapped)
  · intro h info hinfo
    obtain ⟨img, hwith⟩ := (resolveAll_getElem? files demangle images addresses addr info).mp hinfo
    obtain ⟨haddr, hpreceding, hreach, hsymbol⟩ := resolvedWith_iff.mp hwith
    obtain ⟨below, image, unread, hsplit, hopen, hunread⟩ := preceding_imageInfos.mp hpreceding
    have hnil : unread = [] := by
      by_contra hne
      exact h ⟨haddr, below, image, unread, img, info, hsplit, hne, hunread, hopen, hreach, hsymbol⟩
    have hmapped := (mappedImage_eq_some_iff hlen hsplit hopen hunread).mpr hnil
    exact ⟨img, hwith, hmapped, mappedImage_nearest hlen hmapped⟩

def gapImages : List LoadedImage := [⟨0x1000, "/bin/app"⟩, ⟨0x3000, "/lib/gone.so"⟩]

def appObject : ObjectData :=
  ⟨0x5000, some ⟨[(some "__TEXT", 0x100000000)], [(0x100000100, some "main")], none⟩⟩

def gapFiles (path : String) : Option ObjectData :=
  if path = "/bin/app" then some appObject else none

theorem gapImages_sorted : sortByKey LoadedImage.loadAddress gapImages = gapImages :=
  sortByKey_of_sorted (by decide)

theorem gapImages_infos : imageInfos gapFiles gapImages =
    [⟨0x1000, 0x100000000, "/bin/app", appObject⟩] := by
  unfold imageInfos
  rw [gapImages_sorted]
  exact sortByKey_of_sorted (List.pairwise_singleton _ _)

theorem resolveViaSymbolIndex_singleton (demangle : String → String) {address : UInt64}
    {name : String} {fileAddr : UInt64} (h : address ≤ fileAddr) :
    resolveViaSymbolIndex demangle [(address, name)] fileAddr = some ⟨demangle name, "", 0⟩ := by
  simp [resolveViaSymbolIndex, preceding_eq_getLast?, h]

theorem symbolFor_of_no_context (demangle : String → String) (img : ImageInfo) {obj : ObjectFile}
    (h : obj.context = none) (addr : UInt64) : symbolFor demangle img obj addr =
      resolveViaSymbolIndex demangle (buildSymbolIndex obj)
        (addr - img.loadAddress + img.textVmaddr) := by
  unfold symbolFor
  rw [h]
  dsimp only
  rw [ite_self]

theorem appObject_symbol {addr : UInt64} (h : 0x100000100 ≤ addr - 0x1000 + 0x100000000) :
    ImageInfo.symbol id ⟨0x1000, 0x100000000, "/bin/app", appObject⟩ addr =
      some ⟨"main", "", 0⟩ := by
  have hindex : buildSymbolIndex ⟨[(some "__TEXT", 0x100000000)], [(0x100000100, some "main")],
      none⟩ = [(0x100000100, "main")] := by
    unfold buildSymbolIndex
    rw [List.filterMap_cons]
    exact sortByKey_of_sorted (List.pairwise_singleton _ _)
  unfold ImageInfo.symbol appObject
  rw [Option.bind_some, symbolFor_of_no_context id _ rfl, hindex]
  exact resolveViaSymbolIndex_singleton id h

theorem gapImages_preceding : preceding (fun img => decide (img.loadAddress ≤ 0x1200))
    (imageInfos gapFiles gapImages) = some ⟨0x1000, 0x100000000, "/bin/app", appObject⟩ := by
  rw [gapImages_infos, preceding_eq_getLast?, List.takeWhile_cons_of_pos (by decide)]
  rfl

theorem symbols_match_mappings_app :
    (resolveAll gapFiles id gapImages [0x1200])[(0x1200 : UInt64)]? = some ⟨"main", "", 0⟩ ∧
      ∃ img, ResolvedWith gapFiles id gapImages [0x1200] 0x1200 img ⟨"main", "", 0⟩ ∧
        mappedImage gapImages 0x1200 = some img.image ∧ Nearest gapImages 0x1200 img.image := by
  have hresolved : (resolveAll gapFiles id gapImages [0x1200])[(0x1200 : UInt64)]? =
      some ⟨"main", "", 0⟩ := by
    rw [resolveAll_getElem?]
    refine ⟨_, resolvedWith_iff.mpr ⟨List.mem_singleton_self _, gapImages_preceding, ?_, ?_⟩⟩
    · change (0x1200 : UInt64) - 0x1000 < 0x5000
      decide
    · exact appObject_symbol (by decide)
  refine ⟨hresolved, (symbols_match_mappings gapFiles id gapImages (by decide) [0x1200]
    0x1200).mpr (.inr ?_) _ hresolved⟩
  rintro ⟨below, image, unread, img, info, hsplit, hne, -⟩
  have hbelow : (gapImages.filter fun image => decide (image.loadAddress ≤ 0x1200)).length = 1 := by
    decide
  rw [gapImages_sorted] at hsplit
  rw [hsplit, List.length_append, List.length_cons] at hbelow
  exact hne (List.length_eq_zero_iff.mp (by omega))

/-- Above the load address of a library whose file is gone, the symbol is that of
the executable and the mapping is that of the library. -/
theorem symbols_match_mappings_gap :
    (resolveAll gapFiles id gapImages [0x3500])[(0x3500 : UInt64)]? = some ⟨"main", "", 0⟩ ∧
    ∀ img info, ResolvedWith gapFiles id gapImages [0x3500] 0x3500 img info →
      mappedImage gapImages 0x3500 ≠ some img.image := by
  have hmapped : mappedImage gapImages 0x3500 = some ⟨0x3000, "/lib/gone.so"⟩ := by
    rw [mappedImage_eq (by decide), gapImages_sorted]
    decide
  have hpreceding : preceding (fun img => decide (img.loadAddress ≤ 0x3500))
      (imageInfos gapFiles gapImages) = some ⟨0x1000, 0x100000000, "/bin/app", appObject⟩ := by
    rw [gapImages_infos, preceding_eq_getLast?, List.takeWhile_cons_of_pos (by decide)]
    rfl
  constructor
  · rw [resolveAll_getElem?]
    refine ⟨_, resolvedWith_iff.mpr ⟨List.mem_singleton_self _, hpreceding, ?_, ?_⟩⟩
    · change (0x3500 : UInt64) - 0x1000 < 0x5000
      decide
    · exact appObject_symbol (by decide)
  · intro img info hwith hsame
    have hfound := (resolvedWith_iff.mp hwith).2.1
    rw [hpreceding] at hfound
    rw [hmapped, ← Option.some.inj hfound] at hsame
    have hload : (0x3000 : UInt64) = 0x1000 :=
      congrArg LoadedImage.loadAddress (Option.some.inj hsame)
    exact absurd hload (by decide)

end PProfessor.Capture
