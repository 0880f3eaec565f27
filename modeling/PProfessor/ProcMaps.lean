import PProfessor.CheckedArith
import PProfessor.HeapHistory
import PProfessor.PathEscapes
import PProfessor.RawProfile
import Std.Data.ExtTreeSet

set_option autoImplicit false

/-!
# Memory maps of a Linux process

The two readers of `/proc/{pid}/maps`: `parse_loaded_images` of `src/sampler/linux.rs` and
`native_mappings` of `src/heap/linux.rs`. Both unescape the paths that the target chose.
-/
namespace PProfessor.Capture
open CheckedArith Fallible Text
open Heap (HeapMapping lines splitWhitespace)

/-- `str::as_bytes`. -/
def utf8Bytes (text : List Char) : List UInt8 := text.flatMap String.utf8EncodeChar

def isContinuation (byte : UInt8) : Bool := 0x80 ≤ byte && byte ≤ 0xBF

def utf8CharWidth (first : UInt8) : ℕ :=
  if first ≤ 0x7F then 1
  else if 0xC2 ≤ first ∧ first ≤ 0xDF then 2
  else if 0xE0 ≤ first ∧ first ≤ 0xEF then 3
  else if 0xF0 ≤ first ∧ first ≤ 0xF4 then 4
  else 0

def secondFits (first second : UInt8) : Bool :=
  if first = 0xE0 then 0xA0 ≤ second && second ≤ 0xBF
  else if first = 0xED then 0x80 ≤ second && second ≤ 0x9F
  else if first = 0xF0 then 0x90 ≤ second && second ≤ 0xBF
  else if first = 0xF4 then 0x80 ≤ second && second ≤ 0x8F
  else isContinuation second

/-- The bytes that one replacement character stands for: as many as could begin a character. -/
def brokenLength : List UInt8 → ℕ
  | first :: second :: rest =>
    if 3 ≤ utf8CharWidth first ∧ secondFits first second then
      match rest with
      | third :: _ => if utf8CharWidth first = 4 ∧ isContinuation third then 3 else 2
      | [] => 2
    else 1
  | _ => 1

theorem brokenLength_pos (bytes : List UInt8) : 0 < brokenLength bytes := by
  unfold brokenLength
  split
  · split_ifs
    · split
      · split_ifs <;> decide
      · decide
    · decide
  · decide

/-- `String::from_utf8_lossy`. -/
def fromUtf8Lossy (bytes : List UInt8) : List Char :=
  if bytes = [] then []
  else
    match bytes.toByteArray.utf8DecodeChar? 0 with
    | some c => c :: fromUtf8Lossy (bytes.drop c.utf8Size)
    | none => Char.ofNat 0xFFFD :: fromUtf8Lossy (bytes.drop (brokenLength bytes))
termination_by bytes.length
decreasing_by
  all_goals
    have hlength := List.length_pos_iff.mpr ‹¬bytes = []›
    rw [List.length_drop]
  · have hpos := c.utf8Size_pos
    omega
  · have hpos := brokenLength_pos bytes
    omega

theorem fromUtf8Lossy_utf8Bytes (text : List Char) : fromUtf8Lossy (utf8Bytes text) = text := by
  induction text with
  | nil =>
    rw [fromUtf8Lossy]
    rfl
  | cons c text ih =>
    have hbytes : utf8Bytes (c :: text) = String.utf8EncodeChar c ++ utf8Bytes text :=
      List.flatMap_cons
    have hlength : (String.utf8EncodeChar c).length = c.utf8Size := String.length_utf8EncodeChar c
    have hdecode : (utf8Bytes (c :: text)).toByteArray.utf8DecodeChar? 0 = some c :=
      List.utf8DecodeChar?_utf8Encode_cons
    have hne : utf8Bytes (c :: text) ≠ [] := by
      intro hnil
      have hpos := c.utf8Size_pos
      rw [hbytes, List.append_eq_nil_iff] at hnil
      rw [hnil.1, List.length_nil] at hlength
      omega
    rw [fromUtf8Lossy, if_neg hne, hdecode]
    dsimp only
    rw [hbytes, ← hlength, List.drop_left, ih]

def unescapeProcPath (path : List Char) : Except UnescapePanic String :=
  (fun output => String.ofList (fromUtf8Lossy output)) <$> unescapeBytes (utf8Bytes path)

theorem unescapeProcPath_returnsWhen (path : List Char) :
    ∃ output, ReturnsWhen (Small (utf8Bytes path)) output (unescapeProcPath path) := by
  obtain ⟨pieces, hpieces⟩ := EscapedText.exists_reads (s := octalEscapes) (utf8Bytes path)
  exact ⟨_, (unescapeBytes_returnsWhen hpieces).map _⟩

theorem reads_kept {text : List UInt8} (h : 0x5C ∉ text) :
    EscapedText.Reads octalEscapes text (text.map .kept) := by
  induction text with
  | nil => exact .nil
  | cons x rest ih =>
    rw [List.mem_cons, not_or] at h
    refine .kept (fun hescaped => ?_) (ih h.2)
    obtain ⟨_, _, _, _, hx, -⟩ := hescaped.shape
    exact h.1 hx.symm

theorem unescapeProcPath_of_plain {path : List Char} (h : 0x5C ∉ utf8Bytes path) :
    unescapeProcPath path = .ok (String.ofList path) := by
  have hpieces := reads_kept h
  have hsmall : Small (utf8Bytes path) := fun a b c hwithin _ =>
    absurd (hwithin.subset List.mem_cons_self) h
  have hbytes : ((utf8Bytes path).map EscapedText.Piece.kept).map
      (fun piece => UInt8.ofNat (pieceValue piece)) = utf8Bytes path := by
    rw [List.map_map]
    exact (List.map_congr_left fun byte _ => UInt8.ofNat_toNat).trans (List.map_id _)
  have hok := (unescapeBytes_returnsWhen hpieces).1 hsmall
  rw [hbytes] at hok
  rw [unescapeProcPath, hok]
  exact congrArg (fun text => Except.ok (String.ofList text)) (fromUtf8Lossy_utf8Bytes path)

def parseHex (value : List Char) : Option UInt64 :=
  (fromStrRadix 16 (2 ^ 64) value).toOption.map UInt64.ofNat

def deleted : List Char := " (deleted)".toList

def imageOfLine (line : List Char) : Option (UInt64 × List Char) := do
  let fields := splitWhitespace line
  let range ← fields[0]?
  let offset ← fields[2]?.bind parseHex
  -- Mappings at file offset zero identify the images.
  if offset ≠ 0 then none
  else
    let path := [' '].intercalate (fields.drop 5)
    if path.head? ≠ some '/' ∨ deleted <:+ path then none
    else do
      let (start, _) ← splitOnce ['-'] range
      let start ← parseHex start
      let loadAddress ← subU64 start offset
      return (loadAddress, path)

/-- The order of a `BTreeSet` of addresses and paths. -/
def imageOrder : UInt64 × String → UInt64 × String → Ordering :=
  compareLex (compareOn Prod.fst) (compareOn Prod.snd)

instance : Std.TransCmp imageOrder := inferInstanceAs (Std.TransCmp (compareLex _ _))

def parseLoadedImages (maps : List Char) : Except UnescapePanic (List LoadedImage) := do
  let images ← ((lines maps).filterMap imageOfLine).foldlM (fun images (loadAddress, path) => do
    let path ← unescapeProcPath path
    return images.insert (loadAddress, path)) (∅ : Std.ExtTreeSet (UInt64 × String) imageOrder)
  return images.toList.map fun (loadAddress, path) => { loadAddress, path }

/-- The images are read exactly when no path among them has an escape above `\377`. -/
theorem parseLoadedImages_returns_iff (maps : List Char) :
    (∃ images, parseLoadedImages maps = .ok images) ↔
      ∀ image ∈ (lines maps).filterMap imageOfLine, Small (utf8Bytes image.2) := by
  choose output houtput using unescapeProcPath_returnsWhen
  have hstep (images : Std.ExtTreeSet (UInt64 × String) imageOrder) (image : UInt64 × List Char) :
      ReturnsWhen (Small (utf8Bytes image.2)) (images.insert (image.1, output image.2))
        (do
          let path ← unescapeProcPath image.2
          return images.insert (image.1, path)) :=
    (houtput image.2).bind_ok fun _ => rfl
  have hloop (read : List (UInt64 × List Char)) :=
    ReturnsWhen.foldlM (fun images image (_ : image ∈ read) => hstep images image) ∅
  obtain ⟨images, himages⟩ : ∃ images, ReturnsWhen _ images (parseLoadedImages maps) :=
    ⟨_, (hloop _).bind_ok fun _ => rfl⟩
  exact himages.exists_iff

/-- `trim_end_matches`. -/
def trimEndMatches (pattern text : List Char) : List Char :=
  if pattern ≠ [] ∧ pattern <:+ text then
    trimEndMatches pattern (text.take (text.length - pattern.length))
  else text
termination_by text.length
decreasing_by
  rename_i h
  have hpos := List.length_pos_iff.mpr h.1
  have hle := h.2.length_le
  rw [List.length_take]
  omega

def mappingOfLine (line : List Char) : Option (UInt64 × UInt64 × UInt64 × List Char) := do
  let fields := splitWhitespace line
  if fields.length < 6 ∨ (fields[5]?.bind List.head?) ≠ some '/' then none
  else
    let (start, stop) ← splitOnce ['-'] (fields[0]?.getD [])
    let start ← parseHex start
    let stop ← parseHex stop
    let offset ← fields[2]?.bind parseHex
    return (start, stop, offset, trimEndMatches deleted ([' '].intercalate (fields.drop 5)))

/-- One mapping more. The build id of a file is read once. -/
def pushMapping (readBuildId : String → String)
    (state : Std.ExtHashMap String String × List HeapMapping)
    (mapping : UInt64 × UInt64 × UInt64 × List Char) :
    Except UnescapePanic (Std.ExtHashMap String String × List HeapMapping) := do
  let (buildIds, images) := state
  let (memoryStart, memoryLimit, fileOffset, path) := mapping
  let filename ← unescapeProcPath path
  let buildId := buildIds[filename]?.getD (readBuildId filename)
  return (buildIds.insert filename buildId,
    images ++ [{ memoryStart, memoryLimit, fileOffset, filename, buildId }])

def nativeMappings (readBuildId : String → String) (maps : List Char) :
    Except UnescapePanic (List HeapMapping) :=
  Prod.snd <$> ((lines maps).filterMap mappingOfLine).foldlM (pushMapping readBuildId) (∅, [])

def readMapping (readBuildId : String → String) (mapping : UInt64 × UInt64 × UInt64 × List Char) :
    Except UnescapePanic HeapMapping := do
  let (memoryStart, memoryLimit, fileOffset, path) := mapping
  let filename ← unescapeProcPath path
  return { memoryStart, memoryLimit, fileOffset, filename, buildId := readBuildId filename }

def AsRead (readBuildId : String → String) (buildIds : Std.ExtHashMap String String) : Prop :=
  ∀ filename buildId, buildIds[filename]? = some buildId → buildId = readBuildId filename

variable {readBuildId : String → String} {buildIds : Std.ExtHashMap String String}

theorem AsRead.getD (h : AsRead readBuildId buildIds) (filename : String) :
    buildIds[filename]?.getD (readBuildId filename) = readBuildId filename := by
  cases hread : buildIds[filename]? with
  | none => rfl
  | some buildId => exact h filename buildId hread

theorem AsRead.insert (h : AsRead readBuildId buildIds) (filename : String) :
    AsRead readBuildId (buildIds.insert filename (readBuildId filename)) := by
  intro name buildId hread
  rw [Std.ExtHashMap.getElem?_insert] at hread
  split_ifs at hread with hname
  · rw [beq_iff_eq] at hname
    rw [← Option.some.inj hread, hname]
  · exact h name buildId hread

theorem foldlM_pushMapping (h : AsRead readBuildId buildIds) (images : List HeapMapping)
    (mappings : List (UInt64 × UInt64 × UInt64 × List Char)) :
    Prod.snd <$> mappings.foldlM (pushMapping readBuildId) (buildIds, images) =
      (fun read => images ++ read) <$> mappings.mapM (readMapping readBuildId) := by
  induction mappings generalizing buildIds images with
  | nil => exact congrArg Except.ok (List.append_nil images).symm
  | cons mapping mappings ih =>
    obtain ⟨memoryStart, memoryLimit, fileOffset, path⟩ := mapping
    rw [List.foldlM_cons, List.mapM_cons, pushMapping, readMapping]
    cases unescapeProcPath path with
    | error panic => rfl
    | ok filename =>
      rw [ok_bind, ok_bind, h.getD filename]
      refine (ih (h.insert filename) _).trans ?_
      cases mappings.mapM (readMapping readBuildId) with
      | error panic => rfl
      | ok read => exact congrArg Except.ok (List.append_assoc _ _ _)

theorem nativeMappings_eq (readBuildId : String → String) (maps : List Char) :
    nativeMappings readBuildId maps =
      ((lines maps).filterMap mappingOfLine).mapM (readMapping readBuildId) := by
  have hempty : AsRead readBuildId ∅ := fun filename buildId h => by simp at h
  refine (foldlM_pushMapping hempty [] _).trans ?_
  cases ((lines maps).filterMap mappingOfLine).mapM (readMapping readBuildId) <;> rfl

/-- As for the images, one escape above `\377` is enough. -/
theorem nativeMappings_returns_iff (readBuildId : String → String) (maps : List Char) :
    (∃ images, nativeMappings readBuildId maps = .ok images) ↔
      ∀ mapping ∈ (lines maps).filterMap mappingOfLine, Small (utf8Bytes mapping.2.2.2) := by
  choose output houtput using unescapeProcPath_returnsWhen
  rw [nativeMappings_eq]
  have hread (mapping : UInt64 × UInt64 × UInt64 × List Char) :
      ReturnsWhen (Small (utf8Bytes mapping.2.2.2))
        { memoryStart := mapping.1, memoryLimit := mapping.2.1, fileOffset := mapping.2.2.1,
          filename := output mapping.2.2.2, buildId := readBuildId (output mapping.2.2.2) }
        (readMapping readBuildId mapping) :=
    (houtput mapping.2.2.2).bind_ok fun _ => rfl
  exact (ReturnsWhen.mapM fun mapping _ => hread mapping).exists_iff

end PProfessor.Capture
