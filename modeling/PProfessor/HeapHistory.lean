import Mathlib.Data.List.DropRight
import PProfessor.HeapAccounting
import PProfessor.TextSplit

set_option autoImplicit false

/-!
# Apple's allocation history

`src/heap/macos.rs`: a `malloc_history` report is read line by line into the tracker. The date of
the profile and the order in which a hash map hands out its entries are parameters.
-/
namespace PProfessor.Heap
open Text

abbrev Line := List Char

/-- `char::is_whitespace`. -/
def isWhitespace (c : Char) : Bool :=
  let n := c.toNat
  9 ≤ n && n ≤ 13 || n = 32 || n = 0x85 || n = 0xA0 || n = 0x1680 || 0x2000 ≤ n && n ≤ 0x200A ||
    n = 0x2028 || n = 0x2029 || n = 0x202F || n = 0x205F || n = 0x3000

def trimEnd (text : List Char) : List Char := text.rdropWhile isWhitespace

def trim (text : List Char) : List Char := trimEnd (text.dropWhile isWhitespace)

def splitWhitespace (text : List Char) : List (List Char) :=
  (text.splitOnP isWhitespace).filter fun word => word ≠ []

def stripCarriageReturn (line : Line) : Line :=
  if line.getLast? = some '\r' then line.dropLast else line

/-- `BufRead::lines`. What is behind the last line feed is a line if there is anything. -/
def lines (text : List Char) : List Line :=
  let pieces := text.splitOnP fun c => c = '\n'
  pieces.dropLast.map stripCarriageReturn ++ pieces.getLast?.toList.filter fun line => line ≠ []

inductive HistoryError where
  | missingHeader
  | unsupportedHeader
  | malformedAllocation
  | missingAddress
  | missingSize
  | malformedSize
  | missingFreeAddress
  | unsupportedEvent (word : List Char)
  | incomplete
  | expectedHexadecimal
  | parseInt (error : ParseIntError)
  | malformedStack
  | missingFrameName
  | missingStack
  | tracker (error : HeapError)
  deriving DecidableEq, Repr

def parseIntMessage : ParseIntError → String
  | .empty => "cannot parse integer from empty string"
  | .invalidDigit => "invalid digit found in string"
  | .posOverflow => "number too large to fit in target type"

def HistoryError.message : HistoryError → String
  | .missingHeader => "missing malloc_history report header"
  | .unsupportedHeader => "unsupported malloc_history report header"
  | .malformedAllocation => "malformed malloc allocation"
  | .missingAddress => "missing allocation address"
  | .missingSize => "missing allocation size"
  | .malformedSize => "malformed allocation size"
  | .missingFreeAddress => "missing free address"
  | .unsupportedEvent word => "unsupported malloc_history event format: " ++ String.ofList word
  | .incomplete => "incomplete malloc_history report"
  | .expectedHexadecimal => "expected hexadecimal address"
  | .parseInt error => parseIntMessage error
  | .malformedStack => "malformed allocation stack"
  | .missingFrameName => "missing allocation frame name"
  | .missingStack => "missing allocation stack"
  | .tracker error => error.message

/-- `ok_or` and `context`. -/
def context {α : Type} (error : HistoryError) : Option α → Except HistoryError α
  | some a => .ok a
  | none => .error error

/-- `strip_prefix`. -/
def stripPrefix (start text : List Char) : Option (List Char) :=
  if start <+: text then some (text.drop start.length) else none

/-- `u64::from_str_radix`. -/
def parseU64 (radix : ℕ) (text : List Char) : Except HistoryError UInt64 :=
  match fromStrRadix radix (2 ^ 64) text with
  | .ok n => .ok (.ofNat n)
  | .error error => .error (.parseInt error)

def hex (value : List Char) : Except HistoryError UInt64 := do
  let digits ← context .expectedHexadecimal (stripPrefix "0x".toList value)
  parseU64 16 digits

/-- `parse::<i64>().ok()`. -/
def parseI64 (text : List Char) : Option Int64 :=
  match text with
  | '-' :: '+' :: _ => none
  | '-' :: digits => (fromStrRadix 10 (2 ^ 63 + 1) digits).toOption.map fun n => .ofInt (-n)
  | _ => (fromStrRadix 10 (2 ^ 63) text).toOption.map fun n => .ofNat n

/-- The function, the file and the line of a frame: a source is what stands behind the last
space, if it ends in a line number. -/
def sourceOf (function : List Char) : String × String × Int64 :=
  let found := do
    let (name, source) ← rsplitOnce [' '] function
    let (file, line) ← rsplitOnce [':'] source
    let line ← parseI64 line
    return (String.ofList (trimEnd name), String.ofList file, line)
  found.getD (String.ofList function, "", 0)

/-- One turn of the loop of `parse_stack`. -/
def parseFrame (frame : List Char) : Except HistoryError HeapFrame := do
  let (address, rest) ← context .malformedStack (splitOnce " (".toList frame)
  let (_, named) ← context .missingFrameName (splitOnce ") ".toList rest)
  let (function, file, line) := sourceOf named
  let address ← hex address
  return { address, function, file, line, mapping := none }

def parseStack (text : List Char) : Except HistoryError Stack := do
  let frames ← (rsplit " | ".toList (trim text)).mapM parseFrame
  if frames = [] then
    throw .missingStack
  return frames

/-- `words[i]`; the caller has checked the length. -/
def parseImage (line : Line) : Option HeapMapping := do
  let words := splitWhitespace line
  if words.length < 6 ∨ words[1]? ≠ some ['-'] then none
  else
    let memoryStart ← (hex (words[0]?.getD [])).toOption
    let last ← (hex (words[2]?.getD [])).toOption
    let memoryLimit ← CheckedArith.addU64 last 1
    let uuid := do
      let (_, s) ← splitOnce ['<'] line
      splitOnce ['>'] s
    let (buildId, path) := match uuid with
      | some (id, path) => (String.ofList id, String.ofList (trim path))
      | none => ("", String.ofList (words.getLast?.getD []))
    return { memoryStart, memoryLimit, fileOffset := 0, filename := path, buildId }

def separator : Line := "----".toList

def binaryImages : Line := "Binary Images:".toList

/-- The variables of the loop of `parse_reader`. -/
structure HistoryReader where
  tracker : NativeHeapTracker
  initialFrees : ℕ
  section_ : Bool
  imagesSection : Bool
  images : Std.ExtTreeMap UInt64 HeapMapping

namespace HistoryReader

def new : HistoryReader := ⟨.new "native", 0, false, false, ∅⟩

def allocate (r : HistoryReader) (address size : UInt64) (stack : Stack) :
    Except HistoryError HistoryReader :=
  match NativeHeapTracker.allocate address size stack r.tracker with
  | .ok _ tracker => .ok { r with tracker }
  | .error error _ => .error (.tracker error)

/-- A release that fails is counted. -/
def release (r : HistoryReader) (address : UInt64) : HistoryReader :=
  match NativeHeapTracker.release address r.tracker with
  | .ok _ tracker => { r with tracker }
  | .error _ tracker => { r with tracker, initialFrees := r.initialFrees + 1 }

/-- The address, the size and the stack of an `ALLOC` line. -/
def parseAlloc (line : Line) : Except HistoryError (UInt64 × UInt64 × Stack) := do
  let (record, stack) ← context .malformedAllocation (splitOnce ": ".toList line)
  let word ← context .missingAddress ((splitWhitespace record)[1]?)
  let address := word.takeWhile fun c => c ≠ '-'
  let (_, size) ← context .missingSize (splitOnce "[size=".toList record)
  if size.getLast? ≠ some ']' then
    throw .malformedSize
  let size ← parseU64 10 size.dropLast
  let address ← hex address
  let stack ← parseStack stack
  return (address, size, stack)

/-- The address of a `FREE` line. -/
def parseFree (line : Line) : Except HistoryError UInt64 := do
  let word ← context .missingFreeAddress ((splitWhitespace line)[1]?)
  hex (word.rdropWhile fun c => c = ':')

/-- One turn of the loop over the lines. -/
def read (r : HistoryReader) (line : Line) : Except HistoryError HistoryReader :=
  if r.imagesSection then
    match parseImage line with
    | some image => .ok { r with images := r.images.insert image.memoryStart image }
    | none => .ok r
  else if line = binaryImages then .ok { r with imagesSection := true }
  else if line = separator then .ok { r with section_ := true }
  else if r.section_ = false then .ok r
  else if "ALLOC ".toList <+: line then do
    let (address, size, stack) ← parseAlloc line
    r.allocate address size stack
  else if "FREE ".toList <+: line then do
    let address ← parseFree line
    return r.release address
  else if trim line ≠ [] ∧ ¬"VM_ALLOC ".toList <+: line ∧ ¬"VM_DEALLOC ".toList <+: line then
    .error (.unsupportedEvent ((splitWhitespace line).head?.getD "unknown".toList))
  else .ok r

end HistoryReader

/-- A frame with the image that its address lies in. -/
def attachImage (images : Std.ExtTreeMap UInt64 HeapMapping) (frame : HeapFrame) : HeapFrame :=
  { frame with
    mapping := ((images.getEntryLE? frame.address).map Prod.snd).filter fun m =>
      frame.address < m.memoryLimit }

/-- The samples collected again under rewritten stacks. -/
def rekey (rewrite : HeapFrame → HeapFrame) (samples : Std.ExtTreeMap Stack HeapValues) :
    Std.ExtTreeMap Stack HeapValues :=
  .ofList (samples.toList.map fun s => (s.1.map rewrite, s.2))

/-- What is done with the profile of the tracker. -/
def HistoryReader.finish (r : HistoryReader) (profile : HeapProfile) : HeapProfile :=
  { profile with
    samples := rekey (attachImage r.images) profile.samples
    comment := "Exact Apple MallocStackLogging allocation history. Bytes are " ++
      "allocator-reported block sizes. Coverage starts when stack logging is enabled; " ++
      toString r.initialFrees ++
      " frees had no recorded allocation. VM backing regions are excluded." }

def supportedHeader : List Char := "malloc_history Report Version:  2.0".toList

section

variable (order : Std.ExtHashMap UInt64 (UInt64 × ℕ) → List (UInt64 × UInt64 × ℕ)) (now : ℤ)

/-- `parse_reader` on the lines of the report. -/
def parseReader (reader : List Line) : Except HistoryError HeapProfile := do
  let header ← context .missingHeader reader.head?
  if ¬supportedHeader <+: header then
    throw .unsupportedHeader
  let r ← reader.tail.foldlM HistoryReader.read .new
  if ¬(r.section_ = true ∧ r.imagesSection = true) then
    throw .incomplete
  let profile ← (r.tracker.snapshot (order r.tracker.live) now).mapError .tracker
  return r.finish profile

def parseHistory (text : List Char) : Except HistoryError HeapProfile :=
  parseReader order now (lines text)

end

end PProfessor.Heap
