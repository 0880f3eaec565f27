import PProfessor.PprofModel
import PProfessor.WireFormat

set_option autoImplicit false

/-!
# The app's pprof decoder

`ProtobufDecoder.swift` and `ProfileDecoder.swift` of PProfessorKit. A runtime
trap is an error of the model; the loop counters cannot overflow, since they stay
below a small multiple of `data.count`. The Swift structs `ValueType`,
`ProfLine`, `ProfLocation`, `ProfMapping`, `ProfFunction`, `ProfLabel` and
`ProfSample` have the fields of their Rust namesakes and share their model.
-/
namespace PProfessor.Kit
open Pprof

inductive Trap where
  /-- `UInt32(_:)` of a value that does not fit. -/
  | uint32Conversion
  /-- `Int(_:)` of a value that does not fit. -/
  | intConversion
  /-- `+` beyond `Int.max`. -/
  | intOverflow
  | sliceOutOfRange
  | indexOutOfRange
  /-- An array count beyond `Int.max`. -/
  | countOverflow
  deriving DecidableEq, Repr

inductive WireType where
  | varint
  | lengthDelimited
  deriving DecidableEq, Repr

/-- The smart shift `<<`: shifting by 64 or more gives zero. -/
def smartShiftLeft (value : UInt64) (shift : ℕ) : UInt64 :=
  if shift < 64 then value <<< UInt64.ofNat shift else 0

/-- The loop of `decodeVarint` over the bytes from `offset` on. -/
def varintLoop : List UInt8 → UInt64 → ℕ → ℕ → UInt64 × ℕ
  | [], result, _, consumed => (result, consumed)
  | byte :: rest, result, shift, consumed =>
    let result := result ||| smartShiftLeft (byte &&& 0x7F).toUInt64 shift
    if byte &&& 0x80 = 0 then (result, consumed + 1)
    else varintLoop rest result (shift + 7) (consumed + 1)

def decodeVarint (data : List UInt8) (offset : ℕ) : UInt64 × ℕ :=
  varintLoop (data.drop offset) 0 0 0

theorem varintLoop_consumed (data : List UInt8) (result : UInt64) (shift consumed : ℕ) :
    consumed ≤ (varintLoop data result shift consumed).2 ∧
      (varintLoop data result shift consumed).2 ≤ consumed + data.length ∧
      (data ≠ [] → consumed < (varintLoop data result shift consumed).2) := by
  induction data generalizing result shift consumed with
  | nil => simp [varintLoop]
  | cons byte rest ih =>
    rw [varintLoop]
    split_ifs
    · simp
    · obtain ⟨h₁, h₂, _⟩ := ih (result ||| smartShiftLeft (byte &&& 0x7F).toUInt64 shift)
        (shift + 7) (consumed + 1)
      simp only [List.length_cons]
      exact ⟨by omega, by omega, fun _ => by omega⟩

theorem decodeVarint_consumed (data : List UInt8) (offset : ℕ) (h : offset ≤ data.length) :
    offset + (decodeVarint data offset).2 ≤ data.length ∧
      (offset < data.length → 0 < (decodeVarint data offset).2) := by
  obtain ⟨_, h₂, h₃⟩ := varintLoop_consumed (data.drop offset) 0 0 0
  rw [List.length_drop] at h₂
  unfold decodeVarint
  refine ⟨by omega, ?_⟩
  intro hlt
  exact h₃ (by simpa using hlt)

/-- The loop of `decodePackedUInt64s` from `i` on. -/
def decodePackedFrom (data : List UInt8) (i : ℕ) : List UInt64 :=
  if _ : i < data.length then
    (decodeVarint data i).1 :: decodePackedFrom data (i + (decodeVarint data i).2)
  else []
termination_by data.length - i
decreasing_by
  rename_i h
  obtain ⟨_, hpos⟩ := decodeVarint_consumed data i h.le
  have := hpos h
  omega

def decodePackedUInt64s (data : List UInt8) : List UInt64 := decodePackedFrom data 0

def decodePackedInt64s (data : List UInt8) : List Int64 :=
  (decodePackedUInt64s data).map UInt64.toInt64

/-- `data[data.startIndex + lower ..< data.startIndex + upper]`. -/
def slice (data : List UInt8) (lower upper : ℕ) : Except Trap (List UInt8) :=
  if lower ≤ upper ∧ upper ≤ data.length then .ok ((data.drop lower).take (upper - lower))
  else .error .sliceOutOfRange

def varintExtent : List UInt8 → ℕ
  | [] => 0
  | byte :: rest => if byte &&& 0x80 = 0 then 1 else varintExtent rest + 1

/-- What the loop of `decodeProtobuf` hands to the visitor, and the position after it. -/
structure VisitedField where
  number : ℕ
  wireType : WireType
  value : List UInt8
  next : ℕ

def readVarintField (data : List UInt8) (number i : ℕ) : Except Trap (Option VisitedField) := do
  let upper := i + varintExtent (data.drop i)
  let value ← slice data i upper
  .ok (some ⟨number, .varint, value, upper⟩)

def readBytesField (data : List UInt8) (number i : ℕ) : Except Trap (Option VisitedField) :=
  let (length, lengthBytes) := decodeVarint data i
  let i := i + lengthBytes
  if 2 ^ 63 ≤ length.toNat then .error .intConversion
  else if 2 ^ 63 ≤ i + length.toNat then .error .intOverflow
  else
    let upper := i + length.toNat
    if upper ≤ data.length then do
      let value ← slice data i upper
      .ok (some ⟨number, .lengthDelimited, value, upper⟩)
    else .ok none

/-- One turn of the loop of `decodeProtobuf` up to the call of the visitor;
nothing where the loop returns. -/
def readField (data : List UInt8) (i : ℕ) : Except Trap (Option VisitedField) :=
  let (tag, tagBytes) := decodeVarint data i
  let i := i + tagBytes
  if 2 ^ 32 ≤ (tag >>> 3).toNat then .error .uint32Conversion
  else
    match (tag &&& 0x07).toNat with
    | 0 => readVarintField data (tag >>> 3).toNat i
    | 2 => readBytesField data (tag >>> 3).toNat i
    -- Unknown wire type: cannot safely skip, stop parsing.
    | _ => .ok none

theorem slice_eq {data : List UInt8} {lower upper : ℕ} (hl : lower ≤ upper)
    (hu : upper ≤ data.length) :
    slice data lower upper = .ok ((data.drop lower).take (upper - lower)) :=
  if_pos ⟨hl, hu⟩

theorem varintExtent_le (data : List UInt8) : varintExtent data ≤ data.length := by
  induction data with
  | nil => exact le_rfl
  | cons byte rest ih =>
    unfold varintExtent
    split_ifs
    · simp
    · simpa using ih

theorem readVarintField_eq (data : List UInt8) (number i : ℕ) (hi : i ≤ data.length) :
    readVarintField data number i =
      .ok (some ⟨number, .varint, (data.drop i).take (varintExtent (data.drop i)),
        i + varintExtent (data.drop i)⟩) := by
  have hle := varintExtent_le (data.drop i)
  rw [List.length_drop] at hle
  unfold readVarintField
  dsimp only
  rw [slice_eq (Nat.le_add_right _ _) (by omega), Nat.add_sub_cancel_left]
  rfl

theorem readBytesField_eq (data : List UInt8) (number i : ℕ) :
    readBytesField data number i =
      if 2 ^ 63 ≤ (decodeVarint data i).1.toNat then .error .intConversion
      else if 2 ^ 63 ≤ i + (decodeVarint data i).2 + (decodeVarint data i).1.toNat then
        .error .intOverflow
      else if i + (decodeVarint data i).2 + (decodeVarint data i).1.toNat ≤ data.length then
        .ok (some ⟨number, .lengthDelimited,
          (data.drop (i + (decodeVarint data i).2)).take (decodeVarint data i).1.toNat,
          i + (decodeVarint data i).2 + (decodeVarint data i).1.toNat⟩)
      else .ok none := by
  unfold readBytesField
  dsimp only
  split_ifs with _ _ hle
  · rfl
  · rfl
  · rw [slice_eq (Nat.le_add_right _ _) hle, Nat.add_sub_cancel_left]
    rfl
  · rfl

theorem readField_progress {data : List UInt8} {i : ℕ} {field : VisitedField}
    (hi : i < data.length) (h : readField data i = .ok (some field)) :
    i < field.next ∧ field.next ≤ data.length := by
  obtain ⟨hle, hpos⟩ := decodeVarint_consumed data i hi.le
  have hpos := hpos hi
  unfold readField at h
  dsimp only at h
  split at h
  · cases h
  · split at h
    · have hext := varintExtent_le (data.drop (i + (decodeVarint data i).2))
      rw [List.length_drop] at hext
      rw [readVarintField_eq _ _ _ hle] at h
      cases h
      exact ⟨by dsimp only; omega, by dsimp only; omega⟩
    · rw [readBytesField_eq] at h
      split_ifs at h with _ _ hend
      · cases h
        exact ⟨by dsimp only; omega, hend⟩
      · cases h
    · cases h

/-- `decodeProtobuf` from position `i` on, with the visitor's captured variables
as a state. -/
def decodeProtobufFrom {σ : Type} (visitor : σ → ℕ → WireType → List UInt8 → Except Trap σ)
    (data : List UInt8) (i : ℕ) (state : σ) : Except Trap σ :=
  if _ : i < data.length then
    match _ : readField data i with
    | .error trap => .error trap
    | .ok none => .ok state
    | .ok (some field) =>
      match visitor state field.number field.wireType field.value with
      | .error trap => .error trap
      | .ok state => decodeProtobufFrom visitor data field.next state
  else .ok state
termination_by data.length - i
decreasing_by
  rename_i hi hread
  obtain ⟨hlt, hle⟩ := readField_progress hi hread
  omega

section Loop
variable {σ : Type} {visitor : σ → ℕ → WireType → List UInt8 → Except Trap σ}
  {data : List UInt8} {i : ℕ} {state : σ}

theorem decodeProtobufFrom_done (hi : data.length ≤ i) :
    decodeProtobufFrom visitor data i state = .ok state := by
  rw [decodeProtobufFrom, dif_neg (by omega)]

theorem decodeProtobufFrom_error {trap : Trap} (hi : i < data.length)
    (h : readField data i = .error trap) :
    decodeProtobufFrom visitor data i state = .error trap := by
  rw [decodeProtobufFrom, dif_pos hi]
  split <;> simp_all

theorem decodeProtobufFrom_stop (hi : i < data.length) (h : readField data i = .ok none) :
    decodeProtobufFrom visitor data i state = .ok state := by
  rw [decodeProtobufFrom, dif_pos hi]
  split <;> simp_all

theorem decodeProtobufFrom_visit {field : VisitedField} (hi : i < data.length)
    (h : readField data i = .ok (some field)) :
    decodeProtobufFrom visitor data i state =
      match visitor state field.number field.wireType field.value with
      | .error trap => .error trap
      | .ok state => decodeProtobufFrom visitor data field.next state := by
  rw [decodeProtobufFrom, dif_pos hi]
  split <;> simp_all

end Loop

def decodeProtobuf {σ : Type} (visitor : σ → ℕ → WireType → List UInt8 → Except Trap σ)
    (data : List UInt8) (state : σ) : Except Trap σ :=
  decodeProtobufFrom visitor data 0 state

def visitValueType (vt : ValueType) (field : ℕ) (wireType : WireType) (value : List UInt8) :
    Except Trap ValueType :=
  match wireType with
  | .varint =>
    let v := (decodeVarint value 0).1
    match field with
    | 1 => .ok { vt with type := v }
    | 2 => .ok { vt with unit := v }
    | _ => .ok vt
  | .lengthDelimited => .ok vt

def decodeValueType (data : List UInt8) : Except Trap ValueType :=
  decodeProtobuf visitValueType data default

def visitLine (line : Line) (field : ℕ) (wireType : WireType) (value : List UInt8) :
    Except Trap Line :=
  match wireType with
  | .varint =>
    let v := (decodeVarint value 0).1
    match field with
    | 1 => .ok { line with functionId := v }
    | 2 => .ok { line with line := v.toInt64 }
    | 3 => .ok { line with column := v.toInt64 }
    | _ => .ok line
  | .lengthDelimited => .ok line

def decodeLine (data : List UInt8) : Except Trap Line :=
  decodeProtobuf visitLine data default

def visitLocation (location : Location) (field : ℕ) (wireType : WireType) (value : List UInt8) :
    Except Trap Location :=
  match field, wireType with
  | 1, .varint => .ok { location with id := (decodeVarint value 0).1 }
  | 2, .varint => .ok { location with mappingId := (decodeVarint value 0).1 }
  | 3, .varint => .ok { location with address := (decodeVarint value 0).1 }
  | 4, .lengthDelimited => do
    let line ← decodeLine value
    .ok { location with lines := location.lines ++ [line] }
  | 5, .varint => .ok { location with isFolded := (decodeVarint value 0).1 ≠ 0 }
  | _, _ => .ok location

def decodeLocation (data : List UInt8) : Except Trap Location :=
  decodeProtobuf visitLocation data default

def visitMapping (values : List UInt64) (field : ℕ) (wireType : WireType) (value : List UInt8) :
    Except Trap (List UInt64) :=
  if wireType = .varint ∧ 1 ≤ field ∧ field ≤ 10 then
    if field - 1 < values.length then
      .ok (values.set (field - 1) (decodeVarint value 0).1)
    else .error .indexOutOfRange
  else .ok values

def mappingOfValues (values : List UInt64) : Mapping where
  id := values.getD 0 0
  memoryStart := values.getD 1 0
  memoryLimit := values.getD 2 0
  fileOffset := values.getD 3 0
  filename := values.getD 4 0
  buildId := values.getD 5 0
  hasFunctions := values.getD 6 0 ≠ 0
  hasFilenames := values.getD 7 0 ≠ 0
  hasLineNumbers := values.getD 8 0 ≠ 0
  hasInlineFrames := values.getD 9 0 ≠ 0

/-- The array has ten elements throughout, so reading it back cannot trap. -/
def decodeMapping (data : List UInt8) : Except Trap Mapping := do
  let values ← decodeProtobuf visitMapping data (List.replicate 10 0)
  .ok (mappingOfValues values)

def visitFunction (function : Function) (field : ℕ) (wireType : WireType) (value : List UInt8) :
    Except Trap Function :=
  match wireType with
  | .varint =>
    let v := (decodeVarint value 0).1
    match field with
    | 1 => .ok { function with id := v }
    | 2 => .ok { function with name := v }
    | 3 => .ok { function with systemName := v }
    | 4 => .ok { function with filename := v }
    | 5 => .ok { function with startLine := v.toInt64 }
    | _ => .ok function
  | .lengthDelimited => .ok function

def decodeFunction (data : List UInt8) : Except Trap Function :=
  decodeProtobuf visitFunction data default

def visitLabel (label : Label) (field : ℕ) (wireType : WireType) (value : List UInt8) :
    Except Trap Label :=
  match wireType with
  | .varint =>
    let v := (decodeVarint value 0).1
    match field with
    | 1 => .ok { label with key := v }
    | 2 => .ok { label with strIndex := v }
    | 3 => .ok { label with num := v.toInt64 }
    | 4 => .ok { label with numUnit := v }
    | _ => .ok label
  | .lengthDelimited => .ok label

def decodeLabel (data : List UInt8) : Except Trap Label :=
  decodeProtobuf visitLabel data default

/-- A packed list replaces the one before it, and unpacked elements are ignored. -/
def visitSample (sample : Sample) (field : ℕ) (wireType : WireType) (value : List UInt8) :
    Except Trap Sample :=
  match wireType with
  | .lengthDelimited =>
    match field with
    | 1 => .ok { sample with locationIds := decodePackedUInt64s value }
    | 2 => .ok { sample with values := decodePackedInt64s value }
    | 3 => do
      let label ← decodeLabel value
      .ok { sample with labels := sample.labels ++ [label] }
    | _ => .ok sample
  | .varint => .ok sample

def decodeSample (data : List UInt8) : Except Trap Sample :=
  decodeProtobuf visitSample data default

structure DecodedProfile where
  sampleTypes : List ValueType
  samples : List Sample
  mappings : List Mapping
  locations : List Location
  functions : List Function
  stringTable : List String
  timeNanos : Int64
  durationNanos : Int64
  periodType : Option ValueType
  period : Int64
  defaultSampleType : UInt64
  comments : List UInt64
  dropFrames : UInt64
  keepFrames : UInt64
  docURL : UInt64
  deriving DecidableEq, Repr

namespace DecodedProfile

def new : DecodedProfile :=
  { sampleTypes := [], samples := [], mappings := [], locations := [], functions := [],
    stringTable := [], timeNanos := 0, durationNanos := 0, periodType := none, period := 0,
    defaultSampleType := 0, comments := [], dropFrames := 0, keepFrames := 0, docURL := 0 }

variable (text : List UInt8 → Option String)

/-- The visitor of `decode`, over the conversion `String(data:encoding:)`. -/
def visit (profile : DecodedProfile) (field : ℕ) (wireType : WireType) (value : List UInt8) :
    Except Trap DecodedProfile :=
  match field, wireType with
  | 1, .lengthDelimited => do
    let vt ← decodeValueType value
    .ok { profile with sampleTypes := profile.sampleTypes ++ [vt] }
  | 2, .lengthDelimited => do
    let sample ← decodeSample value
    .ok { profile with samples := profile.samples ++ [sample] }
  | 3, .lengthDelimited => do
    let mapping ← decodeMapping value
    .ok { profile with mappings := profile.mappings ++ [mapping] }
  | 4, .lengthDelimited => do
    let location ← decodeLocation value
    .ok { profile with locations := profile.locations ++ [location] }
  | 5, .lengthDelimited => do
    let function ← decodeFunction value
    .ok { profile with functions := profile.functions ++ [function] }
  | 6, .lengthDelimited =>
    .ok { profile with stringTable := profile.stringTable ++ [(text value).getD ""] }
  | 7, .varint => .ok { profile with dropFrames := (decodeVarint value 0).1 }
  | 8, .varint => .ok { profile with keepFrames := (decodeVarint value 0).1 }
  | 13, .varint => .ok { profile with comments := profile.comments ++ [(decodeVarint value 0).1] }
  | 13, .lengthDelimited =>
    .ok { profile with comments := profile.comments ++ decodePackedUInt64s value }
  | 14, .varint => .ok { profile with defaultSampleType := (decodeVarint value 0).1 }
  | 15, .varint => .ok { profile with docURL := (decodeVarint value 0).1 }
  | 9, .varint => .ok { profile with timeNanos := (decodeVarint value 0).1.toInt64 }
  | 10, .varint => .ok { profile with durationNanos := (decodeVarint value 0).1.toInt64 }
  | 11, .lengthDelimited => do
    let vt ← decodeValueType value
    .ok { profile with periodType := some vt }
  | 12, .varint => .ok { profile with period := (decodeVarint value 0).1.toInt64 }
  | _, _ => .ok profile

/-- Decode a raw (uncompressed) pprof protobuf buffer. -/
def decode (data : List UInt8) : Except Trap DecodedProfile :=
  decodeProtobuf (visit text) data new

/-- Resolve a string table index to a string. -/
def string (profile : DecodedProfile) (index : UInt64) : Except Trap String :=
  if 2 ^ 63 ≤ index.toNat then .error .intConversion
  else if profile.stringTable.length ≤ index.toNat then .ok ""
  else
    match profile.stringTable[index.toNat]? with
    | some s => .ok s
    | none => .error .indexOutOfRange

end DecodedProfile

end PProfessor.Kit
