import PProfessor.EncodedSize
import PProfessor.KitRoundTrip
import PProfessor.PprofStability

set_option autoImplicit false

/-!
# The app's encoder

`ProtobufEncoder.swift`, `ProfileEncoder.swift` and `DecodedProfile.encoded` of
PProfessorKit. Each function appends to the buffer that it is given. Every field
number is below 32, so that no tag overflows a `UInt8`.
-/
namespace PProfessor.Kit
open Pprof (ValueType Line Location Mapping Function Label Sample PprofProfile utf8)

/-- The loop that appends the digits of `v`. -/
def encodeVarint (v : UInt64) (buf : List UInt8) : List UInt8 :=
  let byte := (v &&& 0x7F).toUInt8
  if v >>> 7 = 0 then buf ++ [byte] else encodeVarint (v >>> 7) (buf ++ [byte ||| 0x80])
termination_by v.toNat
decreasing_by
  rename_i h
  have hz : (v >>> 7).toNat ≠ 0 := fun hv => h (UInt64.toNat_inj.mp (by simpa using hv))
  have hs := Pprof.shiftRight_7_toNat v
  omega

def encodeVarintField (field : ℕ) (value : UInt64) (buf : List UInt8) : List UInt8 :=
  if value = 0 then buf else encodeVarint value (buf ++ [UInt8.ofNat (field <<< 3)])

def encodeSInt64Field (field : ℕ) (value : Int64) (buf : List UInt8) : List UInt8 :=
  encodeVarintField field value.toUInt64 buf

def encodeLengthDelimited (field : ℕ) (data buf : List UInt8) : List UInt8 :=
  if data = [] then buf
  else
    encodeVarint (UInt64.ofNat data.length) (buf ++ [UInt8.ofNat (field <<< 3 ||| 2)]) ++ data

def encodeStringField (field : ℕ) (string : String) (buf : List UInt8) : List UInt8 :=
  encodeVarint (UInt64.ofNat (utf8 string).length) (buf ++ [UInt8.ofNat (field <<< 3 ||| 2)]) ++
    utf8 string

def encodePackedUInt64 (field : ℕ) (values : List UInt64) (buf : List UInt8) : List UInt8 :=
  if values = [] then buf
  else encodeLengthDelimited field (values.foldl (fun inner v => encodeVarint v inner) []) buf

def encodePackedInt64 (field : ℕ) (values : List Int64) (buf : List UInt8) : List UInt8 :=
  if values = [] then buf
  else
    encodeLengthDelimited field
      (values.foldl (fun inner v => encodeVarint v.toUInt64 inner) []) buf

def encodeEach {α : Type} (field : ℕ) (encode : α → List UInt8 → List UInt8) (xs : List α)
    (buf : List UInt8) : List UInt8 :=
  xs.foldl (fun buf x => encodeLengthDelimited field (encode x []) buf) buf

def encodeValueType (vt : ValueType) (buf : List UInt8) : List UInt8 :=
  let buf := encodeVarintField 1 vt.type buf
  encodeVarintField 2 vt.unit buf

def encodeLine (line : Line) (buf : List UInt8) : List UInt8 :=
  let buf := encodeVarintField 1 line.functionId buf
  let buf := encodeSInt64Field 2 line.line buf
  encodeSInt64Field 3 line.column buf

def encodeLocation (loc : Location) (buf : List UInt8) : List UInt8 :=
  let buf := encodeVarintField 1 loc.id buf
  let buf := encodeVarintField 2 loc.mappingId buf
  let buf := encodeVarintField 3 loc.address buf
  let buf := encodeEach 4 encodeLine loc.lines buf
  encodeVarintField 5 (if loc.isFolded then 1 else 0) buf

def encodeMapping (m : Mapping) (buf : List UInt8) : List UInt8 :=
  let buf := encodeVarintField 1 m.id buf
  let buf := encodeVarintField 2 m.memoryStart buf
  let buf := encodeVarintField 3 m.memoryLimit buf
  let buf := encodeVarintField 4 m.fileOffset buf
  let buf := encodeVarintField 5 m.filename buf
  let buf := encodeVarintField 6 m.buildId buf
  let buf := encodeVarintField 7 (if m.hasFunctions then 1 else 0) buf
  let buf := encodeVarintField 8 (if m.hasFilenames then 1 else 0) buf
  let buf := encodeVarintField 9 (if m.hasLineNumbers then 1 else 0) buf
  encodeVarintField 10 (if m.hasInlineFrames then 1 else 0) buf

def encodeFunction (f : Function) (buf : List UInt8) : List UInt8 :=
  let buf := encodeVarintField 1 f.id buf
  let buf := encodeVarintField 2 f.name buf
  let buf := encodeVarintField 3 f.systemName buf
  let buf := encodeVarintField 4 f.filename buf
  encodeSInt64Field 5 f.startLine buf

def encodeLabel (label : Label) (buf : List UInt8) : List UInt8 :=
  let buf := encodeVarintField 1 label.key buf
  let buf := encodeVarintField 2 label.strIndex buf
  let buf := encodeSInt64Field 3 label.num buf
  encodeVarintField 4 label.numUnit buf

def encodeSample (s : Sample) (buf : List UInt8) : List UInt8 :=
  let buf := encodePackedUInt64 1 s.locationIds buf
  let buf := encodePackedInt64 2 s.values buf
  encodeEach 3 encodeLabel s.labels buf

/-- The string table is given by its strings: nothing here looks its index up. -/
structure ProfileEncoder where
  strings : List String
  valueTypes : List ValueType
  samples : List Sample
  mappings : List Mapping
  locations : List Location
  functions : List Function
  timeNanos : Int64
  durationNanos : Int64
  periodType : ValueType
  period : Int64
  defaultSampleType : UInt64
  comments : List UInt64
  dropFrames : UInt64
  keepFrames : UInt64
  docURL : UInt64

def ProfileEncoder.encode (e : ProfileEncoder) : List UInt8 :=
  let buf := encodeEach 1 encodeValueType e.valueTypes []
  let buf := encodeEach 2 encodeSample e.samples buf
  let buf := encodeEach 3 encodeMapping e.mappings buf
  let buf := encodeEach 4 encodeLocation e.locations buf
  let buf := encodeEach 5 encodeFunction e.functions buf
  let buf := e.strings.foldl (fun buf s => encodeStringField 6 s buf) buf
  let buf := encodeVarintField 7 e.dropFrames buf
  let buf := encodeVarintField 8 e.keepFrames buf
  let buf := encodeSInt64Field 9 e.timeNanos buf
  let buf := encodeSInt64Field 10 e.durationNanos buf
  let buf := encodeLengthDelimited 11 (encodeValueType e.periodType []) buf
  let buf := encodeSInt64Field 12 e.period buf
  let buf := e.comments.foldl (fun buf comment => encodeVarintField 13 comment buf) buf
  let buf := encodeVarintField 14 e.defaultSampleType buf
  encodeVarintField 15 e.docURL buf

/-- Standard pprof protobuf; no application-only metadata or history envelope. -/
def DecodedProfile.encoded (d : DecodedProfile) : List UInt8 :=
  ProfileEncoder.encode
    { strings := d.stringTable
      valueTypes := d.sampleTypes
      samples := d.samples
      locations := d.locations
      functions := d.functions
      mappings := d.mappings
      timeNanos := d.timeNanos
      durationNanos := d.durationNanos
      periodType := d.periodType.getD ⟨0, 0⟩
      period := d.period
      defaultSampleType := d.defaultSampleType
      comments := d.comments
      dropFrames := d.dropFrames
      keepFrames := d.keepFrames
      docURL := d.docURL }

theorem encodeVarint_eq (v : UInt64) (buf : List UInt8) :
    encodeVarint v buf = buf ++ Pprof.encodeVarint v := by
  induction v, buf using encodeVarint.induct with
  | case1 v buf hz =>
    rw [encodeVarint, Pprof.encodeVarint, if_pos hz, if_pos hz]
  | case2 v buf byte hz ih =>
    rw [encodeVarint, Pprof.encodeVarint, if_neg hz, if_neg hz, ih, List.append_assoc]
    rfl

theorem encodeVarintField_eq (field : ℕ) (v : UInt64) (buf : List UInt8) :
    encodeVarintField field v buf = buf ++ Pprof.encodeVarintField field v := by
  unfold encodeVarintField Pprof.encodeVarintField
  split_ifs
  · exact (List.append_nil buf).symm
  · rw [encodeVarint_eq, List.append_assoc]
    rfl

theorem encodeSInt64Field_eq (field : ℕ) (v : Int64) (buf : List UInt8) :
    encodeSInt64Field field v buf = buf ++ Pprof.encodeSint64Field field v :=
  encodeVarintField_eq field v.toUInt64 buf

theorem encodeLengthDelimited_eq (field : ℕ) (data buf : List UInt8) :
    encodeLengthDelimited field data buf = buf ++ Pprof.encodeLengthDelimited field data := by
  unfold encodeLengthDelimited Pprof.encodeLengthDelimited
  split_ifs
  · exact (List.append_nil buf).symm
  · rw [encodeVarint_eq, List.append_assoc, List.append_assoc]
    rfl

theorem encodeStringField_eq (field : ℕ) (s : String) (buf : List UInt8) :
    encodeStringField field s buf = buf ++ Pprof.encodeStringField field s := by
  unfold encodeStringField Pprof.encodeStringField
  rw [encodeVarint_eq, List.append_assoc, List.append_assoc]
  rfl

theorem foldl_append_eq {α : Type} {step : List UInt8 → α → List UInt8} {f : α → List UInt8}
    (h : ∀ buf x, step buf x = buf ++ f x) (xs : List α) (buf : List UInt8) :
    xs.foldl step buf = buf ++ xs.flatMap f := by
  induction xs generalizing buf with
  | nil => exact (List.append_nil buf).symm
  | cons x xs ih => rw [List.foldl_cons, ih, h, List.flatMap_cons, List.append_assoc]

theorem encodePackedUInt64_eq (field : ℕ) (values : List UInt64) (buf : List UInt8) :
    encodePackedUInt64 field values buf = buf ++ Pprof.encodePackedU64 field values := by
  unfold encodePackedUInt64 Pprof.encodePackedU64
  split_ifs
  · exact (List.append_nil buf).symm
  · rw [encodeLengthDelimited_eq, foldl_append_eq fun buf v => encodeVarint_eq v buf]
    rfl

theorem encodePackedInt64_eq (field : ℕ) (values : List Int64) (buf : List UInt8) :
    encodePackedInt64 field values buf = buf ++ Pprof.encodePackedI64 field values := by
  unfold encodePackedInt64 Pprof.encodePackedI64
  split_ifs
  · exact (List.append_nil buf).symm
  · rw [encodeLengthDelimited_eq, foldl_append_eq fun buf v => encodeVarint_eq v.toUInt64 buf]
    rfl

theorem encodeEach_eq {α : Type} (field : ℕ) {encode : α → List UInt8 → List UInt8}
    {f : α → List UInt8} (h : ∀ x buf, encode x buf = buf ++ f x) (xs : List α)
    (buf : List UInt8) : encodeEach field encode xs buf =
      buf ++ xs.flatMap fun x => Pprof.encodeLengthDelimited field (f x) := by
  refine foldl_append_eq (fun buf x => ?_) xs buf
  rw [encodeLengthDelimited_eq, h, List.nil_append]

theorem encodeValueType_eq (vt : ValueType) (buf : List UInt8) :
    encodeValueType vt buf = buf ++ vt.encode := by
  simp only [encodeValueType, ValueType.encode, encodeVarintField_eq, List.append_assoc]

theorem encodeLine_eq (line : Line) (buf : List UInt8) :
    encodeLine line buf = buf ++ line.encode := by
  simp only [encodeLine, Line.encode, encodeVarintField_eq, encodeSInt64Field_eq,
    List.append_assoc]

theorem encodeLabel_eq (label : Label) (buf : List UInt8) :
    encodeLabel label buf = buf ++ label.encode := by
  simp only [encodeLabel, Label.encode, encodeVarintField_eq, encodeSInt64Field_eq,
    List.append_assoc]

theorem encodeFunction_eq (f : Function) (buf : List UInt8) :
    encodeFunction f buf = buf ++ f.encode := by
  simp only [encodeFunction, Function.encode, encodeVarintField_eq, encodeSInt64Field_eq,
    List.append_assoc]

/-- `? 1 : 0` is Rust's `u64::from`. -/
theorem ite_eq_toUInt64 (b : Bool) : (if b then 1 else 0) = b.toUInt64 := by
  cases b with
  | false => rfl
  | true => rfl

theorem encodeMapping_eq (m : Mapping) (buf : List UInt8) :
    encodeMapping m buf = buf ++ m.encode := by
  simp only [encodeMapping, Mapping.encode, encodeVarintField_eq, ite_eq_toUInt64,
    List.append_assoc]

theorem encodeLocation_eq (loc : Location) (buf : List UInt8) :
    encodeLocation loc buf = buf ++ loc.encode := by
  simp only [encodeLocation, Location.encode, encodeVarintField_eq,
    encodeEach_eq 4 encodeLine_eq, ite_eq_toUInt64, List.append_assoc]

theorem encodeSample_eq (s : Sample) (buf : List UInt8) :
    encodeSample s buf = buf ++ s.encode := by
  simp only [encodeSample, Sample.encode, encodePackedUInt64_eq, encodePackedInt64_eq,
    encodeEach_eq 3 encodeLabel_eq, List.append_assoc]

theorem DecodedProfile.encoded_of_agrees {d : DecodedProfile} {p : PprofProfile}
    (h : d.Agrees p) : d.encoded = p.encode := by
  obtain ⟨periodType, hperiod, rfl⟩ := h
  have hdefault : periodType.getD ⟨0, 0⟩ = p.periodType := hperiod
  unfold encoded ofModel ProfileEncoder.encode PprofProfile.encode
  dsimp only
  rw [hdefault, foldl_append_eq fun buf c => encodeVarintField_eq 13 c buf,
    foldl_append_eq fun buf s => encodeStringField_eq 6 s buf]
  simp only [encodeEach_eq _ encodeValueType_eq, encodeEach_eq _ encodeSample_eq,
    encodeEach_eq _ encodeMapping_eq, encodeEach_eq _ encodeLocation_eq,
    encodeEach_eq _ encodeFunction_eq, encodeVarintField_eq, encodeSInt64Field_eq,
    encodeLengthDelimited_eq, encodeValueType_eq, List.nil_append, List.append_assoc]

/-- What the app saves of a profile that it has read is what it has read. -/
theorem DecodedProfile.encoded_decode {text : List UInt8 → Option String}
    (htext : ∀ s, text (utf8 s) = some s) (p : PprofProfile)
    (hhead : p.strings.strings.head? = some "") (hl : p.encode.length < 2 ^ 63) :
    ∃ d, decode text p.encode = .ok d ∧ d.encoded = p.encode := by
  obtain ⟨d, hd, hagrees⟩ := decode_encode_of_head htext p hhead hl
  exact ⟨d, hd, (encoded_of_agrees hagrees).trans (p.survivor_encode _ rfl)⟩

theorem DecodedProfile.encoded_decode_droppedElements :
    ∃ d, decode Pprof.fromUtf8 Pprof.droppedElements.encode = .ok d ∧
      d.encoded = Pprof.droppedElements.encode := by
  refine encoded_decode (fun s => (Pprof.fromUtf8_eq_some_iff _ _).mpr rfl) _ ?_ ?_
  · exact congrArg List.head? Pprof.new_strings
  · exact lt_of_le_of_lt (PprofProfile.encode_length_le _)
      (lt_of_eq_of_lt Pprof.droppedElements_encodedSize (by norm_num))

end PProfessor.Kit
