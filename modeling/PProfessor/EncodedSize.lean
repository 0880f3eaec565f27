import PProfessor.PprofEncoder

set_option autoImplicit false

/-!
# How long an encoding gets

A bound on the length of what the encoder writes, from the lengths of the `Vec`s
and strings of the profile.
-/
namespace PProfessor.Pprof

theorem encodeVarint_length (v : UInt64) : (encodeVarint v).length ≤ 10 := by
  have h := v.toNat_lt
  exact encodeVarint_length_le 9 v (by norm_num; omega)

theorem encodeVarintField_length (field : ℕ) (v : UInt64) :
    (encodeVarintField field v).length ≤ 11 := by
  unfold encodeVarintField
  split_ifs
  · exact Nat.zero_le _
  · exact Nat.succ_le_succ (encodeVarint_length v)

theorem encodeLengthDelimited_length (field : ℕ) (data : List UInt8) :
    (encodeLengthDelimited field data).length ≤ data.length + 11 := by
  unfold encodeLengthDelimited
  have h := encodeVarint_length (UInt64.ofNat data.length)
  split_ifs
  · exact Nat.zero_le _
  · rw [List.length_cons, List.length_append]
    omega

theorem encodeStringField_length (field : ℕ) (s : String) :
    (encodeStringField field s).length ≤ (utf8 s).length + 11 := by
  unfold encodeStringField
  have h := encodeVarint_length (UInt64.ofNat (utf8 s).length)
  rw [List.length_cons, List.length_append]
  omega

theorem flatMap_length_le {α : Type} {f : α → List UInt8} {c : α → ℕ} (xs : List α)
    (h : ∀ x, (f x).length ≤ c x) : (xs.flatMap f).length ≤ (xs.map c).sum := by
  induction xs with
  | nil => exact le_refl _
  | cons x xs ih =>
    rw [List.flatMap_cons, List.length_append, List.map_cons, List.sum_cons]
    exact add_le_add (h x) ih

theorem flatMap_length_le_mul {α : Type} {f : α → List UInt8} {c : ℕ} (xs : List α)
    (h : ∀ x, (f x).length ≤ c) : (xs.flatMap f).length ≤ c * xs.length := by
  refine (flatMap_length_le xs h).trans_eq ?_
  rw [List.map_const', List.sum_replicate, smul_eq_mul, Nat.mul_comm]

theorem encodePackedU64_length (field : ℕ) (values : List UInt64) :
    (encodePackedU64 field values).length ≤ 10 * values.length + 11 := by
  unfold encodePackedU64
  split_ifs
  · exact Nat.zero_le _
  · have h := flatMap_length_le_mul values encodeVarint_length
    exact (encodeLengthDelimited_length _ _).trans (Nat.add_le_add_right h 11)

theorem encodePackedI64_length (field : ℕ) (values : List Int64) :
    (encodePackedI64 field values).length ≤ 10 * values.length + 11 := by
  unfold encodePackedI64
  split_ifs
  · exact Nat.zero_le _
  · have h := flatMap_length_le_mul values fun v => encodeVarint_length v.toUInt64
    exact (encodeLengthDelimited_length _ _).trans (Nat.add_le_add_right h 11)

theorem ValueType.encode_length (vt : ValueType) : vt.encode.length ≤ 22 := by
  unfold ValueType.encode
  have h₁ := encodeVarintField_length 1 vt.type
  have h₂ := encodeVarintField_length 2 vt.unit
  rw [List.length_append]
  omega

theorem Line.encode_length (line : Line) : line.encode.length ≤ 33 := by
  unfold Line.encode encodeSint64Field
  have h₁ := encodeVarintField_length 1 line.functionId
  have h₂ := encodeVarintField_length 2 line.line.toUInt64
  have h₃ := encodeVarintField_length 3 line.column.toUInt64
  rw [List.length_append, List.length_append]
  omega

theorem Label.encode_length (label : Label) : label.encode.length ≤ 44 := by
  unfold Label.encode encodeSint64Field
  have h₁ := encodeVarintField_length 1 label.key
  have h₂ := encodeVarintField_length 2 label.strIndex
  have h₃ := encodeVarintField_length 3 label.num.toUInt64
  have h₄ := encodeVarintField_length 4 label.numUnit
  rw [List.length_append, List.length_append, List.length_append]
  omega

theorem Function.encode_length (f : Function) : f.encode.length ≤ 55 := by
  unfold Function.encode encodeSint64Field
  have h₁ := encodeVarintField_length 1 f.id
  have h₂ := encodeVarintField_length 2 f.name
  have h₃ := encodeVarintField_length 3 f.systemName
  have h₄ := encodeVarintField_length 4 f.filename
  have h₅ := encodeVarintField_length 5 f.startLine.toUInt64
  simp only [List.length_append]
  omega

theorem Mapping.encode_length (m : Mapping) : m.encode.length ≤ 110 := by
  unfold Mapping.encode
  have h₁ := encodeVarintField_length 1 m.id
  have h₂ := encodeVarintField_length 2 m.memoryStart
  have h₃ := encodeVarintField_length 3 m.memoryLimit
  have h₄ := encodeVarintField_length 4 m.fileOffset
  have h₅ := encodeVarintField_length 5 m.filename
  have h₆ := encodeVarintField_length 6 m.buildId
  have h₇ := encodeVarintField_length 7 m.hasFunctions.toUInt64
  have h₈ := encodeVarintField_length 8 m.hasFilenames.toUInt64
  have h₉ := encodeVarintField_length 9 m.hasLineNumbers.toUInt64
  have h₁₀ := encodeVarintField_length 10 m.hasInlineFrames.toUInt64
  simp only [List.length_append]
  omega

theorem field_length {data : List UInt8} {n : ℕ} (field : ℕ) (h : data.length ≤ n) :
    (encodeLengthDelimited field data).length ≤ n + 11 :=
  (encodeLengthDelimited_length field data).trans (Nat.add_le_add_right h 11)

def locationSize (l : Location) : ℕ := 44 * l.lines.length + 44

theorem Location.encode_length (l : Location) : l.encode.length ≤ locationSize l := by
  unfold Location.encode locationSize
  have h₁ := encodeVarintField_length 1 l.id
  have h₂ := encodeVarintField_length 2 l.mappingId
  have h₃ := encodeVarintField_length 3 l.address
  have h₄ := flatMap_length_le_mul l.lines fun line => field_length 4 line.encode_length
  have h₅ := encodeVarintField_length 5 l.isFolded.toUInt64
  simp only [List.length_append]
  omega

def sampleSize (s : Sample) : ℕ :=
  10 * s.locationIds.length + 10 * s.values.length + 55 * s.labels.length + 22

theorem Sample.encode_length (s : Sample) : s.encode.length ≤ sampleSize s := by
  unfold Sample.encode sampleSize
  have h₁ := encodePackedU64_length 1 s.locationIds
  have h₂ := encodePackedI64_length 2 s.values
  have h₃ := flatMap_length_le_mul s.labels fun label => field_length 3 label.encode_length
  simp only [List.length_append]
  omega

def PprofProfile.encodedSize (p : PprofProfile) : ℕ :=
  33 * p.valueTypes.length + (p.samples.map fun s => sampleSize s + 11).sum +
    121 * p.mappings.length + (p.locations.map fun l => locationSize l + 11).sum +
    66 * p.functions.length + (p.strings.strings.map fun s => (utf8 s).length + 11).sum +
    11 * p.comments.length + 110

theorem PprofProfile.encode_length_le (p : PprofProfile) : p.encode.length ≤ p.encodedSize := by
  unfold PprofProfile.encode PprofProfile.encodedSize encodeSint64Field
  have h₁ := flatMap_length_le_mul p.valueTypes fun vt => field_length 1 vt.encode_length
  have h₂ := flatMap_length_le p.samples fun s => field_length 2 s.encode_length
  have h₃ := flatMap_length_le_mul p.mappings fun m => field_length 3 m.encode_length
  have h₄ := flatMap_length_le p.locations fun l => field_length 4 l.encode_length
  have h₅ := flatMap_length_le_mul p.functions fun f => field_length 5 f.encode_length
  have h₆ := flatMap_length_le p.strings.strings (encodeStringField_length 6)
  have h₇ := encodeVarintField_length 7 p.dropFrames
  have h₈ := encodeVarintField_length 8 p.keepFrames
  have h₉ := encodeVarintField_length 9 p.timeNanos.toUInt64
  have h₁₀ := encodeVarintField_length 10 p.durationNanos.toUInt64
  have h₁₁ := field_length 11 p.periodType.encode_length
  have h₁₂ := encodeVarintField_length 12 p.period.toUInt64
  have h₁₃ := flatMap_length_le_mul p.comments (encodeVarintField_length 13)
  have h₁₄ := encodeVarintField_length 14 p.defaultSampleType
  have h₁₅ := encodeVarintField_length 15 p.docUrl
  simp only [List.length_append]
  omega

end PProfessor.Pprof
