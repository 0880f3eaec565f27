import PProfessor.PprofModel
import PProfessor.WireFormat

set_option autoImplicit false

/-!
# The pprof encoder

Each encoder of `src/pprof.rs` returns the bytes it appends to its buffer. What
an encoder appends is a message of the wire grammar, with the zero scalars and
the empty payloads missing.
-/
namespace PProfessor.Pprof
open WireFormat

def encodeVarint (v : UInt64) : List UInt8 :=
  let byte := (v &&& 0x7F).toUInt8
  if v >>> 7 = 0 then [byte] else (byte ||| 0x80) :: encodeVarint (v >>> 7)
termination_by v.toNat
decreasing_by
  rename_i h
  have hz : (v >>> 7).toNat ≠ 0 := fun hv => h (UInt64.toNat_inj.mp (by simpa using hv))
  have hs : (v >>> 7).toNat = v.toNat / 128 := by simp [Nat.shiftRight_eq_div_pow]
  omega

/-- Every pprof field number is below 16, so a tag is one byte. -/
def encodeVarintField (field : ℕ) (value : UInt64) : List UInt8 :=
  if value = 0 then [] else UInt8.ofNat (field <<< 3) :: encodeVarint value

def encodeSint64Field (field : ℕ) (value : Int64) : List UInt8 :=
  encodeVarintField field value.toUInt64

def encodeLengthDelimited (field : ℕ) (data : List UInt8) : List UInt8 :=
  if data = [] then []
  else UInt8.ofNat (field <<< 3 ||| 2) :: (encodeVarint (UInt64.ofNat data.length) ++ data)

/-- Emitted even for empty strings: pprof requires `string_table[0] == ""`. -/
def encodeStringField (field : ℕ) (s : String) : List UInt8 :=
  UInt8.ofNat (field <<< 3 ||| 2) :: (encodeVarint (UInt64.ofNat (utf8 s).length) ++ utf8 s)

def encodePackedU64 (field : ℕ) (values : List UInt64) : List UInt8 :=
  if values = [] then [] else encodeLengthDelimited field (values.flatMap encodeVarint)

def encodePackedI64 (field : ℕ) (values : List Int64) : List UInt8 :=
  if values = [] then []
  else encodeLengthDelimited field (values.flatMap fun v => encodeVarint v.toUInt64)

def ValueType.encode (vt : ValueType) : List UInt8 :=
  encodeVarintField 1 vt.type ++ encodeVarintField 2 vt.unit

def Line.encode (line : Line) : List UInt8 :=
  encodeVarintField 1 line.functionId ++ encodeSint64Field 2 line.line ++
    encodeSint64Field 3 line.column

def Location.encode (loc : Location) : List UInt8 :=
  encodeVarintField 1 loc.id ++ encodeVarintField 2 loc.mappingId ++
    encodeVarintField 3 loc.address ++
    loc.lines.flatMap (fun line => encodeLengthDelimited 4 line.encode) ++
    encodeVarintField 5 loc.isFolded.toUInt64

def Mapping.encode (m : Mapping) : List UInt8 :=
  encodeVarintField 1 m.id ++ encodeVarintField 2 m.memoryStart ++
    encodeVarintField 3 m.memoryLimit ++ encodeVarintField 4 m.fileOffset ++
    encodeVarintField 5 m.filename ++ encodeVarintField 6 m.buildId ++
    encodeVarintField 7 m.hasFunctions.toUInt64 ++ encodeVarintField 8 m.hasFilenames.toUInt64 ++
    encodeVarintField 9 m.hasLineNumbers.toUInt64 ++
    encodeVarintField 10 m.hasInlineFrames.toUInt64

def Function.encode (f : Function) : List UInt8 :=
  encodeVarintField 1 f.id ++ encodeVarintField 2 f.name ++ encodeVarintField 3 f.systemName ++
    encodeVarintField 4 f.filename ++ encodeSint64Field 5 f.startLine

def Label.encode (label : Label) : List UInt8 :=
  encodeVarintField 1 label.key ++ encodeVarintField 2 label.strIndex ++
    encodeSint64Field 3 label.num ++ encodeVarintField 4 label.numUnit

def Sample.encode (s : Sample) : List UInt8 :=
  encodePackedU64 1 s.locationIds ++ encodePackedI64 2 s.values ++
    s.labels.flatMap fun label => encodeLengthDelimited 3 label.encode

/-- Encode a profile as a raw (uncompressed) pprof protobuf. -/
def PprofProfile.encode (p : PprofProfile) : List UInt8 :=
  p.valueTypes.flatMap (fun vt => encodeLengthDelimited 1 vt.encode) ++
    p.samples.flatMap (fun s => encodeLengthDelimited 2 s.encode) ++
    p.mappings.flatMap (fun m => encodeLengthDelimited 3 m.encode) ++
    p.locations.flatMap (fun loc => encodeLengthDelimited 4 loc.encode) ++
    p.functions.flatMap (fun f => encodeLengthDelimited 5 f.encode) ++
    p.strings.strings.flatMap (encodeStringField 6) ++
    encodeVarintField 7 p.dropFrames ++ encodeVarintField 8 p.keepFrames ++
    encodeSint64Field 9 p.timeNanos ++ encodeSint64Field 10 p.durationNanos ++
    encodeLengthDelimited 11 p.periodType.encode ++ encodeSint64Field 12 p.period ++
    p.comments.flatMap (encodeVarintField 13) ++ encodeVarintField 14 p.defaultSampleType ++
    encodeVarintField 15 p.docUrl

theorem and_127_toNat (v : UInt64) : ((v &&& 0x7F).toUInt8).toNat = v.toNat % 128 := by
  have h : v.toNat &&& 127 = v.toNat % 128 := Nat.and_two_pow_sub_one_eq_mod v.toNat 7
  rw [UInt64.toNat_toUInt8, UInt64.toNat_and]
  change (v.toNat &&& 127) % 2 ^ 8 = _
  omega

theorem or_128_toNat {b : UInt8} (h : b.toNat < 128) : (b ||| 0x80).toNat = b.toNat + 128 := by
  rw [UInt8.toNat_or]
  have e : (0x80 : UInt8).toNat = 2 ^ 7 * 1 := rfl
  rw [e, Nat.or_comm, ← Nat.two_pow_add_eq_or_of_lt h]
  omega

theorem shiftRight_7_toNat (v : UInt64) : (v >>> 7).toNat = v.toNat / 128 := by
  simp [Nat.shiftRight_eq_div_pow]

theorem encodeVarint_digits (v : UInt64) : Varint (encodeVarint v) v.toNat := by
  induction hn : v.toNat using Nat.strong_induction_on generalizing v with
  | _ n ih =>
    subst hn
    have hlow := and_127_toNat v
    have hrest := shiftRight_7_toNat v
    rw [encodeVarint]
    by_cases hz : v >>> 7 = 0
    · have hd : v.toNat / 128 = 0 := by rw [← hrest, hz]; rfl
      have hv : v.toNat = ((v &&& 0x7F).toUInt8).toNat := by omega
      rw [if_pos hz, hv]
      exact .last (by omega)
    · have hd : v.toNat / 128 ≠ 0 := by
        rw [← hrest]
        exact fun h => hz (UInt64.toNat_inj.mp (by simpa using h))
      have hor := @or_128_toNat (v &&& 0x7F).toUInt8 (by omega)
      have hmore := @Varint.more ((v &&& 0x7F).toUInt8 ||| 0x80) _ _ (by omega)
        (ih (v >>> 7).toNat (by omega) (v >>> 7) rfl)
      have hv : v.toNat = ((v &&& 0x7F).toUInt8 ||| 0x80).toNat - 128 + 128 * (v >>> 7).toNat := by
        omega
      rw [if_neg hz, hv]
      exact hmore

theorem encodeVarint_length_le (k : ℕ) (v : UInt64) (h : v.toNat < 128 ^ (k + 1)) :
    (encodeVarint v).length ≤ k + 1 := by
  induction k generalizing v with
  | zero =>
    have hz : v >>> 7 = 0 := by
      apply UInt64.toNat_inj.mp
      rw [shiftRight_7_toNat]
      simp only [UInt64.toNat_zero]
      omega
    rw [encodeVarint, if_pos hz]
    simp
  | succ k ih =>
    rw [encodeVarint]
    split_ifs
    · simp
    · have hs : (v >>> 7).toNat < 128 ^ (k + 1) := by
        rw [shiftRight_7_toNat, Nat.div_lt_iff_lt_mul (by decide)]
        rwa [pow_succ] at h
      simpa using ih _ hs

theorem encodeVarint_varint64 (v : UInt64) : Varint64 (encodeVarint v) v := by
  refine .of_digits (encodeVarint_digits v) (encodeVarint_length_le 9 v ?_)
  have h := v.toNat_lt
  norm_num
  omega

theorem flatMap_encodeVarint_packed (vs : List UInt64) : Packed (vs.flatMap encodeVarint) vs := by
  induction vs with
  | nil => exact .nil
  | cons v vs ih => exact .cons (encodeVarint_varint64 v) ih

theorem encodeVarint_of_lt {v : UInt64} (h : v >>> 7 = 0) :
    encodeVarint v = [(v &&& 0x7F).toUInt8] := by
  rw [encodeVarint, if_pos h]

theorem encodeVarint_ne_nil (v : UInt64) : encodeVarint v ≠ [] :=
  (encodeVarint_digits v).ne_nil

def varintField (number : ℕ) (value : UInt64) : List WireField :=
  if value = 0 then [] else [⟨number, .varint value⟩]

def payloadField (number : ℕ) (payload : List UInt8) : List WireField :=
  if payload = [] then [] else [⟨number, .bytes payload⟩]

theorem singleByte_tag (number wire : ℕ) (hn : 0 < number ∧ number < 16) (hw : wire < 8) :
    Tag [UInt8.ofNat (8 * number + wire)] number wire := by
  have hb : (UInt8.ofNat (8 * number + wire)).toNat = 8 * number + wire := by
    rw [UInt8.toNat_ofNat']
    omega
  have ht : (UInt64.ofNat (8 * number + wire)).toNat = 8 * number + wire := by
    rw [UInt64.toNat_ofNat']
    omega
  have hd : Varint [UInt8.ofNat (8 * number + wire)] (UInt64.ofNat (8 * number + wire)).toNat := by
    have hl := @Varint.last (UInt8.ofNat (8 * number + wire)) (by omega)
    rw [hb] at hl
    rwa [ht]
  exact ⟨UInt64.ofNat (8 * number + wire), .of_digits hd (by simp), by omega, by omega, by omega⟩

theorem shiftLeft_3_or_2 (number : ℕ) : number <<< 3 ||| 2 = 8 * number + 2 := by
  have h := @Nat.two_pow_add_eq_or_of_lt 3 2 (by decide) number
  rw [Nat.shiftLeft_eq, Nat.mul_comm]
  exact h.symm

theorem encodeVarintField_message (number : ℕ) (v : UInt64)
    (hn : 0 < number ∧ number < 16) :
    Message (encodeVarintField number v) (varintField number v) := by
  unfold encodeVarintField varintField
  split_ifs
  · exact .nil
  · have ht := singleByte_tag number 0 hn (by decide)
    have hf := Message.single (IsField.varint ht (encodeVarint_varint64 v))
    rw [show number <<< 3 = 8 * number + 0 by rw [Nat.shiftLeft_eq]; omega]
    simpa using hf

theorem encodeLengthDelimited_field (number : ℕ) (data : List UInt8)
    (hd : data.length < 2 ^ 64) (hn : 0 < number ∧ number < 16) :
    IsField (UInt8.ofNat (number <<< 3 ||| 2) ::
      (encodeVarint (UInt64.ofNat data.length) ++ data)) ⟨number, .bytes data⟩ := by
  have ht := singleByte_tag number 2 hn (by decide)
  have hl : data.length = (UInt64.ofNat data.length).toNat := by
    rw [UInt64.toNat_ofNat', Nat.mod_eq_of_lt hd]
  have hf := IsField.bytes ht (encodeVarint_varint64 _) hl
  rw [shiftLeft_3_or_2]
  simpa using hf

theorem encodeLengthDelimited_message (number : ℕ) (data : List UInt8)
    (hd : data.length < 2 ^ 64) (hn : 0 < number ∧ number < 16) :
    Message (encodeLengthDelimited number data) (payloadField number data) := by
  unfold encodeLengthDelimited payloadField
  split_ifs
  · exact .nil
  · exact .single (encodeLengthDelimited_field number data hd hn)

theorem length_le_encodeLengthDelimited (number : ℕ) (data : List UInt8) :
    data.length ≤ (encodeLengthDelimited number data).length := by
  unfold encodeLengthDelimited
  split_ifs with h
  · simp [h]
  · simp only [List.length_cons, List.length_append]
    omega

theorem length_le_flatMap {α : Type} (enc : α → List UInt8) {xs : List α} {x : α} (h : x ∈ xs) :
    (enc x).length ≤ (xs.flatMap enc).length := by
  induction xs with
  | nil => simp at h
  | cons y ys ih =>
    rw [List.flatMap_cons, List.length_append]
    rcases List.mem_cons.mp h with rfl | hy
    · omega
    · have := ih hy
      omega

theorem flatMap_message {α : Type} {enc : α → List UInt8} {fields : α → List WireField}
    {xs : List α} (h : ∀ x ∈ xs, Message (enc x) (fields x)) :
    Message (xs.flatMap enc) (xs.flatMap fields) := by
  induction xs with
  | nil => exact .nil
  | cons x xs ih =>
    rw [List.flatMap_cons, List.flatMap_cons]
    exact (h x (by simp)).append (ih fun y hy => h y (by simp [hy]))

theorem submessages_message {α : Type} (number : ℕ) (enc : α → List UInt8) (xs : List α)
    (hl : (xs.flatMap fun x => encodeLengthDelimited number (enc x)).length < 2 ^ 64)
    (hn : 0 < number ∧ number < 16) :
    Message (xs.flatMap fun x => encodeLengthDelimited number (enc x))
      (xs.flatMap fun x => payloadField number (enc x)) := by
  apply flatMap_message
  intro x hx
  have h := length_le_flatMap (fun x => encodeLengthDelimited number (enc x)) hx
  have h' := length_le_encodeLengthDelimited number (enc x)
  exact encodeLengthDelimited_message number _ ((h'.trans h).trans_lt hl) hn

def ValueType.fields (vt : ValueType) : List WireField :=
  varintField 1 vt.type ++ varintField 2 vt.unit

def Line.fields (line : Line) : List WireField :=
  varintField 1 line.functionId ++ varintField 2 line.line.toUInt64 ++
    varintField 3 line.column.toUInt64

def Location.fields (loc : Location) : List WireField :=
  varintField 1 loc.id ++ varintField 2 loc.mappingId ++ varintField 3 loc.address ++
    loc.lines.flatMap (fun line => payloadField 4 line.encode) ++
    varintField 5 loc.isFolded.toUInt64

def Mapping.fields (m : Mapping) : List WireField :=
  varintField 1 m.id ++ varintField 2 m.memoryStart ++ varintField 3 m.memoryLimit ++
    varintField 4 m.fileOffset ++ varintField 5 m.filename ++ varintField 6 m.buildId ++
    varintField 7 m.hasFunctions.toUInt64 ++ varintField 8 m.hasFilenames.toUInt64 ++
    varintField 9 m.hasLineNumbers.toUInt64 ++ varintField 10 m.hasInlineFrames.toUInt64

def Function.fields (f : Function) : List WireField :=
  varintField 1 f.id ++ varintField 2 f.name ++ varintField 3 f.systemName ++
    varintField 4 f.filename ++ varintField 5 f.startLine.toUInt64

def Label.fields (label : Label) : List WireField :=
  varintField 1 label.key ++ varintField 2 label.strIndex ++
    varintField 3 label.num.toUInt64 ++ varintField 4 label.numUnit

def Sample.fields (s : Sample) : List WireField :=
  payloadField 1 (s.locationIds.flatMap encodeVarint) ++
    payloadField 2 (s.values.flatMap fun v => encodeVarint v.toUInt64) ++
    s.labels.flatMap fun label => payloadField 3 label.encode

def PprofProfile.fields (p : PprofProfile) : List WireField :=
  p.valueTypes.flatMap (fun vt => payloadField 1 vt.encode) ++
    p.samples.flatMap (fun s => payloadField 2 s.encode) ++
    p.mappings.flatMap (fun m => payloadField 3 m.encode) ++
    p.locations.flatMap (fun loc => payloadField 4 loc.encode) ++
    p.functions.flatMap (fun f => payloadField 5 f.encode) ++
    p.strings.strings.flatMap (fun s => [⟨6, .bytes (utf8 s)⟩]) ++
    varintField 7 p.dropFrames ++ varintField 8 p.keepFrames ++
    varintField 9 p.timeNanos.toUInt64 ++ varintField 10 p.durationNanos.toUInt64 ++
    payloadField 11 p.periodType.encode ++ varintField 12 p.period.toUInt64 ++
    p.comments.flatMap (varintField 13) ++ varintField 14 p.defaultSampleType ++
    varintField 15 p.docUrl

theorem ValueType.encode_message (vt : ValueType) : Message vt.encode vt.fields :=
  (encodeVarintField_message 1 _ (by decide)).append (encodeVarintField_message 2 _ (by decide))

theorem Line.encode_message (line : Line) : Message line.encode line.fields := by
  unfold Line.encode Line.fields encodeSint64Field
  repeat' apply Message.append
  all_goals exact encodeVarintField_message _ _ (by decide)

theorem Mapping.encode_message (m : Mapping) : Message m.encode m.fields := by
  unfold Mapping.encode Mapping.fields
  repeat' apply Message.append
  all_goals exact encodeVarintField_message _ _ (by decide)

theorem Function.encode_message (f : Function) : Message f.encode f.fields := by
  unfold Function.encode Function.fields encodeSint64Field
  repeat' apply Message.append
  all_goals exact encodeVarintField_message _ _ (by decide)

theorem Label.encode_message (label : Label) : Message label.encode label.fields := by
  unfold Label.encode Label.fields encodeSint64Field
  repeat' apply Message.append
  all_goals exact encodeVarintField_message _ _ (by decide)

theorem Location.encode_message (loc : Location) (h : loc.encode.length < 2 ^ 64) :
    Message loc.encode loc.fields := by
  unfold Location.encode at h ⊢
  unfold Location.fields
  simp only [List.length_append] at h
  repeat' apply Message.append
  · exact encodeVarintField_message 1 _ (by decide)
  · exact encodeVarintField_message 2 _ (by decide)
  · exact encodeVarintField_message 3 _ (by decide)
  · exact submessages_message 4 Line.encode loc.lines (by omega) (by decide)
  · exact encodeVarintField_message 5 _ (by decide)

theorem encodePackedU64_eq (number : ℕ) (values : List UInt64) :
    encodePackedU64 number values = encodeLengthDelimited number (values.flatMap encodeVarint) := by
  cases values with
  | nil => simp [encodePackedU64, encodeLengthDelimited]
  | cons v vs => simp [encodePackedU64]

theorem encodePackedI64_eq (number : ℕ) (values : List Int64) :
    encodePackedI64 number values =
      encodeLengthDelimited number (values.flatMap fun v => encodeVarint v.toUInt64) := by
  cases values with
  | nil => simp [encodePackedI64, encodeLengthDelimited]
  | cons v vs => simp [encodePackedI64]

theorem Sample.encode_message (s : Sample) (h : s.encode.length < 2 ^ 64) :
    Message s.encode s.fields := by
  unfold Sample.encode at h ⊢
  unfold Sample.fields
  rw [encodePackedU64_eq, encodePackedI64_eq] at h ⊢
  simp only [List.length_append] at h
  have hids := length_le_encodeLengthDelimited 1 (s.locationIds.flatMap encodeVarint)
  have hvals := length_le_encodeLengthDelimited 2
    (s.values.flatMap fun v => encodeVarint v.toUInt64)
  refine ((encodeLengthDelimited_message 1 _ (by omega) (by decide)).append
    (encodeLengthDelimited_message 2 _ (by omega) (by decide))).append ?_
  exact submessages_message 3 Label.encode s.labels (by omega) (by decide)

theorem strings_message (strings : List String)
    (h : (strings.flatMap (encodeStringField 6)).length < 2 ^ 64) :
    Message (strings.flatMap (encodeStringField 6))
      (strings.flatMap fun s => [⟨6, .bytes (utf8 s)⟩]) := by
  apply flatMap_message
  intro s hs
  have hl := length_le_flatMap (encodeStringField 6) hs
  refine .single (encodeLengthDelimited_field 6 (utf8 s) ?_ (by decide))
  have he : (encodeStringField 6 s).length =
      1 + ((encodeVarint (UInt64.ofNat (utf8 s).length)).length + (utf8 s).length) := by
    simp only [encodeStringField, List.length_cons, List.length_append]
    omega
  omega

/-- What `encode` writes is a message: the fields of the profile that are not at
their default. -/
theorem PprofProfile.encode_message (p : PprofProfile) (h : p.encode.length < 2 ^ 64) :
    Message p.encode p.fields := by
  unfold PprofProfile.encode at h ⊢
  unfold PprofProfile.fields encodeSint64Field
  simp only [List.length_append] at h
  have hperiod := length_le_encodeLengthDelimited 11 p.periodType.encode
  repeat' apply Message.append
  · exact submessages_message 1 ValueType.encode p.valueTypes (by omega) (by decide)
  · exact submessages_message 2 Sample.encode p.samples (by omega) (by decide)
  · exact submessages_message 3 Mapping.encode p.mappings (by omega) (by decide)
  · exact submessages_message 4 Location.encode p.locations (by omega) (by decide)
  · exact submessages_message 5 Function.encode p.functions (by omega) (by decide)
  · exact strings_message p.strings.strings (by omega)
  · exact encodeVarintField_message 7 _ (by decide)
  · exact encodeVarintField_message 8 _ (by decide)
  · exact encodeVarintField_message 9 _ (by decide)
  · exact encodeVarintField_message 10 _ (by decide)
  · exact encodeLengthDelimited_message 11 _ (by omega) (by decide)
  · exact encodeVarintField_message 12 _ (by decide)
  · exact flatMap_message fun v _ => encodeVarintField_message 13 v (by decide)
  · exact encodeVarintField_message 14 _ (by decide)
  · exact encodeVarintField_message 15 _ (by decide)

end PProfessor.Pprof
