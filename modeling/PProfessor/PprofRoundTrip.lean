import PProfessor.EncodedSize
import PProfessor.PprofGrammar

set_option autoImplicit false

/-!
# Encoding and decoding a profile

The encoder leaves out zero scalars and empty payloads at every level, so a
repeated element that is all default leaves no trace. Decoding an encoding gives
back the profile without those elements, and nothing else is lost.
-/
namespace PProfessor.Pprof
open WireFormat

def Location.survivor (loc : Location) : Location :=
  { loc with lines := loc.lines.filter (· ≠ default) }

def Sample.survivor (s : Sample) : Sample :=
  { s with labels := s.labels.filter (· ≠ default) }

def PprofProfile.survivor (p : PprofProfile) : PprofProfile :=
  { p with
    valueTypes := p.valueTypes.filter (· ≠ default)
    samples := (p.samples.map Sample.survivor).filter (· ≠ default)
    mappings := p.mappings.filter (· ≠ default)
    locations := (p.locations.map Location.survivor).filter (· ≠ default)
    functions := p.functions.filter (· ≠ default)
    comments := p.comments.filter (· ≠ 0) }

/-- No element of a repeated field, at any level, has all its fields at their default. -/
structure PprofProfile.NoDefaultElement (p : PprofProfile) : Prop where
  valueTypes : ∀ vt ∈ p.valueTypes, vt ≠ default
  samples : ∀ s ∈ p.samples, s ≠ default ∧ ∀ label ∈ s.labels, label ≠ default
  mappings : ∀ m ∈ p.mappings, m ≠ default
  locations : ∀ loc ∈ p.locations, loc ≠ default ∧ ∀ line ∈ loc.lines, line ≠ default
  functions : ∀ f ∈ p.functions, f ≠ default
  comments : ∀ c ∈ p.comments, c ≠ 0

theorem filter_map_eq_self_iff {α : Type} (f : α → α) (keep : α → Bool) (xs : List α) :
    (xs.map f).filter keep = xs ↔ ∀ x ∈ xs, f x = x ∧ keep x = true := by
  constructor
  · intro h
    have hlen : ((xs.map f).filter keep).length = (xs.map f).length := by
      rw [h, List.length_map]
    have hall := List.length_filter_eq_length_iff.mp hlen
    have hmap : xs.map f = xs := by
      rw [← List.filter_eq_self.mpr hall]
      exact h
    have hf := List.map_inj_left.mp (hmap.trans (List.map_id xs).symm)
    intro x hx
    refine ⟨hf x hx, ?_⟩
    have hk := hall (f x) (List.mem_map_of_mem hx)
    rwa [hf x hx] at hk
  · intro h
    have hmap : xs.map f = xs :=
      (List.map_inj_left.mpr fun x hx => (h x hx).1).trans (List.map_id xs)
    rw [hmap]
    exact List.filter_eq_self.mpr fun x hx => (h x hx).2

theorem Sample.survivor_eq_self_iff (s : Sample) :
    s.survivor = s ↔ ∀ label ∈ s.labels, label ≠ default := by
  obtain ⟨ids, values, labels⟩ := s
  simp [Sample.survivor]

theorem Location.survivor_eq_self_iff (loc : Location) :
    loc.survivor = loc ↔ ∀ line ∈ loc.lines, line ≠ default := by
  obtain ⟨id, mappingId, address, lines, isFolded⟩ := loc
  simp [Location.survivor]

theorem PprofProfile.survivor_eq_self_iff (p : PprofProfile) :
    p.survivor = p ↔ p.NoDefaultElement := by
  have hparts : p.survivor = p ↔
      p.valueTypes.filter (· ≠ default) = p.valueTypes ∧
      (p.samples.map Sample.survivor).filter (· ≠ default) = p.samples ∧
      p.mappings.filter (· ≠ default) = p.mappings ∧
      (p.locations.map Location.survivor).filter (· ≠ default) = p.locations ∧
      p.functions.filter (· ≠ default) = p.functions ∧
      p.comments.filter (· ≠ 0) = p.comments := by
    cases p
    simp only [PprofProfile.survivor, PprofProfile.mk.injEq, true_and, and_true]
  rw [hparts]
  simp only [filter_map_eq_self_iff, List.filter_eq_self, Sample.survivor_eq_self_iff,
    Location.survivor_eq_self_iff, decide_eq_true_eq]
  constructor
  · rintro ⟨hvt, hs, hm, hl, hf, hc⟩
    exact ⟨hvt, fun s h => (hs s h).symm, hm, fun l h => (hl l h).symm, hf, hc⟩
  · rintro ⟨hvt, hs, hm, hl, hf, hc⟩
    exact ⟨hvt, fun s h => (hs s h).symm, hm, fun l h => (hl l h).symm, hf, hc⟩

theorem encodeVarintField_eq_nil_iff (number : ℕ) (v : UInt64) :
    encodeVarintField number v = [] ↔ v = 0 := by
  unfold encodeVarintField
  split_ifs with h <;> simp [h]

theorem encodeLengthDelimited_eq_nil_iff (number : ℕ) (data : List UInt8) :
    encodeLengthDelimited number data = [] ↔ data = [] := by
  unfold encodeLengthDelimited
  split_ifs with h <;> simp [h]

theorem toUInt64_eq_zero_iff (i : Int64) : i.toUInt64 = 0 ↔ i = 0 := by
  constructor
  · intro h
    rw [← Int64.toInt64_toUInt64 i, h]
    rfl
  · rintro rfl
    rfl

theorem boolToUInt64_eq_zero_iff (b : Bool) : b.toUInt64 = 0 ↔ b = false := by
  cases b <;> decide

theorem ValueType.encode_eq_nil_iff (vt : ValueType) : vt.encode = [] ↔ vt = default := by
  obtain ⟨type, unit⟩ := vt
  change _ ↔ (⟨type, unit⟩ : ValueType) = ⟨0, 0⟩
  simp [ValueType.encode, encodeVarintField_eq_nil_iff]

theorem Line.encode_eq_nil_iff (line : Line) : line.encode = [] ↔ line = default := by
  obtain ⟨functionId, line, column⟩ := line
  change _ ↔ (⟨functionId, line, column⟩ : Line) = ⟨0, 0, 0⟩
  simp [Line.encode, encodeSint64Field, encodeVarintField_eq_nil_iff, toUInt64_eq_zero_iff]

theorem Mapping.encode_eq_nil_iff (m : Mapping) : m.encode = [] ↔ m = default := by
  obtain ⟨id, start, limit, offset, filename, buildId, b₁, b₂, b₃, b₄⟩ := m
  change _ ↔ (⟨id, start, limit, offset, filename, buildId, b₁, b₂, b₃, b₄⟩ : Mapping) =
    ⟨0, 0, 0, 0, 0, 0, false, false, false, false⟩
  simp [Mapping.encode, encodeVarintField_eq_nil_iff, boolToUInt64_eq_zero_iff]

theorem Function.encode_eq_nil_iff (f : Function) : f.encode = [] ↔ f = default := by
  obtain ⟨id, name, systemName, filename, startLine⟩ := f
  change _ ↔ (⟨id, name, systemName, filename, startLine⟩ : Function) = ⟨0, 0, 0, 0, 0⟩
  simp [Function.encode, encodeSint64Field, encodeVarintField_eq_nil_iff, toUInt64_eq_zero_iff]

theorem Label.encode_eq_nil_iff (label : Label) : label.encode = [] ↔ label = default := by
  obtain ⟨key, strIndex, num, numUnit⟩ := label
  change _ ↔ (⟨key, strIndex, num, numUnit⟩ : Label) = ⟨0, 0, 0, 0⟩
  simp [Label.encode, encodeSint64Field, encodeVarintField_eq_nil_iff, toUInt64_eq_zero_iff]

theorem Location.encode_eq_nil_iff (loc : Location) :
    loc.encode = [] ↔ loc.survivor = default := by
  obtain ⟨id, mappingId, address, lines, isFolded⟩ := loc
  change _ ↔ (⟨id, mappingId, address, lines.filter (· ≠ default), isFolded⟩ : Location) =
    ⟨0, 0, 0, [], false⟩
  simp [Location.encode, encodeVarintField_eq_nil_iff, encodeLengthDelimited_eq_nil_iff,
    Line.encode_eq_nil_iff, boolToUInt64_eq_zero_iff]

theorem flatMap_encodeVarint_eq_nil_iff {α : Type} (conv : α → UInt64) (xs : List α) :
    xs.flatMap (fun x => encodeVarint (conv x)) = [] ↔ xs = [] := by
  cases xs with
  | nil => simp
  | cons x xs => simp [encodeVarint_ne_nil]

theorem Sample.encode_eq_nil_iff (s : Sample) : s.encode = [] ↔ s.survivor = default := by
  obtain ⟨ids, values, labels⟩ := s
  change _ ↔ (⟨ids, values, labels.filter (· ≠ default)⟩ : Sample) = ⟨[], [], []⟩
  have hids := flatMap_encodeVarint_eq_nil_iff id ids
  have hvals := flatMap_encodeVarint_eq_nil_iff Int64.toUInt64 values
  simp only [id] at hids
  simp only [Sample.encode, encodePackedU64_eq, encodePackedI64_eq, List.append_eq_nil_iff,
    encodeLengthDelimited_eq_nil_iff, hids, hvals, List.flatMap_eq_nil_iff,
    Label.encode_eq_nil_iff, Sample.mk.injEq, List.filter_eq_nil_iff, decide_eq_true_eq,
    not_not, and_assoc]

theorem foldl_varintField {σ : Type} (merge : σ → Field → σ) (s : σ) (number : ℕ) (v : UInt64)
    (h : merge s ⟨number, .varint 0⟩ = s) :
    (varintField number v).foldl merge s = merge s ⟨number, .varint v⟩ := by
  unfold varintField
  split_ifs with hv
  · rw [hv]
    exact h.symm
  · rfl

theorem foldl_submessages {σ α β : Type} (merge : σ → Field → σ) (r : Repeated σ β) (number : ℕ)
    (mean : List UInt8 → β)
    (hmerge : ∀ s data, merge s ⟨number, .bytes data⟩ = r.append s [mean data])
    (enc : α → List UInt8) (xs : List α) (s : σ) :
    (xs.flatMap fun x => payloadField number (enc x)).foldl merge s =
      r.append s ((xs.filter fun x => enc x ≠ []).map fun x => mean (enc x)) := by
  induction xs generalizing s with
  | nil => exact (r.append_nil s).symm
  | cons x xs ih =>
    rw [List.flatMap_cons, List.foldl_append, ih]
    by_cases hx : enc x = []
    · simp [payloadField, hx]
    · simp [payloadField, hx, hmerge, r.append_append]

theorem filter_map_survivors {α : Type} [DecidableEq α] [Inhabited α] (enc : α → List UInt8)
    (mean : List UInt8 → α) (survivor : α → α) (xs : List α)
    (hmean : ∀ x ∈ xs, mean (enc x) = survivor x)
    (hnil : ∀ x, enc x = [] ↔ survivor x = default) :
    ((xs.filter fun x => enc x ≠ []).map fun x => mean (enc x)) =
      (xs.map survivor).filter (· ≠ default) := by
  rw [List.filter_map]
  have hkeep : (xs.filter fun x => enc x ≠ []) =
      xs.filter ((fun x => decide (x ≠ default)) ∘ survivor) := by
    apply List.filter_congr
    intro x _
    simp [hnil]
  rw [← hkeep]
  apply List.map_congr_left
  intro x hx
  exact hmean x (List.mem_filter.mp hx).1

theorem meaning_eq {σ : Type} {merge : σ → Field → σ} {init : σ} {data : List UInt8}
    {fs : List Field} (h : Message data fs) : meaning merge init data = fs.foldl merge init := by
  rw [meaning, h.fieldsOf_eq]

theorem ValueType.meaning_encode (vt : ValueType) :
    ValueType.spelled (fieldsOf vt.encode) = vt := by
  rw [← ValueType.meaning_setField, meaning_eq vt.encode_message]
  unfold ValueType.fields
  rw [List.foldl_append, foldl_varintField _ _ 1, foldl_varintField _ _ 2]
  all_goals rfl

theorem Line.meaning_encode (line : Line) :
    Line.spelled (fieldsOf line.encode) = line := by
  rw [← Line.meaning_setField, meaning_eq line.encode_message]
  unfold Line.fields
  rw [List.foldl_append, List.foldl_append, foldl_varintField _ _ 1, foldl_varintField _ _ 2,
    foldl_varintField _ _ 3]
  · change (⟨line.functionId, line.line.toUInt64.toInt64, line.column.toUInt64.toInt64⟩ : Line) = _
    rw [Int64.toInt64_toUInt64, Int64.toInt64_toUInt64]
  all_goals rfl

theorem Label.meaning_encode (label : Label) :
    Label.spelled (fieldsOf label.encode) = label := by
  rw [← Label.meaning_setField, meaning_eq label.encode_message]
  unfold Label.fields
  rw [List.foldl_append, List.foldl_append, List.foldl_append, foldl_varintField _ _ 1,
    foldl_varintField _ _ 2, foldl_varintField _ _ 3, foldl_varintField _ _ 4]
  · change (⟨label.key, label.strIndex, label.num.toUInt64.toInt64, label.numUnit⟩ : Label) = _
    rw [Int64.toInt64_toUInt64]
  all_goals rfl

theorem Function.meaning_encode (f : Function) :
    Function.spelled (fieldsOf f.encode) = f := by
  rw [← Function.meaning_setField, meaning_eq f.encode_message]
  unfold Function.fields
  rw [List.foldl_append, List.foldl_append, List.foldl_append, List.foldl_append,
    foldl_varintField _ _ 1, foldl_varintField _ _ 2, foldl_varintField _ _ 3,
    foldl_varintField _ _ 4,
    foldl_varintField _ _ 5]
  · change (⟨f.id, f.name, f.systemName, f.filename, f.startLine.toUInt64.toInt64⟩ : Function) = _
    rw [Int64.toInt64_toUInt64]
  all_goals rfl

theorem decide_toUInt64_ne_zero (b : Bool) : decide (b.toUInt64 ≠ 0) = b := by
  cases b <;> decide

theorem Mapping.meaning_encode (m : Mapping) :
    Mapping.spelled (fieldsOf m.encode) = m := by
  rw [← Mapping.meaning_setField, meaning_eq m.encode_message]
  unfold Mapping.fields
  simp only [List.foldl_append]
  rw [foldl_varintField _ _ 1, foldl_varintField _ _ 2, foldl_varintField _ _ 3,
    foldl_varintField _ _ 4, foldl_varintField _ _ 5, foldl_varintField _ _ 6,
    foldl_varintField _ _ 7, foldl_varintField _ _ 8,
    foldl_varintField _ _ 9, foldl_varintField _ _ 10]
  · simp only [Mapping.setField, decide_toUInt64_ne_zero]
  all_goals simp [Mapping.setField, default]

def Location.linesField : Repeated Location Line :=
  ⟨Location.lines, fun l xs => { l with lines := xs },
    fun _ _ => rfl, fun _ _ _ => rfl, Eq.refl⟩

theorem Location.meaning_encode (loc : Location) (h : loc.encode.length < 2 ^ 64) :
    meaning Location.mergeField default loc.encode = loc.survivor := by
  rw [meaning_eq (loc.encode_message h)]
  unfold Location.fields
  simp only [List.foldl_append]
  rw [foldl_varintField _ _ 1, foldl_varintField _ _ 2, foldl_varintField _ _ 3,
    foldl_submessages _ Location.linesField 4 (Line.spelled ∘ fieldsOf) (fun _ _ => rfl),
    filter_map_survivors Line.encode _ (fun line => line) loc.lines
      (fun line _ => Line.meaning_encode line)
      Line.encode_eq_nil_iff,
    foldl_varintField _ _ 5]
  · change (⟨loc.id, loc.mappingId, loc.address,
      [] ++ (loc.lines.map fun line => line).filter (· ≠ default),
      decide (loc.isFolded.toUInt64 ≠ 0)⟩ : Location) = _
    rw [decide_toUInt64_ne_zero, List.map_id']
    rfl
  all_goals rfl

theorem map_toInt64_flatMap (values : List Int64) :
    (packedOf (values.flatMap fun v => encodeVarint v.toUInt64)).map UInt64.toInt64 = values := by
  have hp := flatMap_encodeVarint_packed (values.map Int64.toUInt64)
  rw [List.flatMap_map] at hp
  rw [hp.packedOf_eq, List.map_map]
  exact (List.map_congr_left fun v _ => Int64.toInt64_toUInt64 v).trans (List.map_id values)

def Sample.labelsField : Repeated Sample Label :=
  ⟨Sample.labels, fun s xs => { s with labels := xs },
    fun _ _ => rfl, fun _ _ _ => rfl, Eq.refl⟩

theorem foldl_payloadField {σ α : Type} (merge : σ → Field → σ) (r : Repeated σ α) (number : ℕ)
    (mean : List UInt8 → List α)
    (hmerge : ∀ s data, merge s ⟨number, .bytes data⟩ = r.append s (mean data))
    (data : List UInt8) (xs : List α) (hx : mean data = xs) (hnil : data = [] → xs = []) (s : σ) :
    (payloadField number data).foldl merge s = r.append s xs := by
  unfold payloadField
  split_ifs with h
  · rw [hnil h]
    exact (r.append_nil s).symm
  · rw [List.foldl_cons, hmerge, hx]
    rfl

theorem Sample.meaning_encode (s : Sample) (h : s.encode.length < 2 ^ 64) :
    meaning Sample.mergeField default s.encode = s.survivor := by
  have hids : s.locationIds.flatMap encodeVarint = [] → s.locationIds = [] :=
    (flatMap_encodeVarint_eq_nil_iff (fun v => v) s.locationIds).mp
  have hvals := (flatMap_encodeVarint_eq_nil_iff Int64.toUInt64 s.values).mp
  rw [meaning_eq (s.encode_message h)]
  unfold Sample.fields
  simp only [List.foldl_append]
  rw [foldl_payloadField _ Sample.locationIdsField 1 packedOf (fun _ _ => rfl) _ _
      (flatMap_encodeVarint_packed s.locationIds).packedOf_eq hids,
    foldl_payloadField _ Sample.valuesField 2 (fun data => (packedOf data).map UInt64.toInt64)
      (fun _ _ => rfl) _ _ (map_toInt64_flatMap s.values) hvals,
    foldl_submessages _ Sample.labelsField 3 (Label.spelled ∘ fieldsOf) (fun _ _ => rfl),
    filter_map_survivors Label.encode _ (fun label => label) s.labels
      (fun label _ => Label.meaning_encode label) Label.encode_eq_nil_iff, List.map_id']
  rfl

namespace PprofProfile

def valueTypesField : Repeated PprofProfile ValueType :=
  ⟨valueTypes, fun p xs => { p with valueTypes := xs },
    fun _ _ => rfl, fun _ _ _ => rfl, Eq.refl⟩

def samplesField : Repeated PprofProfile Sample :=
  ⟨samples, fun p xs => { p with samples := xs },
    fun _ _ => rfl, fun _ _ _ => rfl, Eq.refl⟩

def mappingsField : Repeated PprofProfile Mapping :=
  ⟨mappings, fun p xs => { p with mappings := xs },
    fun _ _ => rfl, fun _ _ _ => rfl, Eq.refl⟩

def locationsField : Repeated PprofProfile Location :=
  ⟨locations, fun p xs => { p with locations := xs },
    fun _ _ => rfl, fun _ _ _ => rfl, Eq.refl⟩

def functionsField : Repeated PprofProfile Function :=
  ⟨functions, fun p xs => { p with functions := xs },
    fun _ _ => rfl, fun _ _ _ => rfl, Eq.refl⟩

@[simp] theorem valueTypesField_append (p : PprofProfile) (xs : List ValueType) :
    valueTypesField.append p xs = { p with valueTypes := p.valueTypes ++ xs } := rfl

@[simp] theorem samplesField_append (p : PprofProfile) (xs : List Sample) :
    samplesField.append p xs = { p with samples := p.samples ++ xs } := rfl

@[simp] theorem mappingsField_append (p : PprofProfile) (xs : List Mapping) :
    mappingsField.append p xs = { p with mappings := p.mappings ++ xs } := rfl

@[simp] theorem locationsField_append (p : PprofProfile) (xs : List Location) :
    locationsField.append p xs = { p with locations := p.locations ++ xs } := rfl

@[simp] theorem functionsField_append (p : PprofProfile) (xs : List Function) :
    functionsField.append p xs = { p with functions := p.functions ++ xs } := rfl

@[simp] theorem commentsField_append (p : PprofProfile) (xs : List UInt64) :
    commentsField.append p xs = { p with comments := p.comments ++ xs } := rfl

end PprofProfile

theorem foldl_strings (strings : List String) (p : PprofProfile) :
    (strings.flatMap fun s => [(⟨6, .bytes (utf8 s)⟩ : Field)]).foldl PprofProfile.mergeField p =
      { p with strings := strings.foldl StringTable.push p.strings } := by
  induction strings generalizing p with
  | nil => rfl
  | cons s strings ih =>
    have htext : textOf (utf8 s) = s := by
      rw [textOf, (fromUtf8_eq_some_iff _ s).mpr rfl]
      rfl
    rw [List.flatMap_cons, List.foldl_append, ih]
    change _ = { p with strings := strings.foldl StringTable.push (p.strings.push s) }
    simp only [List.foldl_cons, List.foldl_nil, PprofProfile.mergeField, htext]

theorem foldl_push_strings (strings : List String) (st : StringTable) :
    (strings.foldl StringTable.push st).strings = st.strings ++ strings := by
  induction strings generalizing st with
  | nil => simp
  | cons s strings ih =>
    rw [List.foldl_cons, ih]
    simp [StringTable.push]

theorem foldl_comments (comments : List UInt64) (p : PprofProfile) :
    (comments.flatMap (varintField 13)).foldl PprofProfile.mergeField p =
      PprofProfile.commentsField.append p (comments.filter (· ≠ 0)) := by
  induction comments generalizing p with
  | nil => exact (PprofProfile.commentsField.append_nil p).symm
  | cons c comments ih =>
    rw [List.flatMap_cons, List.foldl_append, ih]
    by_cases hc : c = 0
    · simp [varintField, hc]
    · have hstep : (varintField 13 c).foldl PprofProfile.mergeField p =
          PprofProfile.commentsField.append p [c] := by
        rw [varintField, if_neg hc]
        rfl
      rw [hstep, Repeated.append_append]
      simp [hc]

theorem foldl_periodType (vt : ValueType) (p : PprofProfile) (hp : p.periodType = default) :
    (payloadField 11 vt.encode).foldl PprofProfile.mergeField p = { p with periodType := vt } := by
  unfold payloadField
  split_ifs with h
  · rw [vt.encode_eq_nil_iff.mp h, ← hp]
    rfl
  · change { p with periodType := ValueType.spelled (fieldsOf vt.encode) } = _
    rw [vt.meaning_encode]

theorem PprofProfile.sample_encode_length {p : PprofProfile} (h : p.encode.length < 2 ^ 64) :
    ∀ s ∈ p.samples, s.encode.length < 2 ^ 64 := by
  intro s hs
  have hf := length_le_flatMap (fun s => encodeLengthDelimited 2 (Sample.encode s)) hs
  have hl := length_le_encodeLengthDelimited 2 s.encode
  simp only [PprofProfile.encode, List.length_append] at h
  omega

theorem PprofProfile.location_encode_length {p : PprofProfile} (h : p.encode.length < 2 ^ 64) :
    ∀ loc ∈ p.locations, loc.encode.length < 2 ^ 64 := by
  intro loc hloc
  have hf := length_le_flatMap (fun loc => encodeLengthDelimited 4 (Location.encode loc)) hloc
  have hl := length_le_encodeLengthDelimited 4 loc.encode
  simp only [PprofProfile.encode, List.length_append] at h
  omega

theorem PprofProfile.merged_encode (p : PprofProfile) (h : p.encode.length < 2 ^ 64) :
    PprofProfile.merged p.encode =
      { p.survivor with strings := p.strings.strings.foldl StringTable.push .empty } := by
  rw [merged, meaning_eq (p.encode_message h)]
  unfold PprofProfile.fields
  simp only [List.foldl_append]
  rw [foldl_submessages _ valueTypesField 1 (ValueType.spelled ∘ fieldsOf) (fun _ _ => rfl),
    filter_map_survivors ValueType.encode _ (fun vt => vt) p.valueTypes
      (fun vt _ => vt.meaning_encode) ValueType.encode_eq_nil_iff,
    foldl_submessages _ samplesField 2 (meaning Sample.mergeField default) (fun _ _ => rfl),
    filter_map_survivors Sample.encode _ Sample.survivor p.samples
      (fun s hs => s.meaning_encode (sample_encode_length h s hs)) Sample.encode_eq_nil_iff,
    foldl_submessages _ mappingsField 3 (Mapping.spelled ∘ fieldsOf) (fun _ _ => rfl),
    filter_map_survivors Mapping.encode _ (fun m => m) p.mappings
      (fun m _ => m.meaning_encode) Mapping.encode_eq_nil_iff,
    foldl_submessages _ locationsField 4 (meaning Location.mergeField default) (fun _ _ => rfl),
    filter_map_survivors Location.encode _ Location.survivor p.locations
      (fun loc hloc => loc.meaning_encode (location_encode_length h loc hloc))
      Location.encode_eq_nil_iff,
    foldl_submessages _ functionsField 5 (Function.spelled ∘ fieldsOf) (fun _ _ => rfl),
    filter_map_survivors Function.encode _ (fun f => f) p.functions
      (fun f _ => f.meaning_encode) Function.encode_eq_nil_iff,
    foldl_strings, foldl_varintField _ _ 7, foldl_varintField _ _ 8, foldl_varintField _ _ 9,
    foldl_varintField _ _ 10, foldl_periodType _ _ rfl, foldl_varintField _ _ 12, foldl_comments,
    foldl_varintField _ _ 14, foldl_varintField _ _ 15]
  · simp only [valueTypesField_append, samplesField_append, mappingsField_append,
      locationsField_append, functionsField_append, commentsField_append, withStrings, mergeField,
      survivor, List.map_id', List.nil_append, Int64.toInt64_toUInt64]
  all_goals rfl

theorem forall_mem_varintField {ok : Field → Prop} (number : ℕ) (v : UInt64)
    (h : ok ⟨number, .varint v⟩) : ∀ field ∈ varintField number v, ok field := by
  unfold varintField
  split_ifs <;> simp [h]

theorem forall_mem_payloadField {ok : Field → Prop} (number : ℕ) (data : List UInt8)
    (h : ok ⟨number, .bytes data⟩) : ∀ field ∈ payloadField number data, ok field := by
  unfold payloadField
  split_ifs <;> simp [h]

theorem forall_mem_submessages {α : Type} {ok : Field → Prop} (number : ℕ) (enc : α → List UInt8)
    (xs : List α) (h : ∀ x ∈ xs, ok ⟨number, .bytes (enc x)⟩) :
    ∀ field ∈ xs.flatMap fun x => payloadField number (enc x), ok field := by
  intro field hf
  obtain ⟨x, hx, hf⟩ := List.mem_flatMap.mp hf
  exact forall_mem_payloadField number (enc x) (h x hx) field hf

theorem Sample.encode_wellFormed (s : Sample) (h : s.encode.length < 2 ^ 64) :
    WellFormedMessage Sample.WellFormedField s.encode := by
  refine ⟨s.fields, s.encode_message h, ?_⟩
  unfold Sample.fields
  simp only [List.forall_mem_append]
  refine ⟨⟨?_, ?_⟩, ?_⟩
  · exact forall_mem_payloadField 1 _ ⟨_, flatMap_encodeVarint_packed s.locationIds⟩
  · have hp := flatMap_encodeVarint_packed (s.values.map Int64.toUInt64)
    rw [List.flatMap_map] at hp
    exact forall_mem_payloadField 2 _ ⟨_, hp⟩
  · exact forall_mem_submessages 3 _ _ fun label _ => ⟨_, label.encode_message⟩

theorem Location.encode_wellFormed (loc : Location) (h : loc.encode.length < 2 ^ 64) :
    WellFormedMessage Location.WellFormedField loc.encode := by
  refine ⟨loc.fields, loc.encode_message h, ?_⟩
  unfold Location.fields
  simp only [List.forall_mem_append]
  refine ⟨⟨⟨⟨?_, ?_⟩, ?_⟩, ?_⟩, ?_⟩
  case refine_4 => exact forall_mem_submessages 4 _ _ fun line _ => ⟨_, line.encode_message⟩
  all_goals exact forall_mem_varintField _ _ trivial

theorem PprofProfile.encode_wellFormed (p : PprofProfile) (h : p.encode.length < 2 ^ 64) :
    WellFormedMessage PprofProfile.WellFormedField p.encode := by
  refine ⟨p.fields, p.encode_message h, ?_⟩
  unfold PprofProfile.fields
  simp only [List.forall_mem_append, and_assoc]
  refine ⟨?_, ?_, ?_, ?_, ?_, ?_, ?_, ?_, ?_, ?_, ?_, ?_, ?_, ?_, ?_⟩
  · exact forall_mem_submessages 1 _ _ fun vt _ => ⟨_, vt.encode_message⟩
  · exact forall_mem_submessages 2 _ _ fun s hs =>
      s.encode_wellFormed (sample_encode_length h s hs)
  · exact forall_mem_submessages 3 _ _ fun m _ => ⟨_, m.encode_message⟩
  · exact forall_mem_submessages 4 _ _ fun loc hloc =>
      loc.encode_wellFormed (location_encode_length h loc hloc)
  · exact forall_mem_submessages 5 _ _ fun f _ => ⟨_, f.encode_message⟩
  · intro field hf
    obtain ⟨s, _, hf⟩ := List.mem_flatMap.mp hf
    rw [List.mem_singleton.mp hf]
    exact ⟨s, rfl⟩
  case refine_11 => exact forall_mem_payloadField 11 _ ⟨_, p.periodType.encode_message⟩
  case refine_13 =>
    intro field hf
    obtain ⟨c, _, hf⟩ := List.mem_flatMap.mp hf
    exact forall_mem_varintField 13 c trivial field hf
  all_goals exact forall_mem_varintField _ _ trivial

theorem decode_encode_of_head (p : PprofProfile) (hhead : p.strings.strings.head? = some "")
    (hl : p.encode.length < 2 ^ 64) : PprofProfile.decode p.encode =
      .ok { p.survivor with strings := .ofStrings p.strings.strings } := by
  have hmerged := p.merged_encode hl
  have hstrings : (PprofProfile.merged p.encode).strings.strings = p.strings.strings := by
    rw [hmerged]
    exact foldl_push_strings p.strings.strings .empty
  refine (PprofProfile.decode_eq_ok_iff _ _).mpr ⟨⟨p.encode_wellFormed hl, ?_⟩, ?_⟩
  · rw [hstrings]
    exact hhead
  · unfold PprofProfile.ofBytes
    rw [hstrings, hmerged]

theorem decode_encode (p : PprofProfile) (hs : p.strings.Built) (hl : p.encode.length < 2 ^ 64) :
    PprofProfile.decode p.encode = .ok p.survivor := by
  rw [decode_encode_of_head p hs.canonical.1 hl, ← hs.eq_ofStrings]
  rfl

theorem new_strings : StringTable.new.strings = [""] := by
  simp [StringTable.new, StringTable.intern, StringTable.empty]

theorem new_encode (vts : List ValueType) (comments : List UInt64) :
    ({ PprofProfile.new with valueTypes := vts, comments := comments } : PprofProfile).encode =
      vts.flatMap (fun vt => encodeLengthDelimited 1 vt.encode) ++ [50, 0] ++
        comments.flatMap (encodeVarintField 13) := by
  have h0 : encodeVarint 0 = [0] := encodeVarint_of_lt (by decide)
  have hd : encodeLengthDelimited 11 (ValueType.encode default) = [] := by decide
  have hz : Int64.toUInt64 0 = 0 := rfl
  simp [PprofProfile.encode, PprofProfile.new, PprofProfile.withStrings, encodeStringField,
    encodeVarintField, encodeSint64Field, utf8, new_strings, h0, hd, hz]

/-- The codec is reversible exactly on the profiles without a default element. -/
theorem decode_encode_eq_iff (p : PprofProfile) (hs : p.strings.Built)
    (hl : p.encode.length < 2 ^ 64) :
    PprofProfile.decode p.encode = .ok p ↔ p.NoDefaultElement := by
  rw [decode_encode p hs hl, Except.ok.injEq]
  exact p.survivor_eq_self_iff

/-- A labelled sample of `main`, with one entry in every table. -/
def oneOfEach : PprofProfile :=
  { PprofProfile.withStrings (.ofStrings
      ["", "samples", "count", "main", "main.c", "app", "thread"]) with
    valueTypes := [⟨1, 2⟩]
    samples := [⟨[1], [-3], [⟨6, 0, 7, 0⟩]⟩]
    mappings := [⟨1, 0x1000, 0x2000, 0, 5, 0, true, true, true, true⟩]
    locations := [⟨1, 1, 0x1010, [⟨1, 12, 4⟩], false⟩]
    functions := [⟨1, 3, 3, 4, 10⟩]
    timeNanos := 1700000000000000000
    durationNanos := 5000000
    periodType := ⟨1, 2⟩
    period := 1000000
    comments := [4]
    defaultSampleType := 1 }

theorem decode_encode_eq_iff_oneOfEach :
    PprofProfile.decode oneOfEach.encode = .ok oneOfEach ∧ oneOfEach.NoDefaultElement := by
  have hkept : oneOfEach.NoDefaultElement := {
    valueTypes := List.forall_mem_singleton.mpr (by decide)
    samples := List.forall_mem_singleton.mpr
      ⟨by decide, List.forall_mem_singleton.mpr (by decide)⟩
    mappings := List.forall_mem_singleton.mpr (by decide)
    locations := List.forall_mem_singleton.mpr
      ⟨by decide, List.forall_mem_singleton.mpr (by decide)⟩
    functions := List.forall_mem_singleton.mpr (by decide)
    comments := List.forall_mem_singleton.mpr (by decide) }
  refine ⟨(decode_encode_eq_iff oneOfEach ?_ ?_).mpr hkept, hkept⟩
  · exact .fromStrings ((StringTable.fromStrings_eq_ok_iff _ _).mpr ⟨rfl, rfl⟩)
  · exact lt_of_le_of_lt oneOfEach.encode_length_le (by decide)

def unnamedValueType : PprofProfile := { PprofProfile.new with valueTypes := [⟨0, 0⟩] }

theorem unnamedValueType_lost :
    unnamedValueType.strings.Built ∧ unnamedValueType.encode.length < 2 ^ 64 ∧
      PprofProfile.decode unnamedValueType.encode = .ok .new ∧
        PprofProfile.decode unnamedValueType.encode ≠ .ok unnamedValueType := by
  have hb : unnamedValueType.strings.Built := .new
  have hl : unnamedValueType.encode.length < 2 ^ 64 := by
    have hv : encodeLengthDelimited 1 (ValueType.encode ⟨0, 0⟩) = [] := by decide
    refine lt_of_eq_of_lt (congrArg List.length (new_encode [⟨0, 0⟩] [])) ?_
    simp [hv]
  have hd : PprofProfile.decode unnamedValueType.encode = .ok .new := by
    rw [decode_encode _ hb hl]
    rfl
  refine ⟨hb, hl, hd, ?_⟩
  rw [hd]
  intro h
  have hvt := congrArg PprofProfile.valueTypes (Except.ok.inj h)
  cases hvt

end PProfessor.Pprof
