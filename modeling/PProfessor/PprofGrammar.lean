import PProfessor.PprofDecoder

set_option autoImplicit false

/-!
# What the decoder accepts

The meaning of a pprof message is stated on its grammar, not on a cursor: which
fields it may hold, and the fold of those fields from left to right. The decoder
accepts exactly the well-formed byte lists and returns their meaning.
-/
namespace PProfessor.Pprof
open Fallible WireFormat

/-- Fields of a known number whose payload is itself structured must be well
formed; every other field, known or not, only has to be complete. -/
def Location.WellFormedField (field : Field) : Prop :=
  match field.number, field.value with
  | 4, .bytes data => ∃ fs, Message data fs
  | _, _ => True

def Sample.WellFormedField (field : Field) : Prop :=
  match field.number, field.value with
  | 1, .bytes data => ∃ vs, Packed data vs
  | 2, .bytes data => ∃ vs, Packed data vs
  | 3, .bytes data => ∃ fs, Message data fs
  | _, _ => True

def WellFormedMessage (ok : Field → Prop) (data : List UInt8) : Prop :=
  ∃ fs, Message data fs ∧ ∀ field ∈ fs, ok field

def PprofProfile.WellFormedField (field : Field) : Prop :=
  match field.number, field.value with
  | 1, .bytes data => ∃ fs, Message data fs
  | 2, .bytes data => WellFormedMessage Sample.WellFormedField data
  | 3, .bytes data => ∃ fs, Message data fs
  | 4, .bytes data => WellFormedMessage Location.WellFormedField data
  | 5, .bytes data => ∃ fs, Message data fs
  | 6, .bytes data => ∃ s, data = utf8 s
  | 11, .bytes data => ∃ fs, Message data fs
  | 13, .bytes data => ∃ vs, Packed data vs
  | _, _ => True

/-- The meaning of a message: its fields merged into the default from left to right. -/
noncomputable def meaning {σ : Type} (merge : σ → Field → σ) (init : σ) (data : List UInt8) : σ :=
  (fieldsOf data).foldl merge init

def varintOf (number : ℕ) : Field → Option UInt64
  | ⟨k, .varint value⟩ => if k = number then some value else none
  | _ => none

/-- The last varint of a number, or zero. -/
def lastVarint (number : ℕ) (fields : List Field) : UInt64 :=
  ((fields.filterMap (varintOf number)).getLast?).getD 0

def ValueType.spelled (fields : List Field) : ValueType where
  type := lastVarint 1 fields
  unit := lastVarint 2 fields

def Line.spelled (fields : List Field) : Line where
  functionId := lastVarint 1 fields
  line := (lastVarint 2 fields).toInt64
  column := (lastVarint 3 fields).toInt64

def Mapping.spelled (fields : List Field) : Mapping where
  id := lastVarint 1 fields
  memoryStart := lastVarint 2 fields
  memoryLimit := lastVarint 3 fields
  fileOffset := lastVarint 4 fields
  filename := lastVarint 5 fields
  buildId := lastVarint 6 fields
  hasFunctions := lastVarint 7 fields ≠ 0
  hasFilenames := lastVarint 8 fields ≠ 0
  hasLineNumbers := lastVarint 9 fields ≠ 0
  hasInlineFrames := lastVarint 10 fields ≠ 0

def Function.spelled (fields : List Field) : Function where
  id := lastVarint 1 fields
  name := lastVarint 2 fields
  systemName := lastVarint 3 fields
  filename := lastVarint 4 fields
  startLine := (lastVarint 5 fields).toInt64

def Label.spelled (fields : List Field) : Label where
  key := lastVarint 1 fields
  strIndex := lastVarint 2 fields
  num := (lastVarint 3 fields).toInt64
  numUnit := lastVarint 4 fields

noncomputable def Location.mergeField (location : Location) (field : Field) : Location :=
  match field.number, field.value with
  | 1, .varint value => { location with id := value }
  | 2, .varint value => { location with mappingId := value }
  | 3, .varint value => { location with address := value }
  | 4, .bytes data =>
    { location with lines := location.lines ++ [Line.spelled (fieldsOf data)] }
  | 5, .varint value => { location with isFolded := value ≠ 0 }
  | _, _ => location

noncomputable def Sample.mergeField (sample : Sample) (field : Field) : Sample :=
  match field.number, field.value with
  | 1, .bytes data => { sample with locationIds := sample.locationIds ++ packedOf data }
  | 1, .varint value => { sample with locationIds := sample.locationIds ++ [value] }
  | 2, .bytes data =>
    { sample with values := sample.values ++ (packedOf data).map UInt64.toInt64 }
  | 2, .varint value => { sample with values := sample.values ++ [value.toInt64] }
  | 3, .bytes data =>
    { sample with labels := sample.labels ++ [Label.spelled (fieldsOf data)] }
  | _, _ => sample

noncomputable def textOf (data : List UInt8) : String := (fromUtf8 data).getD ""

noncomputable def PprofProfile.mergeField (profile : PprofProfile) (field : Field) :
    PprofProfile :=
  match field.number, field.value with
  | 1, .bytes data =>
    { profile with valueTypes := profile.valueTypes ++ [ValueType.spelled (fieldsOf data)] }
  | 2, .bytes data =>
    { profile with samples := profile.samples ++ [meaning Sample.mergeField default data] }
  | 3, .bytes data =>
    { profile with mappings := profile.mappings ++ [Mapping.spelled (fieldsOf data)] }
  | 4, .bytes data =>
    { profile with locations := profile.locations ++ [meaning Location.mergeField default data] }
  | 5, .bytes data =>
    { profile with functions := profile.functions ++ [Function.spelled (fieldsOf data)] }
  | 6, .bytes data => { profile with strings := profile.strings.push (textOf data) }
  | 7, .varint value => { profile with dropFrames := value }
  | 8, .varint value => { profile with keepFrames := value }
  | 9, .varint value => { profile with timeNanos := value.toInt64 }
  | 10, .varint value => { profile with durationNanos := value.toInt64 }
  | 11, .bytes data => { profile with periodType := ValueType.spelled (fieldsOf data) }
  | 12, .varint value => { profile with period := value.toInt64 }
  | 13, .bytes data => { profile with comments := profile.comments ++ packedOf data }
  | 13, .varint value => { profile with comments := profile.comments ++ [value] }
  | 14, .varint value => { profile with defaultSampleType := value }
  | 15, .varint value => { profile with docUrl := value }
  | _, _ => profile

noncomputable def PprofProfile.merged (data : List UInt8) : PprofProfile :=
  meaning PprofProfile.mergeField (.withStrings .empty) data

def PprofProfile.WellFormed (data : List UInt8) : Prop :=
  WellFormedMessage PprofProfile.WellFormedField data ∧
    (PprofProfile.merged data).strings.strings.head? = some ""

/-- The profile a byte list means: the merged fields, with the lookup cache of
the string table rebuilt. -/
noncomputable def PprofProfile.ofBytes (data : List UInt8) : PprofProfile :=
  { PprofProfile.merged data with
    strings := .ofStrings (PprofProfile.merged data).strings.strings }

theorem lastVarint_varint (number k : ℕ) (fields : List Field) (value : UInt64) :
    lastVarint number (fields ++ [⟨k, .varint value⟩]) =
      if k = number then value else lastVarint number fields := by
  unfold lastVarint
  rw [List.filterMap_append]
  split_ifs with h
  · simp [varintOf, h]
  · simp [varintOf, h]

theorem lastVarint_other (number : ℕ) (fields : List Field) {field : Field}
    (h : ∀ value, field.value ≠ .varint value) :
    lastVarint number (fields ++ [field]) = lastVarint number fields := by
  obtain ⟨k, value⟩ := field
  unfold lastVarint
  rw [List.filterMap_append]
  cases value with
  | varint value => exact absurd rfl (h value)
  | _ => simp [varintOf]

/-- A message without repeated fields is built from the last varint of each number. -/
theorem meaning_eq_build {σ : Type} [Inhabited σ] {setField : σ → Field → σ}
    (build : (ℕ → UInt64) → σ) (hnil : default = build fun _ => 0)
    (hvarint : ∀ last k value, setField (build last) ⟨k, .varint value⟩ =
      build fun number => if k = number then value else last number)
    (hother : ∀ s field, (∀ value, field.value ≠ .varint value) → setField s field = s)
    (data : List UInt8) :
    meaning setField default data = build fun number => lastVarint number (fieldsOf data) := by
  unfold meaning
  induction fieldsOf data using List.reverseRecOn with
  | nil => exact hnil
  | append_singleton fields field ih =>
    rw [List.foldl_append, ih, List.foldl_cons, List.foldl_nil]
    obtain ⟨k, value⟩ := field
    cases value with
    | varint value =>
      rw [hvarint]
      simp only [lastVarint_varint]
    | _ =>
      rw [hother _ _ fun value h => by cases h]
      congr 1
      funext number
      exact (lastVarint_other number fields fun value h => by cases h).symm

theorem ValueType.meaning_setField (data : List UInt8) :
    meaning ValueType.setField default data = ValueType.spelled (fieldsOf data) := by
  refine meaning_eq_build (fun last => ValueType.mk (last 1) (last 2)) rfl (fun last k value => ?_)
    (fun s field h => ?_) data
  · unfold setField
    dsimp only
    split <;> simp_all
  · unfold setField
    split <;> simp_all

theorem Line.meaning_setField (data : List UInt8) :
    meaning Line.setField default data = Line.spelled (fieldsOf data) := by
  refine meaning_eq_build (fun last => Line.mk (last 1) (last 2).toInt64 (last 3).toInt64) rfl
    (fun last k value => ?_) (fun s field h => ?_) data
  · unfold setField
    dsimp only
    split <;> simp_all
  · unfold setField
    split <;> simp_all

theorem Mapping.meaning_setField (data : List UInt8) :
    meaning Mapping.setField default data = Mapping.spelled (fieldsOf data) := by
  refine meaning_eq_build (fun last => Mapping.mk (last 1) (last 2) (last 3) (last 4) (last 5)
      (last 6) (last 7 ≠ 0) (last 8 ≠ 0) (last 9 ≠ 0) (last 10 ≠ 0)) rfl
    (fun last k value => ?_) (fun s field h => ?_) data
  · unfold setField
    dsimp only
    split <;> simp_all
  · unfold setField
    split <;> simp_all

theorem Function.meaning_setField (data : List UInt8) :
    meaning Function.setField default data = Function.spelled (fieldsOf data) := by
  refine meaning_eq_build (fun last => Function.mk (last 1) (last 2) (last 3) (last 4)
      (last 5).toInt64) rfl
    (fun last k value => ?_) (fun s field h => ?_) data
  · unfold setField
    dsimp only
    split <;> simp_all
  · unfold setField
    split <;> simp_all

theorem Label.meaning_setField (data : List UInt8) :
    meaning Label.setField default data = Label.spelled (fieldsOf data) := by
  refine meaning_eq_build (fun last => Label.mk (last 1) (last 2) (last 3).toInt64 (last 4)) rfl
    (fun last k value => ?_) (fun s field h => ?_) data
  · unfold setField
    dsimp only
    split <;> simp_all
  · unfold setField
    split <;> simp_all

theorem foldlM_eq_ok_iff {σ : Type} {step : σ → Field → Except PprofError σ} {ok : Field → Prop}
    {merge : σ → Field → σ}
    (hstep : ∀ s field s', step s field = .ok s' ↔ ok field ∧ merge s field = s')
    (fs : List Field) (init result : σ) :
    fs.foldlM step init = .ok result ↔
      (∀ field ∈ fs, ok field) ∧ fs.foldl merge init = result := by
  induction fs generalizing init with
  | nil =>
    change Except.ok init = .ok result ↔ _
    simp
  | cons field fs ih =>
    rw [List.foldlM_cons, bind_eq_ok, List.foldl_cons]
    constructor
    · rintro ⟨s, hs, hfs⟩
      obtain ⟨hok, rfl⟩ := (hstep _ _ _).mp hs
      obtain ⟨hall, hres⟩ := (ih _).mp hfs
      exact ⟨by simpa using ⟨hok, hall⟩, hres⟩
    · rintro ⟨hall, hres⟩
      have hall' : ok field ∧ ∀ f ∈ fs, ok f := by simpa using hall
      exact ⟨merge init field, (hstep _ _ _).mpr ⟨hall'.1, rfl⟩, (ih _).mpr ⟨hall'.2, hres⟩⟩

theorem fold_eq_ok_iff_meaning {σ : Type} {step : σ → Field → Except PprofError σ}
    {ok : Field → Prop} {merge : σ → Field → σ}
    (hstep : ∀ s field s', step s field = .ok s' ↔ ok field ∧ merge s field = s')
    (data : List UInt8) (init result : σ) :
    (Fields.new data).fold step init = .ok result ↔
      WellFormedMessage ok data ∧ meaning merge init data = result := by
  rw [Fields.fold_new_eq_ok_iff]
  unfold WellFormedMessage meaning
  constructor
  · rintro ⟨fs, hm, hf⟩
    obtain ⟨hall, hres⟩ := (foldlM_eq_ok_iff hstep fs init result).mp hf
    exact ⟨⟨fs, hm, hall⟩, by rw [hm.fieldsOf_eq, hres]⟩
  · rintro ⟨⟨fs, hm, hall⟩, hres⟩
    rw [hm.fieldsOf_eq] at hres
    exact ⟨fs, hm, (foldlM_eq_ok_iff hstep fs init result).mpr ⟨hall, hres⟩⟩

theorem flat_eq_ok_iff {σ : Type} (merge : σ → Field → σ) (data : List UInt8) (init result : σ) :
    (Fields.new data).fold (fun s field => .ok (merge s field)) init = .ok result ↔
      (∃ fs, Message data fs) ∧ meaning merge init data = result := by
  have hstep : ∀ (s : σ) (field : Field) (s' : σ),
      (Except.ok (merge s field) : Except PprofError σ) = .ok s' ↔ True ∧ merge s field = s' := by
    simp
  rw [fold_eq_ok_iff_meaning hstep]
  simp [WellFormedMessage]

theorem ValueType.decode_eq_ok_iff (data : List UInt8) (value : ValueType) :
    ValueType.decode data = .ok value ↔
      (∃ fs, Message data fs) ∧ ValueType.spelled (fieldsOf data) = value := by
  rw [← ValueType.meaning_setField]
  exact flat_eq_ok_iff _ _ _ _

theorem Line.decode_eq_ok_iff (data : List UInt8) (line : Line) :
    Line.decode data = .ok line ↔
      (∃ fs, Message data fs) ∧ Line.spelled (fieldsOf data) = line := by
  rw [← Line.meaning_setField]
  exact flat_eq_ok_iff _ _ _ _

theorem Mapping.decode_eq_ok_iff (data : List UInt8) (mapping : Mapping) :
    Mapping.decode data = .ok mapping ↔
      (∃ fs, Message data fs) ∧ Mapping.spelled (fieldsOf data) = mapping := by
  rw [← Mapping.meaning_setField]
  exact flat_eq_ok_iff _ _ _ _

theorem Function.decode_eq_ok_iff (data : List UInt8) (function : Function) :
    Function.decode data = .ok function ↔
      (∃ fs, Message data fs) ∧ Function.spelled (fieldsOf data) = function := by
  rw [← Function.meaning_setField]
  exact flat_eq_ok_iff _ _ _ _

theorem Label.decode_eq_ok_iff (data : List UInt8) (label : Label) :
    Label.decode data = .ok label ↔
      (∃ fs, Message data fs) ∧ Label.spelled (fieldsOf data) = label := by
  rw [← Label.meaning_setField]
  exact flat_eq_ok_iff _ _ _ _

theorem Location.readField_eq_ok_iff (location : Location) (field : Field) (result : Location) :
    location.readField field = .ok result ↔
      Location.WellFormedField field ∧ location.mergeField field = result := by
  obtain ⟨number, value⟩ := field
  unfold Location.readField Location.WellFormedField Location.mergeField
  dsimp only
  split
  case h_6 =>
    split
    all_goals simp_all
  all_goals simp [bind_eq_ok, Line.decode_eq_ok_iff]

theorem Location.decode_eq_ok_iff (data : List UInt8) (location : Location) :
    Location.decode data = .ok location ↔
      WellFormedMessage Location.WellFormedField data ∧
        meaning Location.mergeField default data = location :=
  fold_eq_ok_iff_meaning Location.readField_eq_ok_iff _ _ _

theorem decodePacked_append {σ α : Type} (r : Repeated σ α) (conv : UInt64 → α)
    (data : List UInt8) (state result : σ) :
    decodePacked data (fun s v => r.append s [conv v]) state = .ok result ↔
      (∃ vs, Packed data vs) ∧ r.append state ((packedOf data).map conv) = result := by
  have hfold : ∀ vs : List UInt64,
      vs.foldl (fun s v => r.append s [conv v]) state = r.append state (vs.map conv) := by
    intro vs
    rw [r.foldl_append, ← List.map_eq_flatMap]
  rw [decodePacked_eq_ok_iff]
  constructor
  · rintro ⟨vs, hvs, rfl⟩
    exact ⟨⟨vs, hvs⟩, by rw [hvs.packedOf_eq, hfold]⟩
  · rintro ⟨⟨vs, hvs⟩, rfl⟩
    exact ⟨vs, hvs, by rw [hvs.packedOf_eq, hfold]⟩

def Sample.locationIdsField : Repeated Sample UInt64 :=
  ⟨Sample.locationIds, fun s xs => { s with locationIds := xs },
    fun _ _ => rfl, fun _ _ _ => rfl, Eq.refl⟩

def Sample.valuesField : Repeated Sample Int64 :=
  ⟨Sample.values, fun s xs => { s with values := xs },
    fun _ _ => rfl, fun _ _ _ => rfl, Eq.refl⟩

def PprofProfile.commentsField : Repeated PprofProfile UInt64 :=
  ⟨PprofProfile.comments, fun p xs => { p with comments := xs },
    fun _ _ => rfl, fun _ _ _ => rfl, Eq.refl⟩

theorem Sample.readField_eq_ok_iff (sample : Sample) (field : Field) (result : Sample) :
    sample.readField field = .ok result ↔
      Sample.WellFormedField field ∧ sample.mergeField field = result := by
  obtain ⟨number, value⟩ := field
  unfold Sample.readField Sample.WellFormedField Sample.mergeField
  dsimp only
  split
  · rename_i data
    have h := decodePacked_append Sample.locationIdsField id data sample result
    rw [List.map_id] at h
    exact h
  · simp
  · rename_i data
    exact decodePacked_append Sample.valuesField UInt64.toInt64 data sample result
  · simp
  · simp [bind_eq_ok, Label.decode_eq_ok_iff]
  · split
    all_goals simp_all

theorem Sample.decode_eq_ok_iff (data : List UInt8) (sample : Sample) :
    Sample.decode data = .ok sample ↔
      WellFormedMessage Sample.WellFormedField data ∧
        meaning Sample.mergeField default data = sample :=
  fold_eq_ok_iff_meaning Sample.readField_eq_ok_iff _ _ _

theorem fromUtf8_isSome_iff (data : List UInt8) :
    (∃ s, fromUtf8 data = some s) ↔ ∃ s, data = utf8 s := by
  constructor
  · rintro ⟨s, hs⟩
    exact ⟨s, (fromUtf8_eq_some_iff data s).mp hs⟩
  · rintro ⟨s, hs⟩
    exact ⟨s, (fromUtf8_eq_some_iff data s).mpr hs⟩

theorem fieldNumber_cases {P : ℕ → Prop} (hlow : ∀ n < 16, P n) (hhigh : ∀ n, P (n + 16)) (n : ℕ) :
    P n := by
  rcases Nat.lt_or_ge n 16 with hn | hn
  · exact hlow n hn
  · rw [← Nat.sub_add_cancel hn]
    exact hhigh (n - 16)

theorem PprofProfile.readField_plain (profile : PprofProfile) {field : Field}
    (h : ∀ data, field.value = .bytes data → field.number ∉ [1, 2, 3, 4, 5, 6, 11, 13]) :
    profile.readField field = .ok (profile.mergeField field) ∧
      PprofProfile.WellFormedField field := by
  obtain ⟨number, value⟩ := field
  induction number using fieldNumber_cases with
  | hlow n hn =>
    cases value with
    | bytes data =>
      have hn' : n ∉ [1, 2, 3, 4, 5, 6, 11, 13] := h data rfl
      interval_cases n <;> first | exact ⟨rfl, trivial⟩ | exact absurd (by decide) hn'
    | _ => interval_cases n <;> exact ⟨rfl, trivial⟩
  | hhigh n => cases value <;> exact ⟨rfl, trivial⟩

theorem PprofProfile.readField_eq_ok_iff (profile : PprofProfile) (field : Field)
    (result : PprofProfile) :
    profile.readField field = .ok result ↔
      PprofProfile.WellFormedField field ∧ profile.mergeField field = result := by
  by_cases hpayload : ∃ data, field.value = .bytes data ∧
      field.number ∈ [1, 2, 3, 4, 5, 6, 11, 13]
  case neg =>
    obtain ⟨hread, hwf⟩ := profile.readField_plain fun data hvalue hnumber =>
      hpayload ⟨data, hvalue, hnumber⟩
    rw [hread, Except.ok.injEq]
    exact (and_iff_right hwf).symm
  obtain ⟨data, hvalue, hnumber⟩ := hpayload
  obtain ⟨number, value⟩ := field
  dsimp only at hvalue hnumber
  subst hvalue
  simp only [List.mem_cons, List.not_mem_nil, or_false] at hnumber
  rcases hnumber with rfl | rfl | rfl | rfl | rfl | rfl | rfl | rfl
  case inr.inr.inr.inr.inr.inl =>
    change _ ↔ (∃ s, data = utf8 s) ∧
      { profile with strings := profile.strings.push (textOf data) } = result
    rw [← fromUtf8_isSome_iff]
    unfold PprofProfile.readField textOf
    cases hs : fromUtf8 data with
    | none => simp [hs]
    | some s => simp [hs]
  case inr.inr.inr.inr.inr.inr.inr =>
    have h := decodePacked_append PprofProfile.commentsField id data profile result
    rw [List.map_id] at h
    exact h
  all_goals
    unfold PprofProfile.readField PprofProfile.WellFormedField PprofProfile.mergeField
    simp [bind_eq_ok, ValueType.decode_eq_ok_iff, Sample.decode_eq_ok_iff,
      Mapping.decode_eq_ok_iff, Location.decode_eq_ok_iff, Function.decode_eq_ok_iff]

theorem PprofProfile.decode_eq_ok_iff (data : List UInt8) (profile : PprofProfile) :
    PprofProfile.decode data = .ok profile ↔
      PprofProfile.WellFormed data ∧ profile = PprofProfile.ofBytes data := by
  unfold PprofProfile.decode PprofProfile.WellFormed PprofProfile.ofBytes
  rw [bind_eq_ok]
  constructor
  · rintro ⟨merged, hfold, h⟩
    obtain ⟨hwf, rfl⟩ := (fold_eq_ok_iff_meaning readField_eq_ok_iff _ _ _).mp hfold
    obtain ⟨strings, hs, h⟩ := bind_eq_ok.mp h
    obtain ⟨hhead, rfl⟩ := (StringTable.fromStrings_eq_ok_iff _ _).mp hs
    exact ⟨⟨hwf, hhead⟩, (Except.ok.inj h).symm⟩
  · rintro ⟨⟨hwf, hhead⟩, rfl⟩
    refine ⟨PprofProfile.merged data,
      (fold_eq_ok_iff_meaning readField_eq_ok_iff _ _ _).mpr ⟨hwf, rfl⟩, ?_⟩
    exact bind_eq_ok.mpr ⟨_, (StringTable.fromStrings_eq_ok_iff _ _).mpr ⟨hhead, rfl⟩, rfl⟩

/-- The decoder accepts exactly the well-formed byte lists, returns their meaning
and an error for every other input. Each field it reads ends inside the data and
after the field before it. -/
theorem decode_accepts_exactly_the_grammar (data : List UInt8) :
    (∀ profile, PprofProfile.decode data = .ok profile ↔
      PprofProfile.WellFormed data ∧ profile = PprofProfile.ofBytes data) ∧
    ((∃ e, PprofProfile.decode data = .error e) ↔ ¬PprofProfile.WellFormed data) ∧
    ∀ (offset : ℕ) (rest : Fields) (field : Field),
      Fields.next ⟨data, offset⟩ = .ok (some (field, rest)) →
        rest.data = data ∧ offset < rest.offset ∧ rest.offset ≤ data.length := by
  refine ⟨PprofProfile.decode_eq_ok_iff data, ?_, fun _ _ _ h => Fields.next_progress h⟩
  cases hd : PprofProfile.decode data with
  | error e =>
    simp only [Except.error.injEq, exists_eq', true_iff]
    intro hwf
    have := (PprofProfile.decode_eq_ok_iff data _).mpr ⟨hwf, rfl⟩
    rw [hd] at this
    cases this
  | ok profile =>
    have hwf := ((PprofProfile.decode_eq_ok_iff data profile).mp hd).1
    simp [hwf]

end PProfessor.Pprof
