import Mathlib.Data.List.TakeWhile
import PProfessor.KitTraps
import PProfessor.PprofEncoder
import PProfessor.PprofGrammar

set_option autoImplicit false

/-!
# The two pprof readers

On bytes that the Rust decoder accepts, the app's decoder reads the same fields
up to the first fixed-width field of each message, where it stops.
-/
namespace PProfessor.Kit
open Fallible Pprof WireFormat

/-! ## Reading the grammar -/

/-- After `k` digits the loop adds the digits that are left, as the grammar does. -/
theorem varintLoop_of_varint {bs : List UInt8} {d : ℕ} (h : Varint bs d) (rest : List UInt8)
    (k consumed : ℕ) (result : UInt64) (hk : k + bs.length ≤ 10) (hr : result.toNat < 128 ^ k)
    (hfit : result.toNat + 128 ^ k * d < 2 ^ 64) :
    varintLoop (bs ++ rest) result (7 * k) consumed =
      (UInt64.ofNat (result.toNat + 128 ^ k * d), consumed + bs.length) := by
  induction h generalizing k consumed result with
  | @last b hb =>
    have hmod : b.toNat % 128 = b.toNat := Nat.mod_eq_of_lt hb
    have hshift : 7 * k < 64 := by
      simp only [List.length_cons, List.length_nil] at hk
      omega
    have hval := @or_shiftLeft_toNat k result b
      (by simp only [List.length_cons, List.length_nil] at hk; omega) hr
      (by rw [hmod, Nat.mul_comm]; omega)
    rw [List.cons_append, varintLoop, if_pos ((and_128_eq_zero_iff b).mpr hb), smartShiftLeft,
      if_pos hshift, ← UInt64.ofNat_toNat (x := result ||| _), hval, hmod, Nat.mul_comm]
    rfl
  | @more b bs d hb hs ih =>
    have hbyte := b.toNat_lt
    have hmod : b.toNat % 128 = b.toNat - 128 := by omega
    simp only [List.length_cons] at hk
    have hpos := hs.length_pos
    have hexp : 128 ^ k * (b.toNat - 128 + 128 * d) =
        (b.toNat - 128) * 128 ^ k + 128 ^ (k + 1) * d := by
      rw [pow_succ]
      ring
    have hval := @or_shiftLeft_toNat k result b (by omega) hr
      (by rw [hmod]; omega)
    have hnz : ¬b &&& 0x80 = 0 := fun h => by
      have := (and_128_eq_zero_iff b).mp h
      omega
    have hnext : (result ||| (b &&& 0x7F).toUInt64 <<< UInt64.ofNat (7 * k)).toNat <
        128 ^ (k + 1) := by
      have hm : b.toNat % 128 ≤ 127 := by omega
      have := Nat.mul_le_mul_right (128 ^ k) hm
      rw [hval, pow_succ]
      omega
    have hsum : (result ||| (b &&& 0x7F).toUInt64 <<< UInt64.ofNat (7 * k)).toNat +
        128 ^ (k + 1) * d = result.toNat + 128 ^ k * (b.toNat - 128 + 128 * d) := by
      rw [hval, hmod, hexp, Nat.add_assoc]
    have hrec := ih (k + 1) (consumed + 1) _ (by omega) hnext (by rw [hsum]; exact hfit)
    rw [List.cons_append, varintLoop, if_neg hnz, smartShiftLeft, if_pos (by omega),
      show 7 * k + 7 = 7 * (k + 1) by ring, hrec, hsum, List.length_cons, Nat.add_assoc,
      Nat.add_comm 1]

theorem decodeVarint_of_drop {data bs rest : List UInt8} {offset : ℕ} {v : UInt64}
    (hd : data.drop offset = bs ++ rest) (hv : Varint64 bs v) :
    decodeVarint data offset = (v, bs.length) := by
  have hfit := v.toNat_lt
  have h := varintLoop_of_varint hv.digits rest 0 0 0 (by simpa using hv.length_le) (by decide)
    (by simpa using hfit)
  unfold decodeVarint
  rw [hd]
  simpa using h

theorem varintExtent_of_varint {bs : List UInt8} {d : ℕ} (h : Varint bs d) (rest : List UInt8) :
    varintExtent (bs ++ rest) = bs.length := by
  induction h with
  | @last b hb =>
    rw [List.cons_append, varintExtent, if_pos ((and_128_eq_zero_iff b).mpr hb)]
    rfl
  | @more b bs d hb hs ih =>
    have hnz : ¬b &&& 0x80 = 0 := fun h => by
      have := (and_128_eq_zero_iff b).mp h
      omega
    rw [List.cons_append, varintExtent, if_neg hnz, ih]
    rfl

theorem decodePackedFrom_of_packed {data : List UInt8} {vs : List UInt64} {i : ℕ}
    (h : Packed (data.drop i) vs) : decodePackedFrom data i = vs := by
  generalize hd : data.drop i = bytes at h
  induction h generalizing i with
  | nil =>
    have hi := List.drop_eq_nil_iff.mp hd
    rw [decodePackedFrom, dif_neg (by omega)]
  | @cons bs rest v vs hv hr ih =>
    have hne : bs ≠ [] := hv.digits.ne_nil
    have hi : i < data.length := by
      by_contra hc
      rw [List.drop_eq_nil_iff.mpr (by omega)] at hd
      exact hne (List.append_eq_nil_iff.mp hd.symm).1
    rw [decodePackedFrom, dif_pos hi, decodeVarint_of_drop hd hv]
    rw [ih (by rw [← List.drop_drop, hd, List.drop_left])]

theorem decodePackedUInt64s_of_packed {data : List UInt8} {vs : List UInt64} (h : Packed data vs) :
    decodePackedUInt64s data = vs :=
  decodePackedFrom_of_packed (by simpa using h)

def fixedWidth (field : WireField) : Bool :=
  match field.value with
  | .fixed64 | .fixed32 => true
  | _ => false

/-- The fields the app's decoder gets to see. -/
def beforeFixed (fields : List WireField) : List WireField :=
  fields.takeWhile fun field => !fixedWidth field

inductive Hands : WireField → WireType → List UInt8 → Prop
  | varint {number : ℕ} {v : UInt64} {body : List UInt8} (h : (decodeVarint body 0).1 = v) :
      Hands ⟨number, .varint v⟩ .varint body
  | bytes {number : ℕ} {payload : List UInt8} :
      Hands ⟨number, .bytes payload⟩ .lengthDelimited payload

theorem header_of_tag {data tag rest : List UInt8} {i number wire : ℕ}
    (hd : data.drop i = tag ++ rest) (ht : Tag tag number wire) :
    fieldNumberAt data i = number ∧ wireTypeAt data i = wire ∧ bodyAt data i = i + tag.length ∧
      data.drop (bodyAt data i) = rest := by
  obtain ⟨t, ht, hnumber, hwire, _⟩ := ht
  have htag := decodeVarint_of_drop hd ht
  have hbody : bodyAt data i = i + tag.length := by rw [bodyAt, htag]
  refine ⟨?_, ?_, hbody, ?_⟩
  · rw [fieldNumberAt, htag]
    exact hnumber
  · rw [wireTypeAt, htag]
    exact hwire
  · rw [hbody, ← List.drop_drop, hd, List.drop_left]

/-- A turn of the loop on a field of the grammar that does not trap. -/
theorem readField_of_isField {data bs rest : List UInt8} {i : ℕ} {f : WireField}
    {turn : Option VisitedField} (hd : data.drop i = bs ++ rest) (hf : IsField bs f)
    (hread : readField data i = .ok turn) :
    if fixedWidth f then turn = none
    else ∃ wire value, turn = some ⟨f.number, wire, value, i + bs.length⟩ ∧ Hands f wire value := by
  have hi : i < data.length := by
    by_contra hc
    rw [List.drop_eq_nil_iff.mpr (by omega)] at hd
    exact hf.ne_nil (List.append_eq_nil_iff.mp hd.symm).1
  have hlen := congrArg List.length hd
  rw [List.length_drop, List.length_append] at hlen
  rw [readField_eq hi] at hread
  cases hf with
  | @varint tag body number v ht hv =>
    rw [List.append_assoc] at hd
    obtain ⟨hn, hw, hb, hbody⟩ := header_of_tag hd ht
    have hext := varintExtent_of_varint hv.digits rest
    have hend : varintEnd data i = i + (tag ++ body).length := by
      rw [varintEnd, hbody, hext, hb, List.length_append, Nat.add_assoc]
    split_ifs at hread
    cases hread
    rw [hn, hbody, hext, hend, List.take_left]
    refine ⟨.varint, body, rfl, .varint ?_⟩
    rw [@decodeVarint_of_drop body body [] 0 v (by simp) hv]
  | @bytes tag size payload number n ht hv hp =>
    rw [List.append_assoc, List.append_assoc] at hd
    obtain ⟨hn, hw, hb, hbody⟩ := header_of_tag hd ht
    have hsize := decodeVarint_of_drop hbody hv
    have hl : lengthAt data i = payload.length := by rw [lengthAt, hsize, hp]
    have hpay : payloadAt data i = i + (tag.length + size.length) := by
      rw [payloadAt, hsize, hb, Nat.add_assoc]
    have hdrop : data.drop (payloadAt data i) = payload ++ rest := by
      rw [payloadAt, hsize, ← List.drop_drop, hbody, List.drop_left]
    have hend : payloadAt data i + lengthAt data i = i + (tag ++ size ++ payload).length := by
      rw [hpay, hl, List.length_append, List.length_append, Nat.add_assoc]
    have hle : payloadAt data i + lengthAt data i ≤ data.length := by omega
    split_ifs at hread
    all_goals first | omega | skip
    cases hread
    rw [hn, hdrop, hl, List.take_left, ← hl, hend]
    exact ⟨.lengthDelimited, payload, rfl, .bytes⟩
  | @fixed64 tag body number ht hb =>
    rw [List.append_assoc] at hd
    obtain ⟨_, hw, _, _⟩ := header_of_tag hd ht
    split_ifs at hread
    all_goals first | omega | exact (Except.ok.inj hread).symm
  | @fixed32 tag body number ht hb =>
    rw [List.append_assoc] at hd
    obtain ⟨_, hw, _, _⟩ := header_of_tag hd ht
    split_ifs at hread
    all_goals first | omega | exact (Except.ok.inj hread).symm

/-- On a message, a loop that does not trap simulates the fold of the fields
before the first fixed-width one, if the visitor simulates one step of it. -/
theorem decodeProtobufFrom_simulates {σ τ : Type}
    {visitor : σ → ℕ → WireType → List UInt8 → Except Trap σ} {merge : τ → WireField → τ}
    {R : σ → τ → Prop} {good : WireField → Prop}
    (hvisit : ∀ s t f wire value s', R s t → good f → Hands f wire value →
      visitor s f.number wire value = .ok s' → R s' (merge t f))
    {data : List UInt8} {fs : List WireField} {i : ℕ} {s result : σ} {t : τ}
    (h : Message (data.drop i) fs) (hgood : ∀ f ∈ beforeFixed fs, good f) (hR : R s t)
    (hok : decodeProtobufFrom visitor data i s = .ok result) :
    R result ((beforeFixed fs).foldl merge t) := by
  generalize hd : data.drop i = bytes at h
  induction h generalizing i s t with
  | nil =>
    rw [decodeProtobufFrom_done (List.drop_eq_nil_iff.mp hd)] at hok
    rwa [← Except.ok.inj hok]
  | @cons bs rest f fs hf hr ih =>
    have hi : i < data.length := by
      by_contra hc
      rw [List.drop_eq_nil_iff.mpr (by omega)] at hd
      exact hf.ne_nil (List.append_eq_nil_iff.mp hd.symm).1
    cases hread : readField data i with
    | error trap =>
      rw [decodeProtobufFrom_error hi hread] at hok
      cases hok
    | ok turn =>
      have hturn := readField_of_isField hd hf hread
      cases hfix : fixedWidth f with
      | true =>
        rw [hfix, if_pos rfl] at hturn
        subst hturn
        rw [decodeProtobufFrom_stop hi hread] at hok
        rw [beforeFixed, List.takeWhile_cons_of_neg (by simp [hfix])]
        rwa [← Except.ok.inj hok]
      | false =>
        rw [hfix, if_neg (by simp)] at hturn
        obtain ⟨wire, value, rfl, hands⟩ := hturn
        have hfields : beforeFixed (f :: fs) = f :: beforeFixed fs := by
          rw [beforeFixed, List.takeWhile_cons_of_pos (by simp [hfix])]
          rfl
        rw [hfields] at hgood ⊢
        rw [decodeProtobufFrom_visit hi hread] at hok
        cases hv : visitor s f.number wire value with
        | error trap =>
          simp only [hv] at hok
          cases hok
        | ok s' =>
          simp only [hv] at hok
          have hs := hvisit s t f wire value s' hR (hgood f (by simp)) hands hv
          rw [List.foldl_cons]
          exact ih (fun g hg => hgood g (by simp [hg])) hs hok
            (by rw [← List.drop_drop, hd, List.drop_left])

/-! ## What the app sees of a message -/

/-- The fields before the first fixed-width one, merged from left to right. -/
noncomputable def visible {σ : Type} (merge : σ → WireField → σ) (init : σ) (data : List UInt8) :
    σ :=
  (beforeFixed (fieldsOf data)).foldl merge init

noncomputable def visibleLocation (location : Location) (field : WireField) : Location :=
  match field.number, field.value with
  | 1, .varint value => { location with id := value }
  | 2, .varint value => { location with mappingId := value }
  | 3, .varint value => { location with address := value }
  | 4, .bytes data =>
    { location with lines := location.lines ++ [visible Line.setField default data] }
  | 5, .varint value => { location with isFolded := value ≠ 0 }
  | _, _ => location

noncomputable def visibleSample (sample : Sample) (field : WireField) : Sample :=
  match field.number, field.value with
  | 1, .bytes data => { sample with locationIds := sample.locationIds ++ packedOf data }
  | 1, .varint value => { sample with locationIds := sample.locationIds ++ [value] }
  | 2, .bytes data =>
    { sample with values := sample.values ++ (packedOf data).map UInt64.toInt64 }
  | 2, .varint value => { sample with values := sample.values ++ [value.toInt64] }
  | 3, .bytes data =>
    { sample with labels := sample.labels ++ [visible Label.setField default data] }
  | _, _ => sample

noncomputable def visibleProfile (profile : PprofProfile) (field : WireField) : PprofProfile :=
  match field.number, field.value with
  | 1, .bytes data =>
    { profile with valueTypes := profile.valueTypes ++ [visible ValueType.setField default data] }
  | 2, .bytes data =>
    { profile with samples := profile.samples ++ [visible visibleSample default data] }
  | 3, .bytes data =>
    { profile with mappings := profile.mappings ++ [visible Mapping.setField default data] }
  | 4, .bytes data =>
    { profile with locations := profile.locations ++ [visible visibleLocation default data] }
  | 5, .bytes data =>
    { profile with functions := profile.functions ++ [visible Function.setField default data] }
  | 6, .bytes data => { profile with strings := profile.strings.push (textOf data) }
  | 7, .varint value => { profile with dropFrames := value }
  | 8, .varint value => { profile with keepFrames := value }
  | 9, .varint value => { profile with timeNanos := value.toInt64 }
  | 10, .varint value => { profile with durationNanos := value.toInt64 }
  | 11, .bytes data => { profile with periodType := visible ValueType.setField default data }
  | 12, .varint value => { profile with period := value.toInt64 }
  | 13, .bytes data => { profile with comments := profile.comments ++ packedOf data }
  | 13, .varint value => { profile with comments := profile.comments ++ [value] }
  | 14, .varint value => { profile with defaultSampleType := value }
  | 15, .varint value => { profile with docUrl := value }
  | _, _ => profile

theorem visible_of_ok {σ τ : Type} {visitor : σ → ℕ → WireType → List UInt8 → Except Trap σ}
    {merge : τ → WireField → τ} (R : σ → τ → Prop) (good : WireField → Prop)
    (hvisit : ∀ s t f wire value s', R s t → good f → Hands f wire value →
      visitor s f.number wire value = .ok s' → R s' (merge t f))
    {data : List UInt8} {init result : σ} {init' : τ} (hR : R init init')
    (h : ∃ fs, Message data fs) (hgood : ∀ f ∈ beforeFixed (fieldsOf data), good f)
    (hok : decodeProtobuf visitor data init = .ok result) :
    R result (visible merge init' data) := by
  obtain ⟨fs, hm⟩ := h
  rw [hm.fieldsOf_eq] at hgood
  rw [visible, hm.fieldsOf_eq]
  exact decodeProtobufFrom_simulates hvisit (by simpa using hm) hgood hR hok

theorem visible_of_flat {σ : Type} {visitor : σ → ℕ → WireType → List UInt8 → Except Trap σ}
    {merge : σ → WireField → σ}
    (hvarint : ∀ s n body,
      visitor s n .varint body = .ok (merge s ⟨n, .varint (decodeVarint body 0).1⟩))
    (hbytes : ∀ s n payload,
      visitor s n .lengthDelimited payload = .ok s ∧ merge s ⟨n, .bytes payload⟩ = s)
    {data : List UInt8} {init result : σ} (h : ∃ fs, Message data fs)
    (hok : decodeProtobuf visitor data init = .ok result) : result = visible merge init data := by
  refine visible_of_ok Eq (fun _ => True) ?_ rfl h (fun _ _ => trivial) hok
  rintro s _ f wire value s' rfl _ hands hv
  cases hands with
  | @varint number v body hb =>
    subst hb
    rw [hvarint] at hv
    exact (Except.ok.inj hv).symm
  | bytes =>
    obtain ⟨hskip, hmerge⟩ := hbytes s _ value
    rw [hskip] at hv
    rw [hmerge]
    exact (Except.ok.inj hv).symm

theorem decodeValueType_visible {data : List UInt8} {vt : ValueType} (h : ∃ fs, Message data fs)
    (hok : decodeValueType data = .ok vt) : vt = visible ValueType.setField default data := by
  refine visible_of_flat ?_ ?_ h hok
  · intro s n body
    unfold visitValueType ValueType.setField
    dsimp only
    split <;> simp_all
  · intro s n payload
    unfold ValueType.setField
    exact ⟨rfl, by simp⟩

theorem decodeLine_visible {data : List UInt8} {line : Line} (h : ∃ fs, Message data fs)
    (hok : decodeLine data = .ok line) : line = visible Line.setField default data := by
  refine visible_of_flat ?_ ?_ h hok
  · intro s n body
    unfold visitLine Line.setField
    dsimp only
    split <;> simp_all
  · intro s n payload
    unfold Line.setField
    exact ⟨rfl, by simp⟩

theorem decodeFunction_visible {data : List UInt8} {function : Function} (h : ∃ fs, Message data fs)
    (hok : decodeFunction data = .ok function) :
    function = visible Function.setField default data := by
  refine visible_of_flat ?_ ?_ h hok
  · intro s n body
    unfold visitFunction Function.setField
    dsimp only
    split <;> simp_all
  · intro s n payload
    unfold Function.setField
    exact ⟨rfl, by simp⟩

theorem decodeLabel_visible {data : List UInt8} {label : Label} (h : ∃ fs, Message data fs)
    (hok : decodeLabel data = .ok label) : label = visible Label.setField default data := by
  refine visible_of_flat ?_ ?_ h hok
  · intro s n body
    unfold visitLabel Label.setField
    dsimp only
    split <;> simp_all
  · intro s n payload
    unfold Label.setField
    exact ⟨rfl, by simp⟩

def mergeValues (values : List UInt64) (field : WireField) : List UInt64 :=
  match field.value with
  | .varint v => if 1 ≤ field.number ∧ field.number ≤ 10 then values.set (field.number - 1) v
    else values
  | _ => values

theorem mergeValues_length (values : List UInt64) (field : WireField) :
    (mergeValues values field).length = values.length := by
  unfold mergeValues
  split
  · split_ifs
    · rw [List.length_set]
    · rfl
  · rfl

/-- Slot `n - 1` of the array is field `n` of the mapping. -/
theorem mappingOfValues_mergeValues (values : List UInt64) (field : WireField)
    (hlen : values.length = 10) :
    mappingOfValues (mergeValues values field) = (mappingOfValues values).setField field := by
  obtain ⟨number, value⟩ := field
  unfold mergeValues Mapping.setField
  cases value with
  | varint v =>
    dsimp only
    split_ifs with hn
    · obtain ⟨hlo, hhi⟩ := hn
      interval_cases number
      all_goals simp [mappingOfValues, hlen]
    · split <;> simp_all
  | _ => rfl

theorem decodeMapping_visible {data : List UInt8} {mapping : Mapping} (h : ∃ fs, Message data fs)
    (hok : decodeMapping data = .ok mapping) :
    mapping = visible Mapping.setField default data := by
  unfold decodeMapping at hok
  obtain ⟨values, hvalues, hok⟩ := bind_eq_ok.mp hok
  cases hok
  suffices hR : values.length = 10 ∧
      mappingOfValues values = visible Mapping.setField default data from hR.2
  refine visible_of_ok (fun (vs : List UInt64) m => vs.length = 10 ∧ mappingOfValues vs = m)
    (fun _ => True) ?_ ⟨List.length_replicate .., rfl⟩ h (fun _ _ => trivial) hvalues
  rintro vs _ f wire value vs' ⟨hlen, rfl⟩ _ hands hv
  have hvs : vs' = mergeValues vs f := by
    cases hands with
    | varint hb =>
      subst hb
      unfold visitMapping at hv
      unfold mergeValues
      dsimp only
      split_ifs at hv with hfield hidx
      · rw [if_pos hfield.2]
        exact (Except.ok.inj hv).symm
      · rw [if_neg (fun hn => hfield ⟨rfl, hn⟩)]
        exact (Except.ok.inj hv).symm
    | bytes => exact (Except.ok.inj hv).symm
  rw [hvs, mergeValues_length]
  exact ⟨hlen, mappingOfValues_mergeValues vs f hlen⟩

theorem decodeLocation_visible {data : List UInt8} {location : Location}
    (h : WellFormedMessage Location.WellFormedField data)
    (hok : decodeLocation data = .ok location) :
    location = visible visibleLocation default data := by
  obtain ⟨fs, hm, hwf⟩ := h
  refine visible_of_ok Eq Location.WellFormedField ?_ rfl ⟨fs, hm⟩ ?_ hok
  · rintro s _ f wire value s' rfl hgood hands hv
    cases hands with
    | varint hb =>
      subst hb
      unfold visitLocation at hv
      unfold visibleLocation
      dsimp only at hv ⊢
      split at hv <;> simp_all
    | bytes =>
      unfold visitLocation at hv
      unfold Location.WellFormedField at hgood
      unfold visibleLocation
      dsimp only at hv hgood ⊢
      split at hv
      case h_4 =>
        obtain ⟨line, hline, hv⟩ := bind_eq_ok.mp hv
        cases hv
        rw [decodeLine_visible hgood hline]
        rfl
      all_goals simp_all
  · intro f hf
    rw [hm.fieldsOf_eq] at hf
    exact hwf f ((List.takeWhile_sublist _).subset hf)

/-- A sample as the app reads it: a packed list replaces the one before it, and
unpacked elements are skipped. -/
noncomputable def kitSample (sample : Sample) (field : WireField) : Sample :=
  match field.number, field.value with
  | 1, .bytes data => { sample with locationIds := packedOf data }
  | 2, .bytes data => { sample with values := (packedOf data).map UInt64.toInt64 }
  | 3, .bytes data =>
    { sample with labels := sample.labels ++ [visible Label.setField default data] }
  | _, _ => sample

theorem decodeSample_kitSample {data : List UInt8} {sample : Sample}
    (h : WellFormedMessage Sample.WellFormedField data)
    (hok : decodeSample data = .ok sample) :
    sample = visible kitSample default data := by
  obtain ⟨fs, hm, hwf⟩ := h
  refine visible_of_ok Eq Sample.WellFormedField ?_ rfl ⟨fs, hm⟩ ?_ hok
  · rintro s _ f wire value s' rfl hgood hands hv
    cases hands with
    | varint hb =>
      unfold kitSample
      simp only
      exact (Except.ok.inj hv).symm
    | bytes =>
      unfold visitSample at hv
      unfold Sample.WellFormedField at hgood
      unfold kitSample
      dsimp only at hv hgood ⊢
      split at hv
      case h_1 =>
        obtain ⟨vs, hvs⟩ := hgood
        cases hv
        rw [decodePackedUInt64s_of_packed hvs, ← hvs.packedOf_eq]
        rfl
      case h_2 =>
        obtain ⟨vs, hvs⟩ := hgood
        cases hv
        rw [decodePackedInt64s, decodePackedUInt64s_of_packed hvs, ← hvs.packedOf_eq]
        rfl
      case h_3 =>
        obtain ⟨label, hlabel, hv⟩ := bind_eq_ok.mp hv
        cases hv
        rw [decodeLabel_visible hgood hlabel]
        rfl
      all_goals simp_all
  · intro f hf
    rw [hm.fieldsOf_eq] at hf
    exact hwf f ((List.takeWhile_sublist _).subset hf)

def packedCount (number : ℕ) (fields : List WireField) : ℕ :=
  fields.countP fun field => match field.value with
    | .bytes _ => field.number = number
    | _ => false

/-- The location ids and the values come in one packed list each. -/
def PackedOnce (fields : List WireField) : Prop :=
  packedCount 1 fields ≤ 1 ∧ packedCount 2 fields ≤ 1 ∧
    ∀ field ∈ fields, ∀ v, field.value = .varint v → field.number ≠ 1 ∧ field.number ≠ 2

theorem packedCount_cons (number : ℕ) (field : WireField) (fields : List WireField) :
    packedCount number (field :: fields) = packedCount number fields +
      match field.value with
      | .bytes _ => if field.number = number then 1 else 0
      | _ => 0 := by
  unfold packedCount
  rw [List.countP_cons]
  cases field.value <;> simp

theorem kitSample_other (sample : Sample) (field : WireField)
    (h : field.number ≠ 1 ∧ field.number ≠ 2) :
    kitSample sample field = visibleSample sample field ∧
      (visibleSample sample field).locationIds = sample.locationIds ∧
      (visibleSample sample field).values = sample.values := by
  obtain ⟨number, value⟩ := field
  obtain ⟨h₁, h₂⟩ := h
  induction number using fieldNumber_cases with
  | hlow n hn =>
    interval_cases n
    all_goals first
      | exact absurd rfl h₁
      | exact absurd rfl h₂
      | cases value <;> exact ⟨rfl, rfl, rfl⟩
  | hhigh n => cases value <;> exact ⟨rfl, rfl, rfl⟩

/-- Replacing and appending agree as long as nothing is replaced. -/
theorem foldl_kitSample (fields : List WireField) (sample : Sample) (h : PackedOnce fields)
    (hids : sample.locationIds ≠ [] → packedCount 1 fields = 0)
    (hvalues : sample.values ≠ [] → packedCount 2 fields = 0) :
    fields.foldl kitSample sample = fields.foldl visibleSample sample := by
  induction fields generalizing sample with
  | nil => rfl
  | cons field fields ih =>
    obtain ⟨h₁, h₂, hv⟩ := h
    have hvt : ∀ g ∈ fields, ∀ v, g.value = .varint v → g.number ≠ 1 ∧ g.number ≠ 2 :=
      fun g hg => hv g (List.mem_cons_of_mem _ hg)
    rw [packedCount_cons] at h₁ h₂ hids hvalues
    rw [List.foldl_cons, List.foldl_cons]
    by_cases hother : field.number ≠ 1 ∧ field.number ≠ 2
    · obtain ⟨hk, hsameIds, hsameValues⟩ := kitSample_other sample field hother
      rw [hk]
      apply ih _ ⟨by omega, by omega, hvt⟩
      · rw [hsameIds]
        intro hne
        have := hids hne
        omega
      · rw [hsameValues]
        intro hne
        have := hvalues hne
        omega
    obtain ⟨number, value⟩ := field
    cases value with
    | varint v => exact absurd (hv _ List.mem_cons_self v rfl) hother
    | fixed64 =>
      have hskip : kitSample sample ⟨number, .fixed64⟩ = sample ∧
          visibleSample sample ⟨number, .fixed64⟩ = sample := by simp [kitSample, visibleSample]
      rw [hskip.1, hskip.2]
      exact ih _ ⟨h₁, h₂, hvt⟩ hids hvalues
    | fixed32 =>
      have hskip : kitSample sample ⟨number, .fixed32⟩ = sample ∧
          visibleSample sample ⟨number, .fixed32⟩ = sample := by simp [kitSample, visibleSample]
      rw [hskip.1, hskip.2]
      exact ih _ ⟨h₁, h₂, hvt⟩ hids hvalues
    | bytes d =>
      obtain ⟨ids, values, labels⟩ := sample
      by_cases hn₁ : number = 1
      · subst hn₁
        simp only [↓reduceIte] at h₁ hids
        have hnil : ids = [] := by
          by_contra hne
          have := hids hne
          omega
        subst hnil
        exact ih ⟨packedOf d, values, labels⟩ ⟨by omega, by simpa using h₂, hvt⟩
          (fun _ => by omega) (by simpa using hvalues)
      · have hn₂ : number = 2 := by
          by_contra hne
          exact hother ⟨hn₁, hne⟩
        subst hn₂
        simp only [↓reduceIte] at h₂ hvalues
        have hnil : values = [] := by
          by_contra hne
          have := hvalues hne
          omega
        subst hnil
        exact ih ⟨ids, (packedOf d).map UInt64.toInt64, labels⟩ ⟨by simpa using h₁, by omega, hvt⟩
          (by simpa using hids) (fun _ => by omega)

theorem decodeSample_visible {data : List UInt8} {sample : Sample}
    (h : WellFormedMessage Sample.WellFormedField data)
    (hpacked : PackedOnce (beforeFixed (fieldsOf data)))
    (hok : decodeSample data = .ok sample) : sample = visible visibleSample default data := by
  rw [decodeSample_kitSample h hok]
  exact foldl_kitSample _ default hpacked (fun hne => absurd rfl hne) (fun hne => absurd rfl hne)

/-! ## The whole profile -/

namespace DecodedProfile

/-- The fields of a model, with the period type apart. -/
def ofModel (p : PprofProfile) (periodType : Option ValueType) : DecodedProfile where
  sampleTypes := p.valueTypes
  samples := p.samples
  mappings := p.mappings
  locations := p.locations
  functions := p.functions
  stringTable := p.strings.strings
  timeNanos := p.timeNanos
  durationNanos := p.durationNanos
  periodType := periodType
  period := p.period
  defaultSampleType := p.defaultSampleType
  comments := p.comments
  dropFrames := p.dropFrames
  keepFrames := p.keepFrames
  docURL := p.docUrl

/-- Field by field the same model; an absent period type stands for the default one. -/
def Agrees (d : DecodedProfile) (p : PprofProfile) : Prop :=
  ∃ periodType, periodType.getD default = p.periodType ∧ d = ofModel p periodType

def PackedSample (field : WireField) : Prop :=
  match field.number, field.value with
  | 2, .bytes data => PackedOnce (beforeFixed (fieldsOf data))
  | _, _ => True

theorem visit_varint (text : List UInt8 → Option String) (p : PprofProfile)
    (periodType : Option ValueType) (number : ℕ) (body : List UInt8) :
    visit text (ofModel p periodType) number .varint body =
        .ok (ofModel (visibleProfile p ⟨number, .varint (decodeVarint body 0).1⟩) periodType) ∧
      (visibleProfile p ⟨number, .varint (decodeVarint body 0).1⟩).periodType = p.periodType := by
  induction number using fieldNumber_cases with
  | hlow n hn => interval_cases n <;> exact ⟨rfl, rfl⟩
  | hhigh n => exact ⟨rfl, rfl⟩

theorem visit_skipped (text : List UInt8 → Option String) (d : DecodedProfile) (p : PprofProfile)
    {number : ℕ} (h : number ∉ [1, 2, 3, 4, 5, 6, 11, 13]) (payload : List UInt8) :
    visit text d number .lengthDelimited payload = .ok d ∧
      visibleProfile p ⟨number, .bytes payload⟩ = p := by
  induction number using fieldNumber_cases with
  | hlow n hn => interval_cases n <;> first | exact ⟨rfl, rfl⟩ | exact absurd (by decide) h
  | hhigh n => exact ⟨rfl, rfl⟩

theorem visit_agrees {text : List UInt8 → Option String} (htext : ∀ s, text (utf8 s) = some s)
    {d d' : DecodedProfile} {p : PprofProfile} {f : WireField} {wire : WireType}
    {value : List UInt8} (h : d.Agrees p)
    (hgood : PprofProfile.WellFormedField f ∧ PackedSample f) (hands : Hands f wire value)
    (hv : visit text d f.number wire value = .ok d') : d'.Agrees (visibleProfile p f) := by
  obtain ⟨hgood, hpacked⟩ := hgood
  obtain ⟨pt, hpt, rfl⟩ := h
  cases hands with
  | @varint number v body hb =>
    subst hb
    obtain ⟨hvisit, hperiod⟩ := visit_varint text p pt number value
    rw [hvisit] at hv
    cases hv
    exact ⟨pt, hpt.trans hperiod.symm, rfl⟩
  | @bytes number payload =>
    by_cases hnumber : number ∈ [1, 2, 3, 4, 5, 6, 11, 13]
    case neg =>
      obtain ⟨hvisit, hskip⟩ := visit_skipped text (ofModel p pt) p hnumber value
      rw [hvisit] at hv
      cases hv
      rw [hskip]
      exact ⟨pt, hpt, rfl⟩
    simp only [List.mem_cons, List.not_mem_nil, or_false] at hnumber
    rcases hnumber with rfl | rfl | rfl | rfl | rfl | rfl | rfl | rfl
    case inl =>
      obtain ⟨vt, hvt, hv⟩ := bind_eq_ok.mp hv
      cases hv
      rw [decodeValueType_visible hgood hvt]
      exact ⟨pt, hpt, rfl⟩
    case inr.inl =>
      obtain ⟨sample, hsample, hv⟩ := bind_eq_ok.mp hv
      cases hv
      rw [decodeSample_visible hgood hpacked hsample]
      exact ⟨pt, hpt, rfl⟩
    case inr.inr.inl =>
      obtain ⟨mapping, hmapping, hv⟩ := bind_eq_ok.mp hv
      cases hv
      rw [decodeMapping_visible hgood hmapping]
      exact ⟨pt, hpt, rfl⟩
    case inr.inr.inr.inl =>
      obtain ⟨location, hlocation, hv⟩ := bind_eq_ok.mp hv
      cases hv
      rw [decodeLocation_visible hgood hlocation]
      exact ⟨pt, hpt, rfl⟩
    case inr.inr.inr.inr.inl =>
      obtain ⟨function, hfunction, hv⟩ := bind_eq_ok.mp hv
      cases hv
      rw [decodeFunction_visible hgood hfunction]
      exact ⟨pt, hpt, rfl⟩
    case inr.inr.inr.inr.inr.inl =>
      obtain ⟨s, rfl⟩ := hgood
      cases hv
      have ht : textOf (utf8 s) = s := by
        rw [textOf, (fromUtf8_eq_some_iff _ s).mpr rfl]
        rfl
      rw [htext, Option.getD_some]
      change Agrees _ { p with strings := p.strings.push (textOf (utf8 s)) }
      rw [ht]
      exact ⟨pt, hpt, rfl⟩
    case inr.inr.inr.inr.inr.inr.inl =>
      obtain ⟨vt, hvt, hv⟩ := bind_eq_ok.mp hv
      cases hv
      rw [decodeValueType_visible hgood hvt]
      exact ⟨some _, rfl, rfl⟩
    case inr.inr.inr.inr.inr.inr.inr =>
      obtain ⟨vs, hvs⟩ := hgood
      cases hv
      rw [decodePackedUInt64s_of_packed hvs, ← hvs.packedOf_eq]
      exact ⟨pt, hpt, rfl⟩

def NoFixedWidth (data : List UInt8) : Prop := ∀ f ∈ fieldsOf data, fixedWidth f = false

/-- No fixed-width field, neither in the profile nor in a message nested in it. -/
structure FixedFree (data : List UInt8) : Prop where
  top : NoFixedWidth data
  flat : ∀ f ∈ fieldsOf data, ∀ payload, f.value = .bytes payload →
    f.number = 1 ∨ f.number = 3 ∨ f.number = 5 ∨ f.number = 11 → NoFixedWidth payload
  sample : ∀ f ∈ fieldsOf data, ∀ payload, f.value = .bytes payload → f.number = 2 →
    NoFixedWidth payload ∧ ∀ g ∈ fieldsOf payload, ∀ label, g.value = .bytes label →
      g.number = 3 → NoFixedWidth label
  location : ∀ f ∈ fieldsOf data, ∀ payload, f.value = .bytes payload → f.number = 4 →
    NoFixedWidth payload ∧ ∀ g ∈ fieldsOf payload, ∀ line, g.value = .bytes line →
      g.number = 4 → NoFixedWidth line

/-- The location ids and the values of every sample come in one packed list each. -/
def SamplesPackedOnce (data : List UInt8) : Prop :=
  ∀ f ∈ beforeFixed (fieldsOf data), PackedSample f

theorem beforeFixed_eq_self {fields : List WireField} (h : ∀ f ∈ fields, fixedWidth f = false) :
    beforeFixed fields = fields := by
  rw [beforeFixed, List.takeWhile_eq_self_iff]
  intro f hf
  simp [h f hf]

theorem visible_eq_meaning {σ : Type} {merge merge' : σ → WireField → σ} {data : List UInt8}
    (h : NoFixedWidth data) (init : σ)
    (hmerge : ∀ s, ∀ f ∈ fieldsOf data, merge s f = merge' s f) :
    visible merge init data = meaning merge' init data := by
  rw [visible, meaning, beforeFixed_eq_self h]
  exact List.foldl_ext _ _ init hmerge

theorem visibleLocation_eq {data : List UInt8}
    (h : NoFixedWidth data ∧ ∀ g ∈ fieldsOf data, ∀ line, g.value = .bytes line →
      g.number = 4 → NoFixedWidth line) :
    visible visibleLocation default data = meaning Location.mergeField default data := by
  refine visible_eq_meaning h.1 _ fun location f hf => ?_
  obtain ⟨number, value⟩ := f
  by_cases hnested : ∃ payload, number = 4 ∧ value = .bytes payload
  · obtain ⟨payload, rfl, rfl⟩ := hnested
    exact congrArg (fun line => { location with lines := location.lines ++ [line] })
      ((visible_eq_meaning (h.2 _ hf payload rfl rfl) _ fun _ _ _ => rfl).trans
        (Line.meaning_setField payload))
  · rcases number with _ | _ | _ | _ | _ | _ | number
    all_goals
      cases value with
      | bytes payload => first | rfl | exact absurd ⟨payload, rfl, rfl⟩ hnested
      | _ => rfl

theorem visibleSample_eq {data : List UInt8}
    (h : NoFixedWidth data ∧ ∀ g ∈ fieldsOf data, ∀ label, g.value = .bytes label →
      g.number = 3 → NoFixedWidth label) :
    visible visibleSample default data = meaning Sample.mergeField default data := by
  refine visible_eq_meaning h.1 _ fun sample f hf => ?_
  obtain ⟨number, value⟩ := f
  by_cases hnested : ∃ payload, number = 3 ∧ value = .bytes payload
  · obtain ⟨payload, rfl, rfl⟩ := hnested
    exact congrArg (fun label => { sample with labels := sample.labels ++ [label] })
      ((visible_eq_meaning (h.2 _ hf payload rfl rfl) _ fun _ _ _ => rfl).trans
        (Label.meaning_setField payload))
  · rcases number with _ | _ | _ | _ | number
    all_goals
      cases value with
      | bytes payload => first | rfl | exact absurd ⟨payload, rfl, rfl⟩ hnested
      | _ => rfl

theorem visibleProfile_other (p : PprofProfile) {field : WireField}
    (h : ∀ payload, field.value = .bytes payload → field.number ∉ [1, 2, 3, 4, 5, 11]) :
    visibleProfile p field = PprofProfile.mergeField p field := by
  obtain ⟨number, value⟩ := field
  induction number using fieldNumber_cases with
  | hlow n hn =>
    cases value with
    | bytes payload =>
      have hn' : n ∉ [1, 2, 3, 4, 5, 11] := h payload rfl
      interval_cases n <;> first | rfl | exact absurd (by decide) hn'
    | _ => interval_cases n <;> rfl
  | hhigh n => cases value <;> rfl

theorem visibleProfile_eq {data : List UInt8} (h : FixedFree data) (p : PprofProfile) :
    visible visibleProfile p data = meaning PprofProfile.mergeField p data := by
  refine visible_eq_meaning h.top _ fun profile f hf => ?_
  by_cases hnested : ∃ payload, f.value = .bytes payload ∧ f.number ∈ [1, 2, 3, 4, 5, 11]
  case neg =>
    exact visibleProfile_other profile fun payload hvalue hnumber =>
      hnested ⟨payload, hvalue, hnumber⟩
  obtain ⟨payload, hvalue, hnumber⟩ := hnested
  obtain ⟨number, value⟩ := f
  dsimp only at hvalue hnumber
  subst hvalue
  simp only [List.mem_cons, List.not_mem_nil, or_false] at hnumber
  rcases hnumber with rfl | rfl | rfl | rfl | rfl | rfl
  case inl =>
    exact congrArg (fun x => { profile with valueTypes := profile.valueTypes ++ [x] })
      ((visible_eq_meaning (h.flat _ hf payload rfl (by simp)) _ fun _ _ _ => rfl).trans
        (ValueType.meaning_setField payload))
  case inr.inl =>
    exact congrArg (fun x => { profile with samples := profile.samples ++ [x] })
      (visibleSample_eq (h.sample _ hf payload rfl rfl))
  case inr.inr.inl =>
    exact congrArg (fun x => { profile with mappings := profile.mappings ++ [x] })
      ((visible_eq_meaning (h.flat _ hf payload rfl (by simp)) _ fun _ _ _ => rfl).trans
        (Mapping.meaning_setField payload))
  case inr.inr.inr.inl =>
    exact congrArg (fun x => { profile with locations := profile.locations ++ [x] })
      (visibleLocation_eq (h.location _ hf payload rfl rfl))
  case inr.inr.inr.inr.inl =>
    exact congrArg (fun x => { profile with functions := profile.functions ++ [x] })
      ((visible_eq_meaning (h.flat _ hf payload rfl (by simp)) _ fun _ _ _ => rfl).trans
        (Function.meaning_setField payload))
  case inr.inr.inr.inr.inr =>
    exact congrArg (fun x => { profile with periodType := x })
      ((visible_eq_meaning (h.flat _ hf payload rfl (by simp)) _ fun _ _ _ => rfl).trans
        (ValueType.meaning_setField payload))

theorem agrees_visible {text : List UInt8 → Option String} (htext : ∀ s, text (utf8 s) = some s)
    {data : List UInt8} {profile : PprofProfile} (hrust : PprofProfile.decode data = .ok profile)
    (hpacked : SamplesPackedOnce data) {d : DecodedProfile} (hd : decode text data = .ok d) :
    d.Agrees (visible visibleProfile (.withStrings .empty) data) := by
  obtain ⟨hwf, rfl⟩ := (PprofProfile.decode_eq_ok_iff data profile).mp hrust
  obtain ⟨fs, hm, hwf⟩ := hwf.1
  refine visible_of_ok Agrees (fun f => PprofProfile.WellFormedField f ∧ PackedSample f)
    (fun _ _ _ _ _ _ => visit_agrees htext) ⟨none, rfl, rfl⟩ ⟨fs, hm⟩ ?_ hd
  intro f hf
  refine ⟨hwf f ?_, hpacked f hf⟩
  rw [hm.fieldsOf_eq] at hf
  exact (List.takeWhile_sublist _).subset hf

theorem agrees_of_ok {text : List UInt8 → Option String} (htext : ∀ s, text (utf8 s) = some s)
    {data : List UInt8} {profile : PprofProfile} (hrust : PprofProfile.decode data = .ok profile)
    (hpacked : SamplesPackedOnce data) (hfree : FixedFree data) {d : DecodedProfile}
    (hd : decode text data = .ok d) : d.Agrees profile := by
  have hagrees := agrees_visible htext hrust hpacked hd
  obtain ⟨hwf, rfl⟩ := (PprofProfile.decode_eq_ok_iff data profile).mp hrust
  rw [visibleProfile_eq hfree] at hagrees
  -- the Rust decoder only rebuilds the lookup cache of the table
  obtain ⟨pt, hpt, rfl⟩ := hagrees
  exact ⟨pt, hpt, rfl⟩

/-- On bytes the Rust decoder accepts, the app's decoder returns the model of the
fields it sees, which is the Rust decoder's model where no fixed-width field hides
any. -/
theorem decode_agrees (text : List UInt8 → Option String) (htext : ∀ s, text (utf8 s) = some s)
    (data : List UInt8) (profile : PprofProfile) (hrust : PprofProfile.decode data = .ok profile)
    (hfits : ProfileFits data) (hpacked : SamplesPackedOnce data) :
    ∃ d, decode text data = .ok d ∧
      d.Agrees (visible visibleProfile (.withStrings .empty) data) ∧
      (FixedFree data → d.Agrees profile) := by
  obtain ⟨d, hd⟩ := (decode_ok_iff text data).mpr hfits
  exact ⟨d, hd, agrees_visible htext hrust hpacked hd,
    fun hfree => agrees_of_ok htext hrust hpacked hfree hd⟩

theorem bytes_isField (number : ℕ) (payload : List UInt8) (hl : payload.length < 128)
    (hn : 0 < number ∧ number < 16) :
    IsField (UInt8.ofNat (number <<< 3 ||| 2) :: UInt8.ofNat payload.length :: payload)
      ⟨number, .bytes payload⟩ := by
  have hf := encodeLengthDelimited_field number payload (by omega) hn
  have hlen : (UInt64.ofNat payload.length).toNat = payload.length := by
    rw [UInt64.toNat_ofNat']
    omega
  have hv := encodeVarint_of_lt (v := UInt64.ofNat payload.length) (by
    apply UInt64.toNat_inj.mp
    rw [shiftRight_7_toNat, hlen]
    exact Nat.div_eq_of_lt hl)
  have hb : (UInt64.ofNat payload.length &&& 0x7F).toUInt8 = UInt8.ofNat payload.length := by
    apply UInt8.toNat_inj.mp
    rw [and_127_toNat, hlen, UInt8.toNat_ofNat']
    omega
  rwa [hv, hb] at hf

def oneSample : List UInt8 := [0x32, 0x00, 0x12, 0x03, 0x0A, 0x01, 0x07]

theorem oneSample_message :
    Message oneSample [⟨6, .bytes []⟩, ⟨2, .bytes [0x0A, 0x01, 0x07]⟩] :=
  .cons (bytes_isField 6 [] (by decide) (by decide))
    (.single (bytes_isField 2 [0x0A, 0x01, 0x07] (by decide) (by decide)))

theorem oneSample_payload : Message [0x0A, 0x01, 0x07] [⟨1, .bytes [0x07]⟩] :=
  .single (bytes_isField 1 [0x07] (by decide) (by decide))

theorem oneSample_rust : PprofProfile.WellFormed oneSample := by
  have hids : Packed [0x07] [0x07] := by
    have := flatMap_encodeVarint_packed [0x07]
    rwa [List.flatMap_singleton, encodeVarint_of_lt (by decide)] at this
  have hempty : fromUtf8 [] = some "" := by decide
  refine ⟨⟨_, oneSample_message, ?_⟩, ?_⟩
  · intro f hf
    simp only [List.mem_cons, List.not_mem_nil, or_false] at hf
    rcases hf with rfl | rfl
    · exact ⟨"", by decide⟩
    · refine ⟨_, oneSample_payload, ?_⟩
      intro g hg
      rw [List.mem_singleton.mp hg]
      exact ⟨_, hids⟩
  · rw [PprofProfile.merged, meaning, oneSample_message.fieldsOf_eq]
    simp [PprofProfile.mergeField, textOf, hempty, PprofProfile.withStrings, StringTable.empty,
      StringTable.push]

theorem oneSample_app : decode fromUtf8 oneSample =
    .ok { new with stringTable := [""], samples := [⟨[7], [], []⟩] } := by
  have hsample : decodeSample [0x0A, 0x01, 0x07] = .ok ⟨[7], [], []⟩ := by
    have hids : decodePackedUInt64s [0x07] = [7] := by
      rw [decodePackedUInt64s, decodePackedFrom, dif_pos (by decide), decodePackedFrom,
        dif_neg (by decide)]
      rfl
    have hread : readField [0x0A, 0x01, 0x07] 0 = .ok (some ⟨1, .lengthDelimited, [0x07], 3⟩) := rfl
    rw [decodeSample, decodeProtobuf, decodeProtobufFrom_visit (by decide) hread]
    simp only [visitSample, hids]
    exact decodeProtobufFrom_done le_rfl
  have h₀ : readField oneSample 0 = .ok (some ⟨6, .lengthDelimited, [], 2⟩) := rfl
  have h₂ : readField oneSample 2 = .ok (some ⟨2, .lengthDelimited, [0x0A, 0x01, 0x07], 7⟩) := rfl
  have hempty : fromUtf8 [] = some "" := by decide
  rw [decode, decodeProtobuf, decodeProtobufFrom_visit (by decide) h₀]
  simp only [visit, hempty]
  rw [decodeProtobufFrom_visit (by decide) h₂]
  simp only [visit, hsample, bind, Except.bind]
  exact decodeProtobufFrom_done le_rfl

theorem decode_agrees_oneSample :
    ∃ profile d, PprofProfile.decode oneSample = .ok profile ∧
      decode fromUtf8 oneSample = .ok d ∧ d.Agrees profile := by
  have hrust := (PprofProfile.decode_eq_ok_iff oneSample _).mpr ⟨oneSample_rust, rfl⟩
  have hfits := (decode_ok_iff fromUtf8 oneSample).mp ⟨_, oneSample_app⟩
  obtain ⟨d, hd, _, hagrees⟩ := decode_agrees fromUtf8
    (fun s => (fromUtf8_eq_some_iff _ s).mpr rfl) oneSample _ hrust hfits
    (by
      unfold SamplesPackedOnce
      rw [oneSample_message.fieldsOf_eq]
      simp [beforeFixed, fixedWidth, PackedSample, oneSample_payload.fieldsOf_eq, PackedOnce,
        packedCount])
  refine ⟨_, d, hrust, hd, hagrees ⟨?_, ?_, ?_, ?_⟩⟩
  all_goals
    simp only [NoFixedWidth, oneSample_message.fieldsOf_eq]
    simp [fixedWidth, oneSample_payload.fieldsOf_eq]

/-- The string table, an unknown field of wire type 5, then `doc_url`. -/
def hiddenDocUrl : List UInt8 := [0x32, 0x00, 0x85, 0x01, 0, 0, 0, 0, 0x78, 0x01]

theorem hiddenDocUrl_message :
    Message hiddenDocUrl [⟨6, .bytes []⟩, ⟨16, .fixed32⟩, ⟨15, .varint 1⟩] := by
  have hvarint : Varint [0x85, 0x01] (133 : UInt64).toNat :=
    .more (b := 0x85) (by decide) (.last (b := 0x01) (by decide))
  have htag : Tag [0x85, 0x01] 16 5 :=
    ⟨133, .of_digits hvarint (by decide), by decide, by decide, by decide⟩
  have hlast := encodeVarintField_message 15 1 (by decide)
  rw [encodeVarintField, if_neg (by decide), encodeVarint_of_lt (by decide)] at hlast
  have hfixed : IsField [0x85, 0x01, 0, 0, 0, 0] ⟨16, .fixed32⟩ :=
    @IsField.fixed32 [0x85, 0x01] [0, 0, 0, 0] 16 htag rfl
  exact .cons (bytes_isField 6 [] (by decide) (by decide)) (.cons hfixed hlast)

theorem hiddenDocUrl_disagree :
    ∃ profile d, PprofProfile.decode hiddenDocUrl = .ok profile ∧
      decode fromUtf8 hiddenDocUrl = .ok d ∧ profile.docUrl = 1 ∧ d.docURL = 0 ∧
        ¬d.Agrees profile := by
  have hempty : fromUtf8 [] = some "" := by decide
  have hwf : PprofProfile.WellFormed hiddenDocUrl := by
    refine ⟨⟨_, hiddenDocUrl_message, ?_⟩, ?_⟩
    · intro f hf
      simp only [List.mem_cons, List.not_mem_nil, or_false] at hf
      rcases hf with rfl | rfl | rfl
      · exact ⟨"", by decide⟩
      · trivial
      · trivial
    · rw [PprofProfile.merged, meaning, hiddenDocUrl_message.fieldsOf_eq]
      simp [PprofProfile.mergeField, textOf, hempty, PprofProfile.withStrings, StringTable.empty,
        StringTable.push]
  have hrust := (PprofProfile.decode_eq_ok_iff hiddenDocUrl _).mpr ⟨hwf, rfl⟩
  have hdoc : (PprofProfile.ofBytes hiddenDocUrl).docUrl = 1 := by
    rw [PprofProfile.ofBytes, PprofProfile.merged, meaning, hiddenDocUrl_message.fieldsOf_eq]
    rfl
  have happ : decode fromUtf8 hiddenDocUrl = .ok { new with stringTable := [""] } := by
    have h₀ : readField hiddenDocUrl 0 = .ok (some ⟨6, .lengthDelimited, [], 2⟩) := rfl
    rw [decode, decodeProtobuf, decodeProtobufFrom_visit (by decide) h₀]
    simp only [visit, hempty]
    exact decodeProtobufFrom_stop (by decide) rfl
  refine ⟨_, _, hrust, happ, hdoc, rfl, ?_⟩
  rintro ⟨pt, _, hmodel⟩
  have h := congrArg DecodedProfile.docURL hmodel
  change 0 = (PprofProfile.ofBytes hiddenDocUrl).docUrl at h
  rw [hdoc] at h
  cases h

end DecodedProfile

end PProfessor.Kit
