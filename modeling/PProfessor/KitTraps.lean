import PProfessor.Fallible
import PProfessor.KitDecoder

set_option autoImplicit false

/-!
# When the app's decoder traps

The decoder walks from header to header. It traps exactly when the walk reaches
a header whose field number does not fit `UInt32`, or whose payload would end
beyond `Int.max`, in the message itself or in a nested message it decodes.
-/
namespace PProfessor.Kit
open Fallible Pprof WireFormat

/-- No addition traps. -/
abbrev NoOverflow {α : Type} (x : Except Trap α) : Prop := Throws (fun e => e ≠ Trap.intOverflow) x

theorem noOverflow_error_iff {α : Type} {e : Trap} :
    NoOverflow (.error e : Except Trap α) ↔ e ≠ .intOverflow := Throws.error_iff

theorem not_noOverflow {α : Type} {x : Except Trap α} (h : x = .error .intOverflow) :
    ¬NoOverflow x := fun hx => hx _ h rfl

section Headers
variable (data : List UInt8) (i : ℕ)

def fieldNumberAt : ℕ := (decodeVarint data i).1.toNat / 8

def wireTypeAt : ℕ := (decodeVarint data i).1.toNat % 8

def bodyAt : ℕ := i + (decodeVarint data i).2

def lengthAt : ℕ := (decodeVarint data (bodyAt data i)).1.toNat

def payloadAt : ℕ := bodyAt data i + (decodeVarint data (bodyAt data i)).2

def varintEnd : ℕ := bodyAt data i + varintExtent (data.drop (bodyAt data i))

end Headers

/-- The header the walk goes to next. It stops at other wire types and at a
payload that is cut off. -/
inductive NextHeader (data : List UInt8) (i : ℕ) : ℕ → Prop
  | varint (hi : i < data.length) (hw : wireTypeAt data i = 0) :
      NextHeader data i (varintEnd data i)
  | bytes (hi : i < data.length) (hw : wireTypeAt data i = 2)
      (hend : payloadAt data i + lengthAt data i ≤ data.length) :
      NextHeader data i (payloadAt data i + lengthAt data i)

structure HeaderFits (nested : ℕ → List UInt8 → Prop) (data : List UInt8) (i : ℕ) : Prop where
  number : fieldNumberAt data i < 2 ^ 32
  extent : wireTypeAt data i = 2 → payloadAt data i + lengthAt data i < 2 ^ 63
  payload : wireTypeAt data i = 2 → payloadAt data i + lengthAt data i ≤ data.length →
    nested (fieldNumberAt data i) ((data.drop (payloadAt data i)).take (lengthAt data i))

/-- Every header the walk reaches from position `i` fits. -/
def HeadersFitFrom (nested : ℕ → List UInt8 → Prop) (data : List UInt8) (i : ℕ) : Prop :=
  ∀ j, Relation.ReflTransGen (NextHeader data) i j → j < data.length → HeaderFits nested data j

def HeadersFit (nested : ℕ → List UInt8 → Prop) (data : List UInt8) : Prop :=
  HeadersFitFrom nested data 0

theorem headersFitFrom_of_le {nested : ℕ → List UInt8 → Prop} {data : List UInt8} {i : ℕ}
    (hi : data.length ≤ i) : HeadersFitFrom nested data i := by
  intro j hj hlt
  rcases Relation.ReflTransGen.cases_head hj with rfl | ⟨k, hk, _⟩
  · omega
  · cases hk <;> omega

theorem headersFitFrom_iff {nested : ℕ → List UInt8 → Prop} {data : List UInt8} {i : ℕ}
    (hi : i < data.length) :
    HeadersFitFrom nested data i ↔
      HeaderFits nested data i ∧ ∀ j, NextHeader data i j → HeadersFitFrom nested data j := by
  constructor
  · intro h
    exact ⟨h i .refl hi, fun j hj k hk => h k (.head hj hk)⟩
  · rintro ⟨h, hnext⟩ j hj hlt
    rcases Relation.ReflTransGen.cases_head hj with rfl | ⟨k, hk, hkj⟩
    · exact h
    · exact hnext k hk j hkj hlt

theorem readField_eq {data : List UInt8} {i : ℕ} (hi : i < data.length) :
    readField data i =
      if 2 ^ 32 ≤ fieldNumberAt data i then .error .uint32Conversion
      else if wireTypeAt data i = 0 then
        .ok (some ⟨fieldNumberAt data i, .varint,
          (data.drop (bodyAt data i)).take (varintExtent (data.drop (bodyAt data i))),
          varintEnd data i⟩)
      else if wireTypeAt data i = 2 then
        if 2 ^ 63 ≤ lengthAt data i then .error .intConversion
        else if 2 ^ 63 ≤ payloadAt data i + lengthAt data i then .error .intOverflow
        else if payloadAt data i + lengthAt data i ≤ data.length then
          .ok (some ⟨fieldNumberAt data i, .lengthDelimited,
            (data.drop (payloadAt data i)).take (lengthAt data i),
            payloadAt data i + lengthAt data i⟩)
        else .ok none
      else .ok none := by
  obtain ⟨hnum, hwire⟩ := tag_number_wire (decodeVarint data i).1
  obtain ⟨hle, _⟩ := decodeVarint_consumed data i hi.le
  unfold readField
  simp only [hnum, hwire]
  refine if_congr Iff.rfl rfl ?_
  generalize hw : wireTypeAt data i = wire
  rw [wireTypeAt] at hw
  rw [hw]
  obtain _ | _ | _ | wire := wire
  · exact readVarintField_eq data _ _ hle
  · rfl
  · exact readBytesField_eq data _ _
  · rfl

/-- The loop runs without a trap exactly when every header it reaches fits. The
visitor may trap on the payloads that `nested` rejects; `keep` is what the
visitor's state always satisfies. -/
theorem decodeProtobufFrom_ok_iff {σ : Type}
    {visitor : σ → ℕ → WireType → List UInt8 → Except Trap σ} {nested : ℕ → List UInt8 → Prop}
    (keep : σ → Prop)
    (hvisit : ∀ s n w v, keep s →
      ((∃ s', visitor s n w v = .ok s') ↔ (w = .lengthDelimited → nested n v)))
    (hkeep : ∀ s n w v s', keep s → visitor s n w v = .ok s' → keep s')
    (data : List UInt8) (i : ℕ) (s : σ) (hs : keep s) :
    (∃ s', decodeProtobufFrom visitor data i s = .ok s') ↔ HeadersFitFrom nested data i := by
  induction hn : data.length - i using Nat.strong_induction_on generalizing i s with
  | _ n ih =>
  subst hn
  by_cases hi : i < data.length
  swap
  · rw [decodeProtobufFrom_done (Nat.le_of_not_lt hi)]
    simp [headersFitFrom_of_le (Nat.le_of_not_lt hi)]
  -- one visited field, then the rest of the walk
  have hgo : ∀ field : VisitedField, readField data i = .ok (some field) →
      ((∃ s', decodeProtobufFrom visitor data i s = .ok s') ↔
        (field.wireType = .lengthDelimited → nested field.number field.value) ∧
          HeadersFitFrom nested data field.next) := by
    intro field hread
    obtain ⟨hlt, hle⟩ := readField_progress hi hread
    rw [← hvisit s field.number field.wireType field.value hs, decodeProtobufFrom_visit hi hread]
    cases hv : visitor s field.number field.wireType field.value with
    | error trap => simp
    | ok s' =>
      have hrec := ih _ (by omega) field.next s' (hkeep _ _ _ _ _ hs hv) rfl
      simp [hrec]
  have htrap : ∀ trap, readField data i = .error trap →
      ¬∃ s', decodeProtobufFrom visitor data i s = .ok s' := by
    intro trap hread
    rw [decodeProtobufFrom_error hi hread]
    simp
  have hstop : readField data i = .ok none →
      ∃ s', decodeProtobufFrom visitor data i s = .ok s' :=
    fun hread => ⟨s, decodeProtobufFrom_stop hi hread⟩
  have hread := readField_eq hi
  rw [headersFitFrom_iff hi]
  by_cases hnum : 2 ^ 32 ≤ fieldNumberAt data i
  · rw [if_pos hnum] at hread
    constructor
    · intro h
      exact absurd h (htrap _ hread)
    · rintro ⟨h, _⟩
      exact absurd h.number (by omega)
  rw [if_neg hnum] at hread
  by_cases h0 : wireTypeAt data i = 0
  · rw [if_pos h0] at hread
    rw [hgo _ hread]
    constructor
    · rintro ⟨_, h⟩
      refine ⟨⟨by omega, by omega, by omega⟩, ?_⟩
      intro j hj
      cases hj with
      | varint _ _ => exact h
      | bytes _ hw _ => omega
    · rintro ⟨_, h⟩
      exact ⟨nofun, h _ (.varint hi h0)⟩
  rw [if_neg h0] at hread
  by_cases h2 : wireTypeAt data i = 2
  swap
  · rw [if_neg h2] at hread
    refine iff_of_true (hstop hread) ⟨⟨by omega, by omega, by omega⟩, ?_⟩
    intro j hj
    cases hj <;> omega
  rw [if_pos h2] at hread
  by_cases hext : 2 ^ 63 ≤ payloadAt data i + lengthAt data i
  · have herr : ∃ trap, readField data i = .error trap := by
      rw [hread, if_pos hext]
      split_ifs
      · exact ⟨_, rfl⟩
      · exact ⟨_, rfl⟩
    obtain ⟨trap, herr⟩ := herr
    constructor
    · intro h
      exact absurd h (htrap trap herr)
    · rintro ⟨h, _⟩
      exact absurd (h.extent h2) (by omega)
  rw [if_neg (show ¬2 ^ 63 ≤ lengthAt data i by omega), if_neg hext] at hread
  by_cases hend : payloadAt data i + lengthAt data i ≤ data.length
  · rw [if_pos hend] at hread
    rw [hgo _ hread]
    constructor
    · rintro ⟨hp, h⟩
      refine ⟨⟨by omega, fun _ => by omega, fun _ _ => hp rfl⟩, ?_⟩
      intro j hj
      cases hj with
      | varint _ hw => omega
      | bytes _ _ _ => exact h
    · rintro ⟨hfit, h⟩
      exact ⟨fun _ => hfit.payload h2 hend, h _ (.bytes hi h2 hend)⟩
  · rw [if_neg hend] at hread
    refine iff_of_true (hstop hread) ⟨⟨by omega, fun _ => by omega, fun _ h => absurd h hend⟩, ?_⟩
    intro j hj
    cases hj with
    | varint _ hw => omega
    | bytes _ _ h => exact absurd h hend

def FlatFits (data : List UInt8) : Prop := HeadersFit (fun _ _ => True) data

def LocationFits (data : List UInt8) : Prop :=
  HeadersFit (fun number payload => number = 4 → FlatFits payload) data

def SampleFits (data : List UInt8) : Prop :=
  HeadersFit (fun number payload => number = 3 → FlatFits payload) data

def ProfileFits (data : List UInt8) : Prop :=
  HeadersFit (fun number payload =>
    (number = 1 ∨ number = 3 ∨ number = 5 ∨ number = 11 → FlatFits payload) ∧
    (number = 2 → SampleFits payload) ∧ (number = 4 → LocationFits payload)) data

theorem flat_ok_iff {σ : Type} {visitor : σ → ℕ → WireType → List UInt8 → Except Trap σ}
    (keep : σ → Prop) (hvisit : ∀ s n w v, keep s → ∃ s', visitor s n w v = .ok s' ∧ keep s')
    (data : List UInt8) (s : σ) (hs : keep s) :
    (∃ s', decodeProtobuf visitor data s = .ok s') ↔ FlatFits data := by
  apply decodeProtobufFrom_ok_iff keep _ _ data 0 s hs
  · intro s n w v hs
    obtain ⟨s', hs', _⟩ := hvisit s n w v hs
    simp [hs']
  · intro s n w v s' hs h
    obtain ⟨t, ht, hk⟩ := hvisit s n w v hs
    rw [ht] at h
    cases h
    exact hk

theorem decodeValueType_ok_iff (data : List UInt8) :
    (∃ vt, decodeValueType data = .ok vt) ↔ FlatFits data := by
  apply flat_ok_iff (fun _ => True) _ _ _ trivial
  intro vt n w v _
  unfold visitValueType
  cases w with
  | varint => dsimp only; split <;> simp
  | lengthDelimited => simp

theorem decodeLine_ok_iff (data : List UInt8) :
    (∃ line, decodeLine data = .ok line) ↔ FlatFits data := by
  apply flat_ok_iff (fun _ => True) _ _ _ trivial
  intro line n w v _
  unfold visitLine
  cases w with
  | varint => dsimp only; split <;> simp
  | lengthDelimited => simp

theorem decodeFunction_ok_iff (data : List UInt8) :
    (∃ function, decodeFunction data = .ok function) ↔ FlatFits data := by
  apply flat_ok_iff (fun _ => True) _ _ _ trivial
  intro function n w v _
  unfold visitFunction
  cases w with
  | varint => dsimp only; split <;> simp
  | lengthDelimited => simp

theorem decodeLabel_ok_iff (data : List UInt8) :
    (∃ label, decodeLabel data = .ok label) ↔ FlatFits data := by
  apply flat_ok_iff (fun _ => True) _ _ _ trivial
  intro label n w v _
  unfold visitLabel
  cases w with
  | varint => dsimp only; split <;> simp
  | lengthDelimited => simp

theorem decodeMapping_ok_iff (data : List UInt8) :
    (∃ mapping, decodeMapping data = .ok mapping) ↔ FlatFits data := by
  have hfold : (∃ values, decodeProtobuf visitMapping data (List.replicate 10 0) = .ok values) ↔
      FlatFits data := by
    apply flat_ok_iff (fun values => values.length = 10) _ _ _ (List.length_replicate ..)
    intro values n w v hlen
    unfold visitMapping
    split_ifs with hfield hidx
    · exact ⟨_, rfl, by rw [List.length_set, hlen]⟩
    · omega
    · exact ⟨values, rfl, hlen⟩
  rw [← hfold]
  unfold decodeMapping
  cases decodeProtobuf visitMapping data (List.replicate 10 0) with
  | error trap => simp [bind, Except.bind]
  | ok values => simp [bind, Except.bind]

theorem bind_ok_iff {α β : Type} (x : Except Trap α) (f : α → β) :
    (∃ b, (do let a ← x; .ok (f a) : Except Trap β) = .ok b) ↔ ∃ a, x = .ok a := by
  cases x with
  | error trap => simp [bind, Except.bind]
  | ok a => simp [bind, Except.bind]

theorem decodeLocation_ok_iff (data : List UInt8) :
    (∃ location, decodeLocation data = .ok location) ↔ LocationFits data := by
  apply decodeProtobufFrom_ok_iff (fun _ => True) _ (fun _ _ _ _ _ _ _ => trivial) data 0 _ trivial
  intro location n w v _
  unfold visitLocation
  split
  case h_4 =>
    rw [bind_ok_iff, decodeLine_ok_iff]
    simp
  all_goals grind

theorem decodeSample_ok_iff (data : List UInt8) :
    (∃ sample, decodeSample data = .ok sample) ↔ SampleFits data := by
  apply decodeProtobufFrom_ok_iff (fun _ => True) _ (fun _ _ _ _ _ _ _ => trivial) data 0 _ trivial
  intro sample n w v _
  unfold visitSample
  cases w with
  | varint => simp
  | lengthDelimited =>
    dsimp only
    split
    case h_3 =>
      rw [bind_ok_iff, decodeLabel_ok_iff]
      simp
    all_goals grind

namespace DecodedProfile

theorem decode_ok_iff (text : List UInt8 → Option String) (data : List UInt8) :
    (∃ profile, decode text data = .ok profile) ↔ ProfileFits data := by
  apply decodeProtobufFrom_ok_iff (fun _ => True) _ (fun _ _ _ _ _ _ _ => trivial) data 0 _ trivial
  intro profile n w v _
  unfold visit
  split
  case h_1 =>
    rw [bind_ok_iff, decodeValueType_ok_iff]
    simp
  case h_2 =>
    rw [bind_ok_iff, decodeSample_ok_iff]
    simp
  case h_3 =>
    rw [bind_ok_iff, decodeMapping_ok_iff]
    simp
  case h_4 =>
    rw [bind_ok_iff, decodeLocation_ok_iff]
    simp
  case h_5 =>
    rw [bind_ok_iff, decodeFunction_ok_iff]
    simp
  case h_15 =>
    rw [bind_ok_iff, decodeValueType_ok_iff]
    simp
  all_goals grind

theorem string_ok_iff (profile : DecodedProfile) (index : UInt64) :
    (∃ s, profile.string index = .ok s) ↔ index.toNat < 2 ^ 63 := by
  unfold string
  split_ifs with htrap hout
  · simp only [exists_false, false_iff]
    omega
  · simp only [Except.ok.injEq, exists_eq', true_iff]
    omega
  · rw [List.getElem?_eq_getElem (by omega)]
    simp only [Except.ok.injEq, exists_eq', true_iff]
    omega

theorem string_noOverflow {profile : DecodedProfile} (index : UInt64) :
    NoOverflow (profile.string index) := by
  intro e he
  unfold string at he
  split_ifs at he
  · cases he
    decide
  · split at he
    · cases he
    · cases he
      decide

/-- Decoding returns and the string at an index is returned exactly when every
header reached fits and the index is an `Int`. -/
theorem decode_and_string_return_iff (text : List UInt8 → Option String) (data : List UInt8)
    (index : UInt64) :
    (∃ profile, decode text data = .ok profile ∧ ∃ s, profile.string index = .ok s) ↔
      ProfileFits data ∧ index.toNat < 2 ^ 63 := by
  rw [← decode_ok_iff text data]
  constructor
  · rintro ⟨profile, hp, hs⟩
    exact ⟨⟨profile, hp⟩, (string_ok_iff profile index).mp hs⟩
  · rintro ⟨⟨profile, hp⟩, hi⟩
    exact ⟨profile, hp, (string_ok_iff profile index).mpr hi⟩

def hugeFieldNumber : List UInt8 := [0x80, 0x80, 0x80, 0x80, 0x80, 0x01]

def hugeLength : List UInt8 := [0x0A, 0xFF, 0xFF, 0xFF, 0xFF, 0xFF, 0xFF, 0xFF, 0xFF, 0xFF, 0x01]

theorem decode_traps :
    decode fromUtf8 hugeFieldNumber = .error .uint32Conversion ∧
    decode fromUtf8 hugeLength = .error .intConversion ∧
    decode fromUtf8 [] = .ok new ∧ new.string 0x8000000000000000 = .error .intConversion :=
  ⟨decodeProtobufFrom_error (by decide) rfl, decodeProtobufFrom_error (by decide) rfl,
    decodeProtobufFrom_done le_rfl, rfl⟩

end DecodedProfile

end PProfessor.Kit
