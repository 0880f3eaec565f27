import PProfessor.PprofRoundTrip
import PProfessor.ReaderAgreement

set_option autoImplicit false

/-!
# The app reads what the encoder writes

The Rust encoder writes varints and payloads only, packs the lists of a sample
once and keeps every extent below `Int.max`, so the app's decoder neither traps on
an encoding nor misses a field of it.
-/
namespace PProfessor.Kit
open Fallible Pprof WireFormat

/-- A field with a small number that is a varint or a payload that `nested` allows. -/
def Written (nested : ℕ → List UInt8 → Prop) (field : WireField) : Prop :=
  field.number < 16 ∧
    match field.value with
    | .varint _ => True
    | .bytes payload => nested field.number payload
    | _ => False

structure Tidy (nested : ℕ → List UInt8 → Prop) (data : List UInt8) : Prop where
  length : data.length < 2 ^ 63
  message : ∃ fs, Message data fs ∧ ∀ field ∈ fs, Written nested field

/-- The walk over a message goes from field to field. -/
theorem headersFitFrom_of_message {nested : ℕ → List UInt8 → Prop} {data : List UInt8}
    (hlen : data.length < 2 ^ 63) {fs : List WireField} {i : ℕ} (h : Message (data.drop i) fs)
    (hfs : ∀ field ∈ fs, Written nested field) : HeadersFitFrom nested data i := by
  generalize hd : data.drop i = bytes at h
  induction h generalizing i with
  | nil => exact headersFitFrom_of_le (List.drop_eq_nil_iff.mp hd)
  | @cons bs rest f fs hf hr ih =>
    have hi : i < data.length := by
      by_contra hc
      rw [List.drop_eq_nil_iff.mpr (by omega)] at hd
      exact hf.ne_nil (List.append_eq_nil_iff.mp hd.symm).1
    rw [List.forall_mem_cons] at hfs
    have hnext := ih hfs.2 (i := i + bs.length) (by rw [← List.drop_drop, hd, List.drop_left])
    have hdlen := congrArg List.length hd
    rw [List.length_drop, List.length_append] at hdlen
    obtain ⟨⟨hnumber, hvalue⟩, -⟩ := hfs
    rw [headersFitFrom_iff hi]
    cases hf with
    | @varint tag body number v ht hv =>
      rw [List.append_assoc] at hd
      obtain ⟨hn, hw, hb, hbody⟩ := header_of_tag hd ht
      have hend : varintEnd data i = i + (tag ++ body).length := by
        rw [varintEnd, hbody, varintExtent_of_varint hv.digits rest, hb, List.length_append,
          Nat.add_assoc]
      refine ⟨⟨?_, by omega, by omega⟩, ?_⟩
      · rw [hn]
        exact lt_trans hnumber (by norm_num)
      · intro j hj
        cases hj with
        | varint _ _ => rwa [hend]
        | bytes _ hw' _ => omega
    | @bytes tag size payload number n ht hv hp =>
      rw [List.append_assoc, List.append_assoc] at hd
      obtain ⟨hn, hw, hb, hbody⟩ := header_of_tag hd ht
      have hsize := decodeVarint_of_drop hbody hv
      have hl : lengthAt data i = payload.length := by rw [lengthAt, hsize, hp]
      have hpay : payloadAt data i = i + (tag.length + size.length) := by
        rw [payloadAt, hsize, hb, Nat.add_assoc]
      have hdrop : data.drop (payloadAt data i) = payload ++ rest := by
        rw [payloadAt, hsize, ← List.drop_drop, hbody, List.drop_left]
      have hend : payloadAt data i + lengthAt data i = i + (tag ++ size ++ payload).length := by
        rw [hpay, hl, List.length_append, List.length_append, Nat.add_assoc]
      refine ⟨⟨?_, fun _ => by omega, fun _ _ => ?_⟩, ?_⟩
      · rw [hn]
        exact lt_trans hnumber (by norm_num)
      · rw [hn, hdrop, hl, List.take_left]
        exact hvalue
      · intro j hj
        cases hj with
        | varint _ hw' => omega
        | bytes _ _ _ => rwa [hend]
    | fixed64 => exact hvalue.elim
    | fixed32 => exact hvalue.elim

namespace Tidy

variable {nested nested' : ℕ → List UInt8 → Prop} {data : List UInt8}

theorem headersFit (h : Tidy nested data) (hmono : ∀ n payload, nested n payload →
    nested' n payload) : HeadersFit nested' data := by
  obtain ⟨hlen, fs, hm, hfs⟩ := h
  refine headersFitFrom_of_message hlen (by simpa using hm : Message (data.drop 0) fs) ?_
  intro field hf
  obtain ⟨hn, hv⟩ := hfs field hf
  refine ⟨hn, ?_⟩
  split at hv
  · trivial
  · exact hmono _ _ hv
  · exact hv.elim

theorem payload (h : Tidy nested data) {field : WireField} (hf : field ∈ fieldsOf data)
    {bytes : List UInt8} (hv : field.value = .bytes bytes) : nested field.number bytes := by
  obtain ⟨-, fs, hm, hfs⟩ := h
  rw [hm.fieldsOf_eq] at hf
  have hw := (hfs field hf).2
  rwa [hv] at hw

theorem noFixedWidth (h : Tidy nested data) : DecodedProfile.NoFixedWidth data := by
  obtain ⟨-, fs, hm, hfs⟩ := h
  intro field hf
  rw [hm.fieldsOf_eq] at hf
  have hw := (hfs field hf).2
  unfold fixedWidth
  split at hw <;> simp_all

end Tidy

def FlatTidy (data : List UInt8) : Prop := Tidy (fun _ _ => True) data

def LocationTidy (data : List UInt8) : Prop :=
  Tidy (fun number payload => number = 4 → FlatTidy payload) data

def SampleTidy (data : List UInt8) : Prop :=
  Tidy (fun number payload => number = 3 → FlatTidy payload) data ∧ PackedOnce (fieldsOf data)

def ProfileTidy (data : List UInt8) : Prop :=
  Tidy (fun number payload =>
    (number = 1 ∨ number = 3 ∨ number = 5 ∨ number = 11 → FlatTidy payload) ∧
    (number = 2 → SampleTidy payload) ∧ (number = 4 → LocationTidy payload)) data

theorem FlatTidy.fits {data : List UInt8} (h : FlatTidy data) : FlatFits data :=
  h.headersFit fun _ _ h => h

theorem ProfileTidy.fits {data : List UInt8} (h : ProfileTidy data) : ProfileFits data := by
  refine h.headersFit fun _ payload hp => ⟨fun hn => (hp.1 hn).fits, fun hn => ?_, fun hn => ?_⟩
  · exact (hp.2.1 hn).1.headersFit fun _ _ hlabel hn' => (hlabel hn').fits
  · exact Tidy.headersFit (hp.2.2 hn) fun _ _ hline hn' => (hline hn').fits

theorem ProfileTidy.fixedFree {data : List UInt8} (h : ProfileTidy data) :
    DecodedProfile.FixedFree data := by
  refine ⟨Tidy.noFixedWidth h, ?_, ?_, ?_⟩
  · intro f hf payload hv hn
    exact Tidy.noFixedWidth ((Tidy.payload h hf hv).1 hn)
  · intro f hf payload hv hn
    have hs := ((Tidy.payload h hf hv).2.1 hn).1
    exact ⟨hs.noFixedWidth, fun g hg label hv' hn' => Tidy.noFixedWidth (hs.payload hg hv' hn')⟩
  · intro f hf payload hv hn
    have hl := (Tidy.payload h hf hv).2.2 hn
    exact ⟨Tidy.noFixedWidth hl,
      fun g hg line hv' hn' => Tidy.noFixedWidth (Tidy.payload hl hg hv' hn')⟩

theorem ProfileTidy.packedOnce {data : List UInt8} (h : ProfileTidy data) :
    DecodedProfile.SamplesPackedOnce data := by
  intro f hf
  have hmem : f ∈ fieldsOf data := (List.takeWhile_sublist _).subset hf
  unfold DecodedProfile.PackedSample
  split
  case h_1 number value payload hn hv =>
    have hs := (Tidy.payload h hmem hv).2.1 hn
    rw [DecodedProfile.beforeFixed_eq_self hs.1.noFixedWidth]
    exact hs.2
  case h_2 => trivial

theorem written_varintField {nested : ℕ → List UInt8 → Prop} (number : ℕ) (v : UInt64)
    (hn : number < 16) : ∀ field ∈ varintField number v, Written nested field :=
  forall_mem_varintField number v ⟨hn, trivial⟩

theorem written_payloadField {nested : ℕ → List UInt8 → Prop} (number : ℕ) (data : List UInt8)
    (hn : number < 16) (h : nested number data) :
    ∀ field ∈ payloadField number data, Written nested field :=
  forall_mem_payloadField number data ⟨hn, h⟩

theorem written_submessages {α : Type} {nested : ℕ → List UInt8 → Prop} (number : ℕ)
    (enc : α → List UInt8) (xs : List α) (hn : number < 16)
    (h : ∀ x ∈ xs, nested number (enc x)) :
    ∀ field ∈ xs.flatMap fun x => payloadField number (enc x), Written nested field :=
  forall_mem_submessages number enc xs fun x hx => ⟨hn, h x hx⟩

theorem valueType_tidy (vt : ValueType) (h : vt.encode.length < 2 ^ 63) : FlatTidy vt.encode := by
  refine ⟨h, vt.fields, vt.encode_message, ?_⟩
  unfold ValueType.fields
  simp only [List.forall_mem_append]
  exact ⟨written_varintField 1 _ (by decide), written_varintField 2 _ (by decide)⟩

theorem line_tidy (line : Line) (h : line.encode.length < 2 ^ 63) : FlatTidy line.encode := by
  refine ⟨h, line.fields, line.encode_message, ?_⟩
  unfold Line.fields
  simp only [List.forall_mem_append]
  refine ⟨⟨?_, ?_⟩, ?_⟩ <;> exact written_varintField _ _ (by decide)

theorem label_tidy (label : Label) (h : label.encode.length < 2 ^ 63) :
    FlatTidy label.encode := by
  refine ⟨h, label.fields, label.encode_message, ?_⟩
  unfold Label.fields
  simp only [List.forall_mem_append, and_assoc]
  refine ⟨?_, ?_, ?_, ?_⟩ <;> exact written_varintField _ _ (by decide)

theorem function_tidy (f : Function) (h : f.encode.length < 2 ^ 63) : FlatTidy f.encode := by
  refine ⟨h, f.fields, f.encode_message, ?_⟩
  unfold Function.fields
  simp only [List.forall_mem_append, and_assoc]
  refine ⟨?_, ?_, ?_, ?_, ?_⟩ <;> exact written_varintField _ _ (by decide)

theorem mapping_tidy (m : Mapping) (h : m.encode.length < 2 ^ 63) : FlatTidy m.encode := by
  refine ⟨h, m.fields, m.encode_message, ?_⟩
  unfold Mapping.fields
  simp only [List.forall_mem_append, and_assoc]
  refine ⟨?_, ?_, ?_, ?_, ?_, ?_, ?_, ?_, ?_, ?_⟩ <;> exact written_varintField _ _ (by decide)

theorem length_le_payloads {α : Type} (number : ℕ) (enc : α → List UInt8) {xs : List α} {x : α}
    (h : x ∈ xs) :
    (enc x).length ≤ (xs.flatMap fun x => encodeLengthDelimited number (enc x)).length :=
  (length_le_encodeLengthDelimited number (enc x)).trans
    (length_le_flatMap (fun x => encodeLengthDelimited number (enc x)) h)

theorem location_tidy (loc : Location) (h : loc.encode.length < 2 ^ 63) :
    LocationTidy loc.encode := by
  refine ⟨h, loc.fields, loc.encode_message (h.trans (by norm_num)), ?_⟩
  unfold Location.fields
  simp only [List.forall_mem_append, and_assoc]
  refine ⟨written_varintField 1 _ (by decide), written_varintField 2 _ (by decide),
    written_varintField 3 _ (by decide), ?_, written_varintField 5 _ (by decide)⟩
  refine written_submessages 4 _ _ (by decide) fun line hline _ => line_tidy line ?_
  have hle := length_le_payloads 4 Line.encode hline
  unfold Location.encode at h
  simp only [List.length_append] at h
  omega

theorem sample_packedOnce (s : Sample) : PackedOnce s.fields := by
  have hcount : ∀ n, n = 1 ∨ n = 2 → packedCount n s.fields ≤ 1 := by
    rintro n (rfl | rfl)
    all_goals
      unfold packedCount Sample.fields payloadField
      rw [List.countP_append, List.countP_append, List.countP_flatMap]
      have hz : ∀ xs : List Label, (xs.map fun label => 0).sum = 0 := by simp
      split_ifs <;> simp [Function.comp_def, apply_ite]
  refine ⟨hcount 1 (.inl rfl), hcount 2 (.inr rfl), ?_⟩
  intro field hf v hv
  have hbytes : ∀ field ∈ s.fields, ∃ payload, field.value = .bytes payload := by
    unfold Sample.fields
    simp only [List.forall_mem_append]
    exact ⟨⟨forall_mem_payloadField 1 _ ⟨_, rfl⟩, forall_mem_payloadField 2 _ ⟨_, rfl⟩⟩,
      forall_mem_submessages 3 _ _ fun _ _ => ⟨_, rfl⟩⟩
  obtain ⟨payload, hp⟩ := hbytes field hf
  rw [hp] at hv
  cases hv

theorem sample_tidy (s : Sample) (h : s.encode.length < 2 ^ 63) : SampleTidy s.encode := by
  have hm := s.encode_message (h.trans (by norm_num))
  refine ⟨⟨h, s.fields, hm, ?_⟩, ?_⟩
  · unfold Sample.fields
    simp only [List.forall_mem_append, and_assoc]
    refine ⟨written_payloadField 1 _ (by decide) (by simp),
      written_payloadField 2 _ (by decide) (by simp), ?_⟩
    refine written_submessages 3 _ _ (by decide) fun label hlabel _ => label_tidy label ?_
    have hle := length_le_payloads 3 Label.encode hlabel
    unfold Sample.encode at h
    simp only [List.length_append] at h
    omega
  · rw [hm.fieldsOf_eq]
    exact sample_packedOnce s

theorem profile_tidy (p : PprofProfile) (h : p.encode.length < 2 ^ 63) :
    ProfileTidy p.encode := by
  refine ⟨h, p.fields, p.encode_message (h.trans (by norm_num)), ?_⟩
  unfold PprofProfile.encode at h
  simp only [List.length_append] at h
  unfold PprofProfile.fields
  simp only [List.forall_mem_append, and_assoc]
  refine ⟨?_, ?_, ?_, ?_, ?_, ?_, written_varintField 7 _ (by decide),
    written_varintField 8 _ (by decide), written_varintField 9 _ (by decide),
    written_varintField 10 _ (by decide), ?_, written_varintField 12 _ (by decide), ?_,
    written_varintField 14 _ (by decide), written_varintField 15 _ (by decide)⟩
  · refine written_submessages 1 _ _ (by decide) fun vt hvt =>
      ⟨fun _ => valueType_tidy vt ?_, by simp, by simp⟩
    have hle := length_le_payloads 1 ValueType.encode hvt
    omega
  · refine written_submessages 2 _ _ (by decide) fun s hs =>
      ⟨by simp, fun _ => sample_tidy s ?_, by simp⟩
    have hle := length_le_payloads 2 Sample.encode hs
    omega
  · refine written_submessages 3 _ _ (by decide) fun m hm =>
      ⟨fun _ => mapping_tidy m ?_, by simp, by simp⟩
    have hle := length_le_payloads 3 Mapping.encode hm
    omega
  · refine written_submessages 4 _ _ (by decide) fun l hl =>
      ⟨by simp, by simp, fun _ => location_tidy l ?_⟩
    have hle := length_le_payloads 4 Location.encode hl
    omega
  · refine written_submessages 5 _ _ (by decide) fun f hf =>
      ⟨fun _ => function_tidy f ?_, by simp, by simp⟩
    have hle := length_le_payloads 5 Function.encode hf
    omega
  · intro field hf
    obtain ⟨s, _, hf⟩ := List.mem_flatMap.mp hf
    rw [List.mem_singleton.mp hf]
    exact ⟨show 6 < 16 by decide, by simp⟩
  · refine written_payloadField 11 _ (by decide)
      ⟨fun _ => valueType_tidy p.periodType ?_, by simp, by simp⟩
    have hle := length_le_encodeLengthDelimited 11 p.periodType.encode
    omega
  · intro field hf
    obtain ⟨c, _, hf⟩ := List.mem_flatMap.mp hf
    exact written_varintField 13 c (by decide) field hf

theorem DecodedProfile.decode_encode_of_head {text : List UInt8 → Option String}
    (htext : ∀ s, text (utf8 s) = some s) (p : PprofProfile)
    (hhead : p.strings.strings.head? = some "") (hl : p.encode.length < 2 ^ 63) :
    ∃ d, decode text p.encode = .ok d ∧
      d.Agrees { p.survivor with strings := .ofStrings p.strings.strings } := by
  have htidy := profile_tidy p hl
  obtain ⟨d, hd⟩ := (decode_ok_iff text p.encode).mpr htidy.fits
  exact ⟨d, hd, agrees_of_ok htext (Pprof.decode_encode_of_head p hhead (hl.trans (by norm_num)))
    htidy.packedOnce htidy.fixedFree hd⟩

/-- The app decodes an encoding to the model it came from, less the default
elements of repeated fields. -/
theorem DecodedProfile.decode_encode {text : List UInt8 → Option String}
    (htext : ∀ s, text (utf8 s) = some s) (p : PprofProfile) (hs : p.strings.Built)
    (hl : p.encode.length < 2 ^ 63) :
    ∃ d, decode text p.encode = .ok d ∧ d.Agrees p.survivor := by
  obtain ⟨d, hd, hagrees⟩ := decode_encode_of_head htext p hs.canonical.1 hl
  rw [← hs.eq_ofStrings] at hagrees
  exact ⟨d, hd, hagrees⟩

end PProfessor.Kit
