import PProfessor.Fallible
import PProfessor.PprofModel
import PProfessor.WireFormat

set_option autoImplicit false

/-!
# The pprof decoder

`Fields`, `read_varint`, `decode_packed` and the message decoders of
`src/pprof.rs`, as cursors into a byte list. Every loop is a total function: its
recursion is justified by the cursor moving forward.
-/
namespace PProfessor.Pprof
open Fallible WireFormat

abbrev Field := WireField

/-- `(0..=63).step_by(7)`. -/
def shifts : List ℕ := (List.range 10).map (7 * ·)

/-- The loop of `read_varint` over the shifts that are left. -/
def readVarintFrom (data : List UInt8) : List ℕ → ℕ → UInt64 → Except PprofError (UInt64 × ℕ)
  | [], _, _ => .error .varintOverflow
  | shift :: rest, offset, value =>
    match data[offset]? with
    | none => .error .truncatedVarint
    | some byte =>
      if shift = 63 ∧ byte > 1 then .error .varintOverflow
      else
        let value := value ||| (byte &&& 0x7f).toUInt64 <<< UInt64.ofNat shift
        if byte &&& 0x80 = 0 then .ok (value, offset + 1)
        else readVarintFrom data rest (offset + 1) value

/-- The value of the varint at `offset`, and the offset after it. -/
def readVarint (data : List UInt8) (offset : ℕ) : Except PprofError (UInt64 × ℕ) :=
  readVarintFrom data shifts offset 0

structure Fields where
  data : List UInt8
  offset : ℕ

namespace Fields

def new (data : List UInt8) : Fields := ⟨data, 0⟩

/-- Both the `usize` overflow of `offset + length` and an end past the data are
errors; the overflow is tested first and only changes the text. -/
def take (fields : Fields) (length : ℕ) : Except PprofError (List UInt8 × Fields) :=
  if fields.data.length < fields.offset + length then
    .error (if 2 ^ 64 ≤ fields.offset + length then .fieldLengthOverflow else .truncatedField)
  else
    .ok ((fields.data.drop fields.offset).take length,
      { fields with offset := fields.offset + length })

def next (fields : Fields) : Except PprofError (Option (Field × Fields)) :=
  if fields.offset = fields.data.length then .ok none
  else do
    let (tag, offset) ← readVarint fields.data fields.offset
    let number := (tag >>> 3).toNat
    if number = 0 then .error .fieldNumberZero
    else
      match (tag &&& 0x07).toNat with
      | 0 => do
        let (value, offset) ← readVarint fields.data offset
        .ok (some (⟨number, .varint value⟩, { fields with offset := offset }))
      | 1 => do
        let (_, rest) ← take { fields with offset := offset } 8
        .ok (some (⟨number, .fixed64⟩, rest))
      | 2 => do
        let (length, offset) ← readVarint fields.data offset
        let (payload, rest) ← take { fields with offset := offset } length.toNat
        .ok (some (⟨number, .bytes payload⟩, rest))
      | 5 => do
        let (_, rest) ← take { fields with offset := offset } 4
        .ok (some (⟨number, .fixed32⟩, rest))
      | wire => .error (.unsupportedWireType wire)

end Fields

/-! ## What a cursor reads -/

theorem getElem?_eq_some_iff_drop {data : List UInt8} {offset : ℕ} {byte : UInt8} :
    data[offset]? = some byte ↔ data.drop offset = byte :: data.drop (offset + 1) := by
  constructor
  · intro h
    obtain ⟨hlt, rfl⟩ := List.getElem?_eq_some_iff.mp h
    exact List.drop_eq_getElem_cons hlt
  · intro h
    have hz : (data.drop offset)[0]? = some byte := by rw [h]; rfl
    simpa using hz

theorem digit_lt {k : ℕ} {byte : UInt8} (hk : k ≤ 9)
    (hb : ¬(7 * k = 63 ∧ byte > 1)) : byte.toNat % 128 * 128 ^ k < 2 ^ 64 := by
  rcases Nat.lt_or_ge k 9 with h | h
  · have hd : byte.toNat % 128 ≤ 127 := by omega
    calc
      byte.toNat % 128 * 128 ^ k ≤ 127 * 128 ^ 8 :=
        Nat.mul_le_mul hd (Nat.pow_le_pow_right (by norm_num) (by omega))
      _ < 2 ^ 64 := by norm_num
  · have h9 : k = 9 := by omega
    subst h9
    have h1 : ¬byte > 1 := fun hc => hb ⟨rfl, hc⟩
    have h1' : byte.toNat ≤ 1 := by
      have := UInt8.not_lt.mp h1
      simpa using UInt8.le_iff_toNat_le.mp this
    have hd : byte.toNat % 128 ≤ 1 := by omega
    calc
      byte.toNat % 128 * 128 ^ 9 ≤ 1 * 128 ^ 9 := Nat.mul_le_mul_right _ hd
      _ < 2 ^ 64 := by norm_num

/-- After `k` digits with the value so far in `value`, the rest of the loop reads
the digits that are left. Induction on how many shifts are left. -/
theorem readVarintFrom_sound (data : List UInt8) (n k offset : ℕ) (value v : UInt64) (o : ℕ)
    (hk : k + n = 10) (hv : value.toNat < 128 ^ k)
    (h : readVarintFrom data ((List.range' k n).map (7 * ·)) offset value = .ok (v, o)) :
    ∃ bs d, data.drop offset = bs ++ data.drop o ∧ Varint bs d ∧ bs.length ≤ n ∧
      o = offset + bs.length ∧ v.toNat = value.toNat + 128 ^ k * d := by
  induction n generalizing k offset value with
  | zero => simp [readVarintFrom] at h
  | succ n ih =>
    rw [List.range'_succ, List.map_cons, readVarintFrom] at h
    cases hb : data[offset]? with
    | none => simp [hb] at h
    | some byte =>
      have hdrop := getElem?_eq_some_iff_drop.mp hb
      simp only [hb] at h
      split_ifs at h with ho hlast
      · have hd := digit_lt (by omega) ho
        have hval := or_shiftLeft_toNat (by omega) hv hd
        have hlt := (and_128_eq_zero_iff byte).mp hlast
        simp only [Except.ok.injEq, Prod.mk.injEq] at h
        obtain ⟨rfl, rfl⟩ := h
        refine ⟨[byte], byte.toNat, by simpa using hdrop, .last hlt, by simp, rfl, ?_⟩
        rw [hval, Nat.mod_eq_of_lt hlt, Nat.mul_comm]
      · have hd := digit_lt (by omega) ho
        have hval := or_shiftLeft_toNat (by omega) hv hd
        have hge : 128 ≤ byte.toNat := by
          by_contra hc
          exact hlast ((and_128_eq_zero_iff byte).mpr (by omega))
        have hbyte := byte.toNat_lt
        have hmod : byte.toNat % 128 = byte.toNat - 128 := by omega
        have hnext : (value ||| (byte &&& 0x7f).toUInt64 <<< UInt64.ofNat (7 * k)).toNat <
            128 ^ (k + 1) := by
          rw [hval, pow_succ]
          have hm : byte.toNat % 128 ≤ 127 := by omega
          have := Nat.mul_le_mul_right (128 ^ k) hm
          omega
        obtain ⟨bs, d, hbs, hdig, hlen, ho', hvv⟩ := ih (k + 1) _ _ (by omega) hnext h
        refine ⟨byte :: bs, byte.toNat - 128 + 128 * d, ?_, .more hge hdig, ?_, ?_, ?_⟩
        · rw [hdrop, hbs, List.cons_append]
        · simpa using hlen
        · rw [ho', List.length_cons]
          omega
        · rw [hvv, hval, hmod, pow_succ]
          ring

theorem readVarintFrom_complete (data : List UInt8) (n k offset : ℕ) (value : UInt64)
    (bs rest : List UInt8) (d : ℕ) (hk : k + n = 10) (hv : value.toNat < 128 ^ k)
    (hdrop : data.drop offset = bs ++ rest) (hdig : Varint bs d) (hlen : bs.length ≤ n)
    (hfit : value.toNat + 128 ^ k * d < 2 ^ 64) :
    readVarintFrom data ((List.range' k n).map (7 * ·)) offset value =
      .ok (UInt64.ofNat (value.toNat + 128 ^ k * d), offset + bs.length) := by
  induction n generalizing k offset value bs d with
  | zero =>
    have := hdig.length_pos
    omega
  | succ n ih =>
    have hone : ∀ byte : UInt8, byte.toNat * 128 ^ k < 2 ^ 64 → ¬(7 * k = 63 ∧ byte > 1) := by
      rintro byte hb ⟨h9, h1⟩
      have hk9 : k = 9 := by omega
      subst hk9
      have h2 : 1 < byte.toNat := UInt8.lt_iff_toNat_lt.mp h1
      have := Nat.mul_le_mul_right (128 ^ 9) h2
      norm_num at this hb
      omega
    rw [List.range'_succ, List.map_cons, readVarintFrom]
    cases hdig with
    | @last byte hlt =>
      have hb : data[offset]? = some byte := by
        have hz : (data.drop offset)[0]? = some byte := by rw [hdrop]; rfl
        simpa using hz
      have hle : byte.toNat * 128 ^ k < 2 ^ 64 := by
        rw [Nat.mul_comm]
        omega
      have hmod : byte.toNat % 128 = byte.toNat := Nat.mod_eq_of_lt hlt
      have hval := or_shiftLeft_toNat (by omega) hv (hmod.symm ▸ hle)
      simp only [hb, hone byte hle, ↓reduceIte, (and_128_eq_zero_iff byte).mpr hlt]
      rw [← UInt64.ofNat_toNat (x := value ||| _), hval, hmod, Nat.mul_comm]
      rfl
    | @more byte bs d hge hs =>
      have hb : data[offset]? = some byte := by
        have hz : (data.drop offset)[0]? = some byte := by rw [hdrop]; rfl
        simpa using hz
      have hbyte := byte.toNat_lt
      have hmod : byte.toNat % 128 = byte.toNat - 128 := by omega
      have hn : 0 < n := by
        have := hs.length_pos
        simp only [List.length_cons] at hlen
        omega
      have hexp : 128 ^ k * (byte.toNat - 128 + 128 * d) =
          (byte.toNat - 128) * 128 ^ k + 128 ^ (k + 1) * d := by
        rw [pow_succ]
        ring
      have hle : byte.toNat % 128 * 128 ^ k < 2 ^ 64 := by
        rw [hmod]
        omega
      have hval := or_shiftLeft_toNat (by omega) hv hle
      have hne : ¬(7 * k = 63 ∧ byte > 1) := fun h => by omega
      have hnz : ¬byte &&& 0x80 = 0 := fun h => by
        have := (and_128_eq_zero_iff byte).mp h
        omega
      have hnext : (value ||| (byte &&& 0x7f).toUInt64 <<< UInt64.ofNat (7 * k)).toNat <
          128 ^ (k + 1) := by
        have hm : byte.toNat % 128 ≤ 127 := by omega
        have := Nat.mul_le_mul_right (128 ^ k) hm
        rw [hval, pow_succ]
        omega
      have hrest : data.drop (offset + 1) = bs ++ rest := by
        have := getElem?_eq_some_iff_drop.mp hb
        rw [hdrop, List.cons_append] at this
        exact (List.cons.inj this).2.symm
      have hsum : (value ||| (byte &&& 0x7f).toUInt64 <<< UInt64.ofNat (7 * k)).toNat +
          128 ^ (k + 1) * d = value.toNat + 128 ^ k * (byte.toNat - 128 + 128 * d) := by
        rw [hval, hmod, hexp, Nat.add_assoc]
      have hrec := ih (k + 1) (offset + 1) _ bs d (by omega) hnext hrest hs
        (by simpa using hlen) (by rw [hsum]; exact hfit)
      simp only [hb, hne, ↓reduceIte, hnz]
      rw [hrec, hsum, List.length_cons, Nat.add_assoc, Nat.add_comm 1]

theorem readVarint_eq_ok_iff (data : List UInt8) (offset : ℕ) (v : UInt64) (o : ℕ) :
    readVarint data offset = .ok (v, o) ↔
      ∃ bs, data.drop offset = bs ++ data.drop o ∧ Varint64 bs v ∧ o = offset + bs.length := by
  have hshifts : shifts = (List.range' 0 10).map (7 * ·) := rfl
  unfold readVarint
  rw [hshifts]
  constructor
  · intro h
    obtain ⟨bs, d, hd, hdig, hlen, ho, hv⟩ :=
      readVarintFrom_sound data 10 0 offset 0 v o rfl (by decide) h
    have hvd : v.toNat = d := by simpa using hv
    rw [← hvd] at hdig
    exact ⟨bs, hd, .of_digits hdig hlen, ho⟩
  · rintro ⟨bs, hd, hv, rfl⟩
    have hfit := v.toNat_lt
    have h := readVarintFrom_complete data 10 0 offset 0 bs _ v.toNat rfl (by decide) hd hv.digits
      hv.length_le (by simpa using hfit)
    rw [h]
    simp

theorem readVarint_eq_ok_of_drop {data bs rest : List UInt8} {offset : ℕ} {v : UInt64}
    (hd : data.drop offset = bs ++ rest) (hv : Varint64 bs v) :
    readVarint data offset = .ok (v, offset + bs.length) := by
  refine (readVarint_eq_ok_iff data offset v _).mpr ⟨bs, ?_, hv, rfl⟩
  rw [← List.drop_drop, hd, List.drop_left]

theorem readVarint_progress {data : List UInt8} {offset o : ℕ} {v : UInt64}
    (h : readVarint data offset = .ok (v, o)) : offset < o ∧ o ≤ data.length := by
  obtain ⟨bs, hd, hv, rfl⟩ := (readVarint_eq_ok_iff data offset v o).mp h
  have hpos := hv.digits.length_pos
  have hl := congrArg List.length hd
  simp only [List.length_drop, List.length_append] at hl
  omega

namespace Fields

theorem take_sound {fields rest : Fields} {length : ℕ} {payload : List UInt8}
    (h : fields.take length = .ok (payload, rest)) :
    fields.data.drop fields.offset = payload ++ fields.data.drop (fields.offset + length) ∧
      payload.length = length ∧ rest = ⟨fields.data, fields.offset + length⟩ := by
  unfold take at h
  split_ifs at h with hend
  simp only [Except.ok.injEq, Prod.mk.injEq] at h
  obtain ⟨rfl, rfl⟩ := h
  refine ⟨?_, ?_, rfl⟩
  · rw [← List.drop_drop, List.take_append_drop]
  · simp only [List.length_take, List.length_drop]
    omega

theorem take_complete {data body rest : List UInt8} {offset length : ℕ}
    (hd : data.drop offset = body ++ rest) (hl : body.length = length)
    (ho : offset + length ≤ data.length) :
    take ⟨data, offset⟩ length = .ok (body, ⟨data, offset + length⟩) := by
  have htake : (data.drop offset).take length = body := by
    rw [hd, ← hl, List.take_left]
  unfold take
  rw [if_neg (by simpa using ho)]
  dsimp only
  rw [htake]

theorem next_eq_ok_none_iff (fields : Fields) :
    fields.next = .ok none ↔ fields.offset = fields.data.length := by
  unfold next
  split_ifs with h
  · simp [h]
  · simp only [h, iff_false]
    intro hc
    obtain ⟨⟨tag, offset⟩, _, hc⟩ := bind_eq_ok.mp hc
    dsimp only at hc
    split_ifs at hc
    split at hc
    all_goals first
      | (obtain ⟨⟨_, _⟩, _, hc⟩ := bind_eq_ok.mp hc
         first
          | cases hc
          | (obtain ⟨⟨_, _⟩, _, hc⟩ := bind_eq_ok.mp hc
             cases hc))
      | cases hc

/-- A field read from the cursor is a complete field of the grammar, and the
cursor moves past exactly its bytes. -/
theorem next_sound {fields rest : Fields} {field : Field}
    (h : fields.next = .ok (some (field, rest))) :
    ∃ bs, fields.data.drop fields.offset = bs ++ rest.data.drop rest.offset ∧
      IsField bs field ∧ rest = ⟨fields.data, fields.offset + bs.length⟩ := by
  unfold next at h
  split_ifs at h with hend
  · cases h
  obtain ⟨⟨tag, offset⟩, hread, h⟩ := bind_eq_ok.mp h
  obtain ⟨tagBytes, hdrop, htag, rfl⟩ := (readVarint_eq_ok_iff _ _ _ _).mp hread
  obtain ⟨hnum, hwire⟩ := tag_number_wire tag
  dsimp only at h
  split_ifs at h with hz
  have hTag : Tag tagBytes (tag >>> 3).toNat (tag &&& 0x07).toNat :=
    ⟨tag, htag, hnum.symm, hwire.symm, hz⟩
  split at h
  · rename_i hw
    obtain ⟨⟨value, offset⟩, hread, h⟩ := bind_eq_ok.mp h
    obtain ⟨body, hbody, hv, rfl⟩ := (readVarint_eq_ok_iff _ _ _ _).mp hread
    cases h
    refine ⟨tagBytes ++ body, ?_, .varint (hw ▸ hTag) hv, ?_⟩
    · rw [hdrop, hbody, List.append_assoc]
    · rw [List.length_append, Nat.add_assoc]
  · rename_i hw
    obtain ⟨⟨body, rest'⟩, ht, h⟩ := bind_eq_ok.mp h
    obtain ⟨hbody, hlen, rfl⟩ := take_sound ht
    cases h
    refine ⟨tagBytes ++ body, ?_, .fixed64 (hw ▸ hTag) hlen, ?_⟩
    · rw [hdrop, hbody, List.append_assoc]
    · rw [List.length_append, hlen, Nat.add_assoc]
  · rename_i hw
    obtain ⟨⟨length, offset⟩, hread, h⟩ := bind_eq_ok.mp h
    obtain ⟨size, hsize, hl, rfl⟩ := (readVarint_eq_ok_iff _ _ _ _).mp hread
    obtain ⟨⟨body, rest'⟩, ht, h⟩ := bind_eq_ok.mp h
    obtain ⟨hbody, hlen, rfl⟩ := take_sound ht
    cases h
    refine ⟨tagBytes ++ size ++ body, ?_, .bytes (hw ▸ hTag) hl hlen, ?_⟩
    · rw [hdrop, hsize, hbody, List.append_assoc, List.append_assoc]
    · simp only [List.length_append, hlen, Nat.add_assoc]
  · rename_i hw
    obtain ⟨⟨body, rest'⟩, ht, h⟩ := bind_eq_ok.mp h
    obtain ⟨hbody, hlen, rfl⟩ := take_sound ht
    cases h
    refine ⟨tagBytes ++ body, ?_, .fixed32 (hw ▸ hTag) hlen, ?_⟩
    · rw [hdrop, hbody, List.append_assoc]
    · rw [List.length_append, hlen, Nat.add_assoc]
  · cases h

/-- Every complete field of the grammar at the cursor is read. -/
theorem next_complete {fields : Fields} {bs rest : List UInt8} {field : Field}
    (hd : fields.data.drop fields.offset = bs ++ rest) (hf : IsField bs field) :
    fields.next = .ok (some (field, ⟨fields.data, fields.offset + bs.length⟩)) := by
  have hlt : fields.offset + bs.length ≤ fields.data.length := by
    have hl := congrArg List.length hd
    have := List.length_pos_iff.mpr hf.ne_nil
    simp only [List.length_drop, List.length_append] at hl
    omega
  have hne : ¬fields.offset = fields.data.length := by
    have := List.length_pos_iff.mpr hf.ne_nil
    omega
  unfold next
  rw [if_neg hne]
  cases hf with
  | @varint tagBytes body number v ht hv =>
    obtain ⟨tag, ht, rfl, hw, hz⟩ := ht
    rw [List.append_assoc] at hd
    obtain ⟨hnum, hwire⟩ := tag_number_wire tag
    have hbody : fields.data.drop (fields.offset + tagBytes.length) = body ++ rest := by
      rw [← List.drop_drop, hd, List.drop_left]
    simp only [readVarint_eq_ok_of_drop hd ht, bind, Except.bind, hnum, hz, ↓reduceIte, hwire, hw,
      readVarint_eq_ok_of_drop hbody hv, List.length_append, Nat.add_assoc]
  | @fixed64 tagBytes body number ht hb =>
    obtain ⟨tag, ht, rfl, hw, hz⟩ := ht
    rw [List.append_assoc] at hd
    obtain ⟨hnum, hwire⟩ := tag_number_wire tag
    have hbody : fields.data.drop (fields.offset + tagBytes.length) = body ++ rest := by
      rw [← List.drop_drop, hd, List.drop_left]
    have htake := take_complete hbody hb (by simp only [List.length_append] at hlt; omega)
    simp only [readVarint_eq_ok_of_drop hd ht, bind, Except.bind, hnum, hz, ↓reduceIte, hwire, hw,
      htake, List.length_append, hb, Nat.add_assoc]
  | @bytes tagBytes size body number n ht hn hb =>
    obtain ⟨tag, ht, rfl, hw, hz⟩ := ht
    rw [List.append_assoc, List.append_assoc] at hd
    obtain ⟨hnum, hwire⟩ := tag_number_wire tag
    have hsize : fields.data.drop (fields.offset + tagBytes.length) = size ++ (body ++ rest) := by
      rw [← List.drop_drop, hd, List.drop_left]
    have hbody : fields.data.drop (fields.offset + tagBytes.length + size.length) =
        body ++ rest := by
      rw [← List.drop_drop, hsize, List.drop_left]
    have htake := take_complete hbody hb (by simp only [List.length_append] at hlt; omega)
    simp only [readVarint_eq_ok_of_drop hd ht, bind, Except.bind, hnum, hz, ↓reduceIte, hwire, hw,
      readVarint_eq_ok_of_drop hsize hn, htake]
    simp only [List.length_append, hb, Nat.add_assoc]
  | @fixed32 tagBytes body number ht hb =>
    obtain ⟨tag, ht, rfl, hw, hz⟩ := ht
    rw [List.append_assoc] at hd
    obtain ⟨hnum, hwire⟩ := tag_number_wire tag
    have hbody : fields.data.drop (fields.offset + tagBytes.length) = body ++ rest := by
      rw [← List.drop_drop, hd, List.drop_left]
    have htake := take_complete hbody hb (by simp only [List.length_append] at hlt; omega)
    simp only [readVarint_eq_ok_of_drop hd ht, bind, Except.bind, hnum, hz, ↓reduceIte, hwire, hw,
      htake, List.length_append, hb, Nat.add_assoc]

theorem next_progress {fields rest : Fields} {field : Field}
    (h : fields.next = .ok (some (field, rest))) :
    rest.data = fields.data ∧ fields.offset < rest.offset ∧
      rest.offset ≤ fields.data.length := by
  obtain ⟨bs, hd, hf, rfl⟩ := next_sound h
  have hpos := List.length_pos_iff.mpr hf.ne_nil
  have hl := congrArg List.length hd
  simp only [List.length_drop, List.length_append] at hl
  change _ ∧ fields.offset < fields.offset + bs.length ∧
    fields.offset + bs.length ≤ fields.data.length
  exact ⟨rfl, by omega, by omega⟩

/-- `while let Some(field) = fields.next()?`, with the loop body as `step`. -/
def fold {σ : Type} (step : σ → Field → Except PprofError σ) (fields : Fields) (state : σ) :
    Except PprofError σ :=
  match _ : fields.next with
  | .error e => .error e
  | .ok none => .ok state
  | .ok (some (field, rest)) =>
    match step state field with
    | .error e => .error e
    | .ok state => fold step rest state
termination_by fields.data.length - fields.offset
decreasing_by
  rename_i hnext
  obtain ⟨hdata, hlt, hle⟩ := next_progress hnext
  rw [hdata]
  omega

/-- The loop succeeds exactly on messages, and then runs its body over their
fields from left to right. -/
theorem fold_eq_ok_iff {σ : Type} (step : σ → Field → Except PprofError σ) (fields : Fields)
    (state result : σ) (ho : fields.offset ≤ fields.data.length) :
    fold step fields state = .ok result ↔
      ∃ fs, Message (fields.data.drop fields.offset) fs ∧ fs.foldlM step state = .ok result := by
  induction hn : fields.data.length - fields.offset using Nat.strong_induction_on
    generalizing fields state with
  | _ n ih =>
    subst hn
    constructor
    · intro h
      rw [fold] at h
      split at h
      · cases h
      · rename_i hnext
        have hend := (next_eq_ok_none_iff fields).mp hnext
        refine ⟨[], ?_, h⟩
        rw [hend, List.drop_length]
        exact .nil
      · rename_i field rest hnext
        split at h
        · cases h
        · rename_i state' hstep
          obtain ⟨hdata, hlt, hle⟩ := next_progress hnext
          obtain ⟨bs, hd, hf, _⟩ := next_sound hnext
          obtain ⟨fs, hfs, hfold⟩ := (ih _ (by rw [hdata]; omega) rest state'
            (by rw [hdata]; exact hle) rfl).mp h
          refine ⟨field :: fs, ?_, ?_⟩
          · rw [hd]
            exact .cons hf hfs
          · rw [List.foldlM_cons]
            exact bind_eq_ok.mpr ⟨state', hstep, hfold⟩
    · rintro ⟨fs, hm, hfold⟩
      generalize hbytes : fields.data.drop fields.offset = bytes at hm
      rw [fold]
      cases hm with
      | nil =>
        have hend : fields.offset = fields.data.length := by
          have := List.drop_eq_nil_iff.mp hbytes
          omega
        have hnext := (next_eq_ok_none_iff fields).mpr hend
        split
        · rename_i e he
          simp [hnext] at he
        · exact hfold
        · rename_i he
          simp [hnext] at he
      | @cons bs rest f fs hf hr =>
        have hnext := next_complete hbytes hf
        obtain ⟨state', hstep, hrest⟩ := bind_eq_ok.mp (List.foldlM_cons.symm.trans hfold)
        obtain ⟨_, hlt, hle⟩ : _ ∧ fields.offset < fields.offset + bs.length ∧
          fields.offset + bs.length ≤ fields.data.length := next_progress hnext
        have hdrop : fields.data.drop (fields.offset + bs.length) = rest := by
          rw [← List.drop_drop, hbytes, List.drop_left]
        have hrec := (ih (fields.data.length - (fields.offset + bs.length)) (by omega)
          ⟨fields.data, fields.offset + bs.length⟩ state' hle rfl).mpr
          ⟨fs, by rw [hdrop]; exact hr, hrest⟩
        split
        · rename_i e he
          simp [hnext] at he
        · rename_i he
          simp [hnext] at he
        · rename_i field rest' he
          rw [hnext] at he
          simp only [Except.ok.injEq, Option.some.injEq, Prod.mk.injEq] at he
          obtain ⟨rfl, rfl⟩ := he
          rw [hstep]
          exact hrec

theorem fold_new_eq_ok_iff {σ : Type} (step : σ → Field → Except PprofError σ)
    (data : List UInt8) (state result : σ) :
    fold step (new data) state = .ok result ↔
      ∃ fs, Message data fs ∧ fs.foldlM step state = .ok result := by
  simpa [new] using fold_eq_ok_iff step (new data) state result (Nat.zero_le _)

end Fields

/-- The loop of `decode_packed` from `offset` on. -/
def decodePackedFrom {σ : Type} (data : List UInt8) (visit : σ → UInt64 → σ) (offset : ℕ)
    (state : σ) : Except PprofError σ :=
  if offset < data.length then
    match _ : readVarint data offset with
    | .error e => .error e
    | .ok (value, next) => decodePackedFrom data visit next (visit state value)
  else .ok state
termination_by data.length - offset
decreasing_by
  rename_i hread
  have := readVarint_progress hread
  omega

def decodePacked {σ : Type} (data : List UInt8) (visit : σ → UInt64 → σ) (state : σ) :
    Except PprofError σ :=
  decodePackedFrom data visit 0 state

theorem decodePackedFrom_eq_ok_iff {σ : Type} (data : List UInt8) (visit : σ → UInt64 → σ)
    (offset : ℕ) (state result : σ) :
    decodePackedFrom data visit offset state = .ok result ↔
      ∃ vs, Packed (data.drop offset) vs ∧ vs.foldl visit state = result := by
  induction hn : data.length - offset using Nat.strong_induction_on
    generalizing offset state with
  | _ n ih =>
    subst hn
    rw [decodePackedFrom]
    by_cases hlt : offset < data.length
    · rw [if_pos hlt]
      constructor
      · intro h
        split at h
        · cases h
        · rename_i value next hread
          obtain ⟨bs, hd, hv, _⟩ := (readVarint_eq_ok_iff _ _ _ _).mp hread
          have hp := readVarint_progress hread
          obtain ⟨vs, hvs, hfold⟩ := (ih _ (by omega) next _ rfl).mp h
          refine ⟨value :: vs, ?_, hfold⟩
          rw [hd]
          exact .cons hv hvs
      · rintro ⟨vs, hvs, hfold⟩
        generalize hbytes : data.drop offset = bytes at hvs
        cases hvs with
        | nil =>
          have := List.drop_eq_nil_iff.mp hbytes
          omega
        | @cons bs rest v vs hv hr =>
          have hread := readVarint_eq_ok_of_drop hbytes hv
          have hp := readVarint_progress hread
          have hdrop : data.drop (offset + bs.length) = rest := by
            rw [← List.drop_drop, hbytes, List.drop_left]
          split
          · rename_i e he
            simp [hread] at he
          · rename_i value next he
            rw [hread] at he
            simp only [Except.ok.injEq, Prod.mk.injEq] at he
            obtain ⟨rfl, rfl⟩ := he
            exact (ih _ (by omega) _ _ rfl).mpr ⟨vs, by rw [hdrop]; exact hr, hfold⟩
    · have hnil : data.drop offset = [] := List.drop_eq_nil_iff.mpr (by omega)
      rw [if_neg hlt, hnil]
      constructor
      · intro h
        exact ⟨[], .nil, Except.ok.inj h⟩
      · rintro ⟨vs, hvs, rfl⟩
        rw [hvs.unique .nil]
        rfl

theorem decodePacked_eq_ok_iff {σ : Type} (data : List UInt8) (visit : σ → UInt64 → σ)
    (state result : σ) :
    decodePacked data visit state = .ok result ↔
      ∃ vs, Packed data vs ∧ vs.foldl visit state = result :=
  decodePackedFrom_eq_ok_iff data visit 0 state result

def ValueType.setField (value : ValueType) (field : Field) : ValueType :=
  match field.number, field.value with
  | 1, .varint decoded => { value with type := decoded }
  | 2, .varint decoded => { value with unit := decoded }
  | _, _ => value

def ValueType.decode (data : List UInt8) : Except PprofError ValueType :=
  (Fields.new data).fold (fun value field => .ok (value.setField field)) default

def Line.setField (line : Line) (field : Field) : Line :=
  match field.number, field.value with
  | 1, .varint value => { line with functionId := value }
  | 2, .varint value => { line with line := value.toInt64 }
  | 3, .varint value => { line with column := value.toInt64 }
  | _, _ => line

def Line.decode (data : List UInt8) : Except PprofError Line :=
  (Fields.new data).fold (fun line field => .ok (line.setField field)) default

def Location.readField (location : Location) (field : Field) : Except PprofError Location :=
  match field.number, field.value with
  | 1, .varint value => .ok { location with id := value }
  | 2, .varint value => .ok { location with mappingId := value }
  | 3, .varint value => .ok { location with address := value }
  | 4, .bytes value => do
    let line ← Line.decode value
    .ok { location with lines := location.lines ++ [line] }
  | 5, .varint value => .ok { location with isFolded := value ≠ 0 }
  | _, _ => .ok location

def Location.decode (data : List UInt8) : Except PprofError Location :=
  (Fields.new data).fold Location.readField default

def Mapping.setField (mapping : Mapping) (field : Field) : Mapping :=
  match field.value with
  | .varint value =>
    match field.number with
    | 1 => { mapping with id := value }
    | 2 => { mapping with memoryStart := value }
    | 3 => { mapping with memoryLimit := value }
    | 4 => { mapping with fileOffset := value }
    | 5 => { mapping with filename := value }
    | 6 => { mapping with buildId := value }
    | 7 => { mapping with hasFunctions := value ≠ 0 }
    | 8 => { mapping with hasFilenames := value ≠ 0 }
    | 9 => { mapping with hasLineNumbers := value ≠ 0 }
    | 10 => { mapping with hasInlineFrames := value ≠ 0 }
    | _ => mapping
  | _ => mapping

def Mapping.decode (data : List UInt8) : Except PprofError Mapping :=
  (Fields.new data).fold (fun mapping field => .ok (mapping.setField field)) default

def Function.setField (function : Function) (field : Field) : Function :=
  match field.value with
  | .varint value =>
    match field.number with
    | 1 => { function with id := value }
    | 2 => { function with name := value }
    | 3 => { function with systemName := value }
    | 4 => { function with filename := value }
    | 5 => { function with startLine := value.toInt64 }
    | _ => function
  | _ => function

def Function.decode (data : List UInt8) : Except PprofError Function :=
  (Fields.new data).fold (fun function field => .ok (function.setField field)) default

def Label.setField (label : Label) (field : Field) : Label :=
  match field.value with
  | .varint value =>
    match field.number with
    | 1 => { label with key := value }
    | 2 => { label with strIndex := value }
    | 3 => { label with num := value.toInt64 }
    | 4 => { label with numUnit := value }
    | _ => label
  | _ => label

def Label.decode (data : List UInt8) : Except PprofError Label :=
  (Fields.new data).fold (fun label field => .ok (label.setField field)) default

def Sample.readField (sample : Sample) (field : Field) : Except PprofError Sample :=
  match field.number, field.value with
  | 1, .bytes value =>
    decodePacked value
      (fun (s : Sample) v => { s with locationIds := s.locationIds ++ [v] }) sample
  | 1, .varint value => .ok { sample with locationIds := sample.locationIds ++ [value] }
  | 2, .bytes value =>
    decodePacked value
      (fun (s : Sample) v => { s with values := s.values ++ [v.toInt64] }) sample
  | 2, .varint value => .ok { sample with values := sample.values ++ [value.toInt64] }
  | 3, .bytes value => do
    let label ← Label.decode value
    .ok { sample with labels := sample.labels ++ [label] }
  | _, _ => .ok sample

def Sample.decode (data : List UInt8) : Except PprofError Sample :=
  (Fields.new data).fold Sample.readField default

def PprofProfile.readField (profile : PprofProfile) (field : Field) :
    Except PprofError PprofProfile :=
  match field.number, field.value with
  | 1, .bytes value => do
    let valueType ← ValueType.decode value
    .ok { profile with valueTypes := profile.valueTypes ++ [valueType] }
  | 2, .bytes value => do
    let sample ← Sample.decode value
    .ok { profile with samples := profile.samples ++ [sample] }
  | 3, .bytes value => do
    let mapping ← Mapping.decode value
    .ok { profile with mappings := profile.mappings ++ [mapping] }
  | 4, .bytes value => do
    let location ← Location.decode value
    .ok { profile with locations := profile.locations ++ [location] }
  | 5, .bytes value => do
    let function ← Function.decode value
    .ok { profile with functions := profile.functions ++ [function] }
  | 6, .bytes value =>
    match fromUtf8 value with
    | none => .error .invalidUtf8
    | some s => .ok { profile with strings := profile.strings.push s }
  | 7, .varint value => .ok { profile with dropFrames := value }
  | 8, .varint value => .ok { profile with keepFrames := value }
  | 9, .varint value => .ok { profile with timeNanos := value.toInt64 }
  | 10, .varint value => .ok { profile with durationNanos := value.toInt64 }
  | 11, .bytes value => do
    let periodType ← ValueType.decode value
    .ok { profile with periodType := periodType }
  | 12, .varint value => .ok { profile with period := value.toInt64 }
  | 13, .bytes value =>
    decodePacked value
      (fun (p : PprofProfile) v => { p with comments := p.comments ++ [v] }) profile
  | 13, .varint value => .ok { profile with comments := profile.comments ++ [value] }
  | 14, .varint value => .ok { profile with defaultSampleType := value }
  | 15, .varint value => .ok { profile with docUrl := value }
  | _, _ => .ok profile

/-- Decode a raw (uncompressed) pprof protobuf into the canonical model. -/
def PprofProfile.decode (data : List UInt8) : Except PprofError PprofProfile := do
  let profile ← (Fields.new data).fold PprofProfile.readField (.withStrings .empty)
  let strings ← StringTable.fromStrings profile.strings.strings
  .ok { profile with strings := strings }

end PProfessor.Pprof
