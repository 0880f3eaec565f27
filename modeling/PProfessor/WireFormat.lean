import Mathlib.Tactic

set_option autoImplicit false

/-!
# The protobuf wire format as a grammar

Base-128 varints, tagged fields, messages and packed lists as relations between
a byte list and what it spells. Nothing here reads bytes: a decoder is compared
with these relations, an encoder is shown to produce them.
-/
namespace PProfessor.WireFormat

/-- Base-128 digits, least significant first. Every byte but the last has its
high bit set. -/
inductive Varint : List UInt8 → ℕ → Prop
  | last {b : UInt8} (h : b.toNat < 128) : Varint [b] b.toNat
  | more {b : UInt8} {bs : List UInt8} {v : ℕ} (h : 128 ≤ b.toNat) (hs : Varint bs v) :
      Varint (b :: bs) (b.toNat - 128 + 128 * v)

structure Varint64 (bs : List UInt8) (v : UInt64) : Prop where
  digits : Varint bs v.toNat
  length_le : bs.length ≤ 10
  tenth_le : ∀ b, bs[9]? = some b → b.toNat ≤ 1

inductive WireValue where
  | varint (value : UInt64)
  | fixed64
  | bytes (payload : List UInt8)
  | fixed32
  deriving DecidableEq, Repr

structure WireField where
  number : ℕ
  value : WireValue
  deriving DecidableEq, Repr

def Tag (bs : List UInt8) (number wire : ℕ) : Prop :=
  ∃ tag : UInt64, Varint64 bs tag ∧ tag.toNat / 8 = number ∧ tag.toNat % 8 = wire ∧ number ≠ 0

/-- One complete field: its tag, then a payload that is fully present. -/
inductive IsField : List UInt8 → WireField → Prop
  | varint {tag body : List UInt8} {number : ℕ} {v : UInt64} (ht : Tag tag number 0)
      (hv : Varint64 body v) : IsField (tag ++ body) ⟨number, .varint v⟩
  | fixed64 {tag body : List UInt8} {number : ℕ} (ht : Tag tag number 1)
      (hb : body.length = 8) : IsField (tag ++ body) ⟨number, .fixed64⟩
  | bytes {tag size body : List UInt8} {number : ℕ} {n : UInt64} (ht : Tag tag number 2)
      (hn : Varint64 size n) (hb : body.length = n.toNat) :
      IsField (tag ++ size ++ body) ⟨number, .bytes body⟩
  | fixed32 {tag body : List UInt8} {number : ℕ} (ht : Tag tag number 5)
      (hb : body.length = 4) : IsField (tag ++ body) ⟨number, .fixed32⟩

/-- A message is a concatenation of complete fields. -/
inductive Message : List UInt8 → List WireField → Prop
  | nil : Message [] []
  | cons {bs rest : List UInt8} {f : WireField} {fs : List WireField} (hf : IsField bs f)
      (hr : Message rest fs) : Message (bs ++ rest) (f :: fs)

inductive Packed : List UInt8 → List UInt64 → Prop
  | nil : Packed [] []
  | cons {bs rest : List UInt8} {v : UInt64} {vs : List UInt64} (hv : Varint64 bs v)
      (hr : Packed rest vs) : Packed (bs ++ rest) (v :: vs)

theorem Varint.ne_nil {bs : List UInt8} {v : ℕ} (h : Varint bs v) : bs ≠ [] := by
  cases h <;> simp

theorem Varint.length_pos {bs : List UInt8} {v : ℕ} (h : Varint bs v) : 0 < bs.length :=
  List.length_pos_iff.mpr h.ne_nil

theorem Varint.append_inj {bs cs xs ys : List UInt8} {v w : ℕ} (h : Varint bs v)
    (k : Varint cs w) (e : bs ++ xs = cs ++ ys) : bs = cs ∧ v = w ∧ xs = ys := by
  induction h generalizing cs w with
  | last hb =>
    cases k with
    | last hc =>
      simp only [List.cons_append, List.nil_append, List.cons.injEq] at e
      exact ⟨by rw [e.1], by rw [e.1], e.2⟩
    | more hc hs =>
      simp only [List.cons_append, List.nil_append, List.cons.injEq] at e
      rw [e.1] at hb
      omega
  | more hb hs ih =>
    cases k with
    | last hc =>
      simp only [List.cons_append, List.nil_append, List.cons.injEq] at e
      rw [e.1] at hb
      omega
    | more hc ks =>
      simp only [List.cons_append, List.cons.injEq] at e
      obtain ⟨hbs, hv, hxs⟩ := ih ks e.2
      exact ⟨by rw [e.1, hbs], by rw [e.1, hv], hxs⟩

theorem Varint64.append_inj {bs cs xs ys : List UInt8} {v w : UInt64} (h : Varint64 bs v)
    (k : Varint64 cs w) (e : bs ++ xs = cs ++ ys) : bs = cs ∧ v = w ∧ xs = ys := by
  obtain ⟨hbs, hv, hxs⟩ := h.digits.append_inj k.digits e
  exact ⟨hbs, UInt64.toNat_inj.mp hv, hxs⟩

theorem Varint.digit_le {bs : List UInt8} {v : ℕ} (h : Varint bs v) :
    ∀ (i : ℕ) (b : UInt8), bs[i]? = some b → i + 1 = bs.length → b.toNat * 128 ^ i ≤ v := by
  induction h with
  | @last b hb =>
    intro i c hc hi
    have hz : i = 0 := by simpa using hi
    subst hz
    simp only [List.getElem?_cons_zero, Option.some.injEq] at hc
    rw [hc, pow_zero, mul_one]
  | @more b bs v hb hs ih =>
    intro i c hc hi
    cases i with
    | zero => exact absurd (by simpa using hi) hs.length_pos.ne'
    | succ i =>
      have hc' : bs[i]? = some c := by simpa using hc
      have h := ih i c hc' (by simpa using hi)
      have hm := Nat.mul_le_mul_left 128 h
      calc
        c.toNat * 128 ^ (i + 1) = 128 * (c.toNat * 128 ^ i) := by rw [pow_succ]; ring
        _ ≤ 128 * v := hm
        _ ≤ b.toNat - 128 + 128 * v := Nat.le_add_left _ _

theorem Varint64.of_digits {bs : List UInt8} {v : UInt64} (h : Varint bs v.toNat)
    (hl : bs.length ≤ 10) : Varint64 bs v := by
  refine ⟨h, hl, ?_⟩
  intro b hb
  have hlen : 9 < bs.length := (List.getElem?_eq_some_iff.mp hb).choose
  have hd := h.digit_le 9 b hb (by omega)
  have hv := v.toNat_lt
  by_contra hc
  have : 2 * 128 ^ 9 ≤ b.toNat * 128 ^ 9 := Nat.mul_le_mul_right _ (by omega)
  norm_num at this
  norm_num at hd
  omega

theorem Tag.append_inj {bs cs xs ys : List UInt8} {m n u w : ℕ} (h : Tag bs m u)
    (k : Tag cs n w) (e : bs ++ xs = cs ++ ys) : bs = cs ∧ m = n ∧ u = w ∧ xs = ys := by
  obtain ⟨s, hs, hm, hu, _⟩ := h
  obtain ⟨t, ht, hn, hw, _⟩ := k
  obtain ⟨hbs, hst, hxs⟩ := hs.append_inj ht e
  subst hst
  exact ⟨hbs, hm.symm.trans hn, hu.symm.trans hw, hxs⟩

theorem Tag.ne_nil {bs : List UInt8} {n w : ℕ} (h : Tag bs n w) : bs ≠ [] := by
  obtain ⟨_, ht, _⟩ := h
  exact ht.digits.ne_nil

/-- No field is a proper prefix of another: the bytes decide where it ends. -/
theorem IsField.append_inj {bs cs xs ys : List UInt8} {f g : WireField} (h : IsField bs f)
    (k : IsField cs g) (e : bs ++ xs = cs ++ ys) : bs = cs ∧ f = g ∧ xs = ys := by
  cases h with
  | varint ht hv =>
    cases k with
    | varint kt kv =>
      rw [List.append_assoc, List.append_assoc] at e
      obtain ⟨rfl, rfl, _, e⟩ := ht.append_inj kt e
      obtain ⟨rfl, rfl, rfl⟩ := hv.append_inj kv e
      exact ⟨rfl, rfl, rfl⟩
    | fixed64 kt _ | fixed32 kt _ =>
      rw [List.append_assoc, List.append_assoc] at e
      exact absurd (ht.append_inj kt e).2.2.1 (by decide)
    | bytes kt _ _ =>
      rw [List.append_assoc, List.append_assoc, List.append_assoc] at e
      exact absurd (ht.append_inj kt e).2.2.1 (by decide)
  | fixed64 ht hb =>
    cases k with
    | fixed64 kt kb =>
      rw [List.append_assoc, List.append_assoc] at e
      obtain ⟨rfl, rfl, _, e⟩ := ht.append_inj kt e
      obtain ⟨rfl, rfl⟩ := List.append_inj e (hb.trans kb.symm)
      exact ⟨rfl, rfl, rfl⟩
    | varint kt _ | fixed32 kt _ =>
      rw [List.append_assoc, List.append_assoc] at e
      exact absurd (ht.append_inj kt e).2.2.1 (by decide)
    | bytes kt _ _ =>
      rw [List.append_assoc, List.append_assoc, List.append_assoc] at e
      exact absurd (ht.append_inj kt e).2.2.1 (by decide)
  | bytes ht hn hb =>
    cases k with
    | bytes kt kn kb =>
      simp only [List.append_assoc] at e
      obtain ⟨rfl, rfl, _, e⟩ := ht.append_inj kt e
      obtain ⟨rfl, rfl, e⟩ := hn.append_inj kn e
      obtain ⟨rfl, rfl⟩ := List.append_inj e (hb.trans kb.symm)
      exact ⟨rfl, rfl, rfl⟩
    | varint kt _ | fixed64 kt _ | fixed32 kt _ =>
      rw [List.append_assoc, List.append_assoc, List.append_assoc] at e
      exact absurd (ht.append_inj kt e).2.2.1 (by decide)
  | fixed32 ht hb =>
    cases k with
    | fixed32 kt kb =>
      rw [List.append_assoc, List.append_assoc] at e
      obtain ⟨rfl, rfl, _, e⟩ := ht.append_inj kt e
      obtain ⟨rfl, rfl⟩ := List.append_inj e (hb.trans kb.symm)
      exact ⟨rfl, rfl, rfl⟩
    | varint kt _ | fixed64 kt _ =>
      rw [List.append_assoc, List.append_assoc] at e
      exact absurd (ht.append_inj kt e).2.2.1 (by decide)
    | bytes kt _ _ =>
      rw [List.append_assoc, List.append_assoc, List.append_assoc] at e
      exact absurd (ht.append_inj kt e).2.2.1 (by decide)

theorem IsField.ne_nil {bs : List UInt8} {f : WireField} (h : IsField bs f) : bs ≠ [] := by
  cases h with
  | varint ht _ | fixed64 ht _ | fixed32 ht _ => simp [ht.ne_nil]
  | bytes ht _ _ => simp [ht.ne_nil]

theorem Message.append {bs cs : List UInt8} {fs gs : List WireField} (h : Message bs fs)
    (k : Message cs gs) : Message (bs ++ cs) (fs ++ gs) := by
  induction h with
  | nil => exact k
  | cons hf _ ih =>
    rw [List.append_assoc, List.cons_append]
    exact .cons hf ih

theorem Message.single {bs : List UInt8} {f : WireField} (h : IsField bs f) :
    Message bs [f] := by
  simpa using Message.cons h .nil

theorem Message.unique {bs : List UInt8} {fs gs : List WireField} (h : Message bs fs)
    (k : Message bs gs) : fs = gs := by
  induction h generalizing gs with
  | nil =>
    cases k' : gs with
    | nil => rfl
    | cons g gs =>
      subst k'
      generalize hz : ([] : List UInt8) = z at k
      cases k with
      | cons hf _ => exact absurd (List.append_eq_nil_iff.mp hz.symm).1 hf.ne_nil
  | @cons cs rest f fs hf hr ih =>
    generalize hz : cs ++ rest = z at k
    cases k with
    | nil => exact absurd (List.append_eq_nil_iff.mp hz).1 hf.ne_nil
    | cons kf kr =>
      obtain ⟨_, rfl, rfl⟩ := hf.append_inj kf hz
      rw [ih kr]

theorem Packed.unique {bs : List UInt8} {vs ws : List UInt64} (h : Packed bs vs)
    (k : Packed bs ws) : vs = ws := by
  induction h generalizing ws with
  | nil =>
    generalize hz : ([] : List UInt8) = z at k
    cases k with
    | nil => rfl
    | cons hv _ => exact absurd (List.append_eq_nil_iff.mp hz.symm).1 hv.digits.ne_nil
  | @cons cs rest v vs hv hr ih =>
    generalize hz : cs ++ rest = z at k
    cases k with
    | nil => exact absurd (List.append_eq_nil_iff.mp hz).1 hv.digits.ne_nil
    | cons kv kr =>
      obtain ⟨_, rfl, rfl⟩ := hv.append_inj kv hz
      rw [ih kr]

noncomputable def fieldsOf (bs : List UInt8) : List WireField :=
  open Classical in if h : ∃ fs, Message bs fs then h.choose else []

noncomputable def packedOf (bs : List UInt8) : List UInt64 :=
  open Classical in if h : ∃ vs, Packed bs vs then h.choose else []

theorem Message.fieldsOf_eq {bs : List UInt8} {fs : List WireField} (h : Message bs fs) :
    fieldsOf bs = fs := by
  have he : ∃ gs, Message bs gs := ⟨fs, h⟩
  rw [fieldsOf, dif_pos he]
  exact he.choose_spec.unique h

theorem Packed.packedOf_eq {bs : List UInt8} {vs : List UInt64} (h : Packed bs vs) :
    packedOf bs = vs := by
  have he : ∃ ws, Packed bs ws := ⟨vs, h⟩
  rw [packedOf, dif_pos he]
  exact he.choose_spec.unique h

theorem and_127_eq (byte : UInt8) : (byte &&& 0x7f).toNat = byte.toNat % 128 := by
  rw [UInt8.toNat_and]
  exact Nat.and_two_pow_sub_one_eq_mod byte.toNat 7

theorem and_128_eq_zero_iff (byte : UInt8) : byte &&& 0x80 = 0 ↔ byte.toNat < 128 := by
  have h := (by decide +kernel : ∀ n : Fin 256,
    UInt8.ofNat n.val &&& 0x80 = 0 ↔ n.val < 128) ⟨byte.toNat, byte.toNat_lt⟩
  simpa using h

/-- Seven more bits above `7 * k` bits. -/
theorem or_shiftLeft_toNat {k : ℕ} {value : UInt64} {byte : UInt8} (hk : k ≤ 9)
    (hv : value.toNat < 128 ^ k) (hb : byte.toNat % 128 * 128 ^ k < 2 ^ 64) :
    (value ||| (byte &&& 0x7f).toUInt64 <<< UInt64.ofNat (7 * k)).toNat =
      value.toNat + byte.toNat % 128 * 128 ^ k := by
  have hpow : 128 ^ k = 2 ^ (7 * k) := by rw [pow_mul]; norm_num
  have hs : (UInt64.ofNat (7 * k)).toNat = 7 * k := by
    rw [UInt64.toNat_ofNat']
    omega
  rw [hpow] at hv hb ⊢
  have hshl : ((byte &&& 0x7f).toUInt64 <<< UInt64.ofNat (7 * k)).toNat =
      2 ^ (7 * k) * (byte.toNat % 128) := by
    have hlt : 7 * k < 64 := by omega
    simp only [UInt64.toNat_shiftLeft, UInt8.toNat_toUInt64, and_127_eq, hs,
      Nat.mod_eq_of_lt hlt, Nat.shiftLeft_eq, Nat.mod_eq_of_lt hb]
    exact Nat.mul_comm _ _
  have hor := Nat.two_pow_add_eq_or_of_lt hv (byte.toNat % 128)
  rw [UInt64.toNat_or, hshl, Nat.or_comm, ← hor, Nat.mul_comm (byte.toNat % 128)]
  exact Nat.add_comm _ _

theorem tag_number_wire (tag : UInt64) :
    (tag >>> 3).toNat = tag.toNat / 8 ∧ (tag &&& 0x07).toNat = tag.toNat % 8 := by
  constructor
  · simp [Nat.shiftRight_eq_div_pow]
  · rw [UInt64.toNat_and]
    exact Nat.and_two_pow_sub_one_eq_mod tag.toNat 3

structure Repeated (σ α : Type) where
  get : σ → List α
  set : σ → List α → σ
  get_set : ∀ s xs, get (set s xs) = xs
  set_set : ∀ s xs ys, set (set s xs) ys = set s ys
  set_get : ∀ s, set s (get s) = s

namespace Repeated
variable {σ α β : Type} (r : Repeated σ α)

def append (s : σ) (xs : List α) : σ := r.set s (r.get s ++ xs)

theorem append_nil (s : σ) : r.append s [] = s := by
  rw [append, List.append_nil, r.set_get]

theorem append_append (s : σ) (xs ys : List α) :
    r.append (r.append s xs) ys = r.append s (xs ++ ys) := by
  simp only [append, r.get_set, r.set_set, List.append_assoc]

theorem foldl_append (f : β → List α) (bs : List β) (s : σ) :
    bs.foldl (fun s b => r.append s (f b)) s = r.append s (bs.flatMap f) := by
  induction bs generalizing s with
  | nil => exact (r.append_nil s).symm
  | cons b bs ih => rw [List.foldl_cons, ih, r.append_append, List.flatMap_cons]

end Repeated

end PProfessor.WireFormat
