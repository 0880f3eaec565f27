import PProfessor.EscapedText
import PProfessor.Fallible

set_option autoImplicit false

/-!
# Escaped paths

`unescape_proc_path` of `src/sampler/linux.rs`, up to the conversion of its bytes into a text.
Checked arithmetic and indexing panic as in a build with debug assertions.
-/
namespace PProfessor.Capture
open EscapedText Fallible

inductive UnescapePanic where
  | indexOutOfBounds
  | arithmeticOverflow
  deriving DecidableEq, Repr

/-- The result of an operation on `u8`. -/
def checkedU8 (value : ℤ) : Except UnescapePanic UInt8 :=
  if 0 ≤ value ∧ value < 256 then .ok (UInt8.ofNat value.toNat) else .error .arithmeticOverflow

def subU8 (a b : UInt8) : Except UnescapePanic UInt8 := checkedU8 (a.toNat - b.toNat)

def mulU8 (a b : UInt8) : Except UnescapePanic UInt8 := checkedU8 (a.toNat * b.toNat)

def addU8 (a b : UInt8) : Except UnescapePanic UInt8 := checkedU8 (a.toNat + b.toNat)

/-- `bytes[index]`. -/
def byteAt (bytes : List UInt8) (index : ℕ) : Except UnescapePanic UInt8 :=
  match bytes[index]? with
  | some byte => .ok byte
  | none => .error .indexOutOfBounds

/-- `&bytes[start..stop]`. -/
def slice (bytes : List UInt8) (start stop : ℕ) : Except UnescapePanic (List UInt8) :=
  if start ≤ stop ∧ stop ≤ bytes.length then .ok ((bytes.take stop).drop start)
  else .error .indexOutOfBounds

/-- `matches!(byte, b'0'..=b'7')`. -/
def isOctal (byte : UInt8) : Bool := 0x30 ≤ byte && byte ≤ 0x37

/-- The condition of the loop: an escape is accepted at the index. -/
def escapeAt (bytes : List UInt8) (index : ℕ) : Except UnescapePanic Bool := do
  let byte ← byteAt bytes index
  if byte = 0x5C ∧ index + 3 < bytes.length then
    let digits ← slice bytes (index + 1) (index + 4)
    return digits.all isOctal
  else return false

def octalValue (a b c : UInt8) : Except UnescapePanic UInt8 := do
  let high ← mulU8 (← subU8 a 0x30) 64
  let middle ← mulU8 (← subU8 b 0x30) 8
  let sum ← addU8 high middle
  addU8 sum (← subU8 c 0x30)

def unescapeFrom (bytes : List UInt8) (index : ℕ) (output : List UInt8) :
    Except UnescapePanic (List UInt8) :=
  if index < bytes.length then do
    if ← escapeAt bytes index then
      let first ← byteAt bytes (index + 1)
      let second ← byteAt bytes (index + 2)
      let third ← byteAt bytes (index + 3)
      let value ← octalValue first second third
      unescapeFrom bytes (index + 4) (output ++ [value])
    else
      let byte ← byteAt bytes index
      unescapeFrom bytes (index + 1) (output ++ [byte])
  else .ok output
termination_by bytes.length - index

/-- The bytes that `unescape_proc_path` has collected at its end. -/
def unescapeBytes (path : List UInt8) : Except UnescapePanic (List UInt8) := unescapeFrom path 0 []

def octalNumber (a b c : UInt8) : ℕ := (a.toNat - 48) * 64 + (b.toNat - 48) * 8 + (c.toNat - 48)

def spellOctal : List UInt8 → Option ℕ
  | [a, b, c] => if isOctal a ∧ isOctal b ∧ isOctal c then some (octalNumber a b c) else none
  | _ => none

theorem spellOctal_eq_some_iff (digits : List UInt8) (value : ℕ) :
    spellOctal digits = some value ↔ ∃ a b c, digits = [a, b, c] ∧
      (isOctal a ∧ isOctal b ∧ isOctal c) ∧ octalNumber a b c = value := by
  constructor
  · intro h
    unfold spellOctal at h
    split at h
    next a b c =>
      split_ifs at h with hoctal
      exact ⟨a, b, c, rfl, hoctal, Option.some.inj h⟩
    next => cases h
  · rintro ⟨a, b, c, rfl, hoctal, rfl⟩
    exact if_pos hoctal

/-- A backslash and three octal digits. -/
def octalEscapes : EscapeSyntax UInt8 ℕ where
  marker := 0x5C
  width := 3
  spell := spellOctal
  length_of_spell := by
    intro digits value h
    obtain ⟨a, b, c, rfl, -, -⟩ := (spellOctal_eq_some_iff _ _).mp h
    rfl
  marker_not_mem := by
    intro digits value h
    obtain ⟨a, b, c, rfl, ⟨ha, hb, hc⟩, -⟩ := (spellOctal_eq_some_iff _ _).mp h
    intro hmem
    simp only [List.mem_cons, List.not_mem_nil, or_false] at hmem
    rcases hmem with rfl | rfl | rfl
    · exact absurd ha (by decide)
    · exact absurd hb (by decide)
    · exact absurd hc (by decide)

def pieceValue : Piece UInt8 ℕ → ℕ
  | .kept byte => byte.toNat
  | .escape _ value => value

/-- The bytes are those of the path with the byte of its octal number for each escape. -/
def Unescapes (path output : List UInt8) : Prop :=
  ∃ pieces, Reads octalEscapes path pieces ∧ output.map UInt8.toNat = pieces.map pieceValue

theorem octal_bounds {byte : UInt8} (h : isOctal byte) : 48 ≤ byte.toNat ∧ byte.toNat ≤ 55 := by
  rw [isOctal, Bool.and_eq_true, decide_eq_true_eq, decide_eq_true_eq] at h
  exact ⟨UInt8.le_iff_toNat_le.mp h.1, UInt8.le_iff_toNat_le.mp h.2⟩

theorem checkedU8_natCast (n : ℕ) : checkedU8 n =
    if n < 256 then .ok (UInt8.ofNat n) else .error .arithmeticOverflow := by
  rw [checkedU8, Int.toNat_natCast]
  split_ifs <;> first | rfl | omega

theorem checkedU8_of_lt {n : ℕ} (h : n < 256) : checkedU8 n = .ok (UInt8.ofNat n) := by
  rw [checkedU8_natCast, if_pos h]

theorem octalValue_eq {a b c : UInt8} (h : isOctal a ∧ isOctal b ∧ isOctal c) :
    octalValue a b c = checkedU8 (octalNumber a b c) := by
  have ha := octal_bounds h.1
  have hb := octal_bounds h.2.1
  have hc := octal_bounds h.2.2
  have hsub {byte : UInt8} (hbyte : 48 ≤ byte.toNat ∧ byte.toNat ≤ 55) :
      subU8 byte 0x30 = .ok (UInt8.ofNat (byte.toNat - 48)) := by
    rw [subU8, ← checkedU8_of_lt (by omega)]
    exact congrArg checkedU8 (Int.ofNat_sub hbyte.1).symm
  have hsmall {n : ℕ} (hn : n < 256) : (UInt8.ofNat n).toNat = n := UInt8.toNat_ofNat_of_lt' hn
  unfold octalValue
  rw [hsub ha, ok_bind, mulU8, hsmall (by omega)]
  by_cases hhigh : (a.toNat - 48) * 64 < 256
  · have hmul : checkedU8 (((a.toNat - 48 : ℕ) : ℤ) * (64 : UInt8).toNat) =
        .ok (UInt8.ofNat ((a.toNat - 48) * 64)) := checkedU8_of_lt hhigh
    have hmiddle : mulU8 (UInt8.ofNat (b.toNat - 48)) 8 =
        .ok (UInt8.ofNat ((b.toNat - 48) * 8)) := by
      rw [mulU8, hsmall (by omega)]
      exact checkedU8_of_lt (by change (b.toNat - 48) * 8 < 256; omega)
    have hsum : addU8 (UInt8.ofNat ((a.toNat - 48) * 64)) (UInt8.ofNat ((b.toNat - 48) * 8)) =
        .ok (UInt8.ofNat ((a.toNat - 48) * 64 + (b.toNat - 48) * 8)) := by
      rw [addU8, hsmall hhigh, hsmall (by omega)]
      exact checkedU8_of_lt (by omega)
    rw [hmul, ok_bind, hsub hb, ok_bind, hmiddle, ok_bind, hsum, ok_bind, hsub hc, ok_bind, addU8,
      hsmall (by omega), hsmall (by omega)]
    rfl
  · have hmul : checkedU8 (((a.toNat - 48 : ℕ) : ℤ) * (64 : UInt8).toNat) =
        .error .arithmeticOverflow := by
      refine (checkedU8_natCast ((a.toNat - 48) * 64)).trans (if_neg hhigh)
    rw [bind_error _ hmul, checkedU8_natCast, if_neg (by unfold octalNumber; omega)]

theorem byteAt_append (front text : List UInt8) (index : ℕ) :
    byteAt (front ++ text) (front.length + index) = byteAt text index := by
  rw [byteAt, List.getElem?_append_right (Nat.le_add_right _ _), Nat.add_sub_cancel_left]
  rfl

theorem slice_append (front text : List UInt8) (start stop : ℕ) :
    slice (front ++ text) (front.length + start) (front.length + stop) =
      slice text start stop := by
  unfold slice
  rw [List.length_append, List.take_length_add_append, List.drop_length_add_append]
  simp only [Nat.add_le_add_iff_left]

theorem escapeAt_append (front text : List UInt8) :
    escapeAt (front ++ text) front.length = escapeAt text 0 := by
  have hbyte := byteAt_append front text 0
  rw [Nat.add_zero] at hbyte
  unfold escapeAt
  rw [hbyte, slice_append, List.length_append]
  simp only [Nat.add_lt_add_iff_left]

theorem escapeAt_of_spelled {digits : List UInt8} {value : ℕ}
    (h : spellOctal digits = some value) (rest : List UInt8) :
    escapeAt (0x5C :: (digits ++ rest)) 0 = .ok true := by
  obtain ⟨a, b, c, rfl, ⟨ha, hb, hc⟩, -⟩ := (spellOctal_eq_some_iff _ _).mp h
  change (if (0x5C : UInt8) = 0x5C ∧ 0 + 3 < (0x5C :: a :: b :: c :: rest).length then
    (slice (0x5C :: a :: b :: c :: rest) 1 4 >>= fun digits => pure (digits.all isOctal))
    else pure false) = _
  rw [if_pos ⟨rfl, by simp⟩, slice, if_pos ⟨by decide, by simp⟩, ok_bind]
  simp [ha, hb, hc]
  rfl

theorem escapeAt_of_not {x : UInt8} {rest : List UInt8}
    (h : ¬Escaped octalEscapes (x :: rest)) : escapeAt (x :: rest) 0 = .ok false := by
  change (if x = 0x5C ∧ 0 + 3 < (x :: rest).length then
    (slice (x :: rest) 1 4 >>= fun digits => pure (digits.all isOctal)) else pure false) = _
  split_ifs with hx
  · obtain ⟨rfl, hlength⟩ := hx
    match rest, hlength with
    | a :: b :: c :: tail, hlength =>
      rw [slice, if_pos ⟨by decide, by simp⟩, ok_bind]
      have hall : [a, b, c].all isOctal = false := by
        rw [Bool.eq_false_iff]
        intro hoctal
        have hoctal : isOctal a ∧ isOctal b ∧ isOctal c := by simpa using hoctal
        have hspell : spellOctal [a, b, c] = some (octalNumber a b c) := if_pos hoctal
        exact h ⟨[a, b, c], _, hspell, tail, rfl⟩
      change pure ([a, b, c].all isOctal) = _
      rw [hall]
      rfl
  · rfl

/-- The byte of a piece, if its number is one. -/
def pieceByte : Piece UInt8 ℕ → Except UnescapePanic UInt8
  | .kept byte => .ok byte
  | .escape _ value => checkedU8 value

theorem unescapeFrom_kept (front : List UInt8) {x : UInt8} {rest : List UInt8}
    (h : ¬Escaped octalEscapes (x :: rest)) (output : List UInt8) :
    unescapeFrom (front ++ x :: rest) front.length output =
      unescapeFrom ((front ++ [x]) ++ rest) (front ++ [x]).length (output ++ [x]) := by
  have hbyte := byteAt_append front (x :: rest) 0
  rw [Nat.add_zero] at hbyte
  rw [unescapeFrom, if_pos (by simp), escapeAt_append, escapeAt_of_not h, hbyte]
  rw [List.append_assoc, List.length_append]
  rfl

theorem unescapeFrom_escape (front : List UInt8) {digits : List UInt8} {value : ℕ}
    (h : spellOctal digits = some value) (rest output : List UInt8) :
    unescapeFrom (front ++ 0x5C :: (digits ++ rest)) front.length output =
      checkedU8 value >>= fun byte =>
        unescapeFrom ((front ++ 0x5C :: digits) ++ rest) (front ++ 0x5C :: digits).length
          (output ++ [byte]) := by
  have htrue := escapeAt_of_spelled h rest
  obtain ⟨a, b, c, rfl, hoctal, rfl⟩ := (spellOctal_eq_some_iff _ _).mp h
  rw [unescapeFrom, if_pos (by simp), escapeAt_append, htrue, ok_bind, if_pos rfl,
    byteAt_append, byteAt_append, byteAt_append, List.append_assoc, List.length_append]
  change octalValue a b c >>= _ = _
  rw [octalValue_eq hoctal]
  rfl

theorem map_append_cons (output : List UInt8) (x : UInt8)
    (loop : Except UnescapePanic (List UInt8)) :
    (fun bytes => (output ++ [x]) ++ bytes) <$> loop =
      (fun bytes => output ++ bytes) <$> (loop >>= fun bytes => pure (x :: bytes)) := by
  cases loop with
  | error panic => rfl
  | ok bytes => exact congrArg Except.ok (List.append_assoc output [x] bytes)

theorem unescapeFrom_reads {text : List UInt8} {pieces : List (Piece UInt8 ℕ)}
    (h : Reads octalEscapes text pieces) (front output : List UInt8) :
    unescapeFrom (front ++ text) front.length output =
      (fun bytes => output ++ bytes) <$> pieces.mapM pieceByte := by
  induction h generalizing front output with
  | nil =>
    rw [unescapeFrom, if_neg (by simp)]
    exact congrArg Except.ok (List.append_nil output).symm
  | @kept x rest pieces hnot _ ih =>
    rw [unescapeFrom_kept front hnot, ih, List.mapM_cons, pieceByte, ok_bind]
    exact map_append_cons output x _
  | @escape digits rest value pieces hspell _ ih =>
    refine (unescapeFrom_escape front hspell rest output).trans ?_
    rw [List.mapM_cons, pieceByte]
    cases checkedU8 value with
    | error panic => rfl
    | ok byte =>
      rw [ok_bind, ok_bind, ih]
      exact map_append_cons output byte _

theorem unescapeBytes_eq {path : List UInt8} {pieces : List (Piece UInt8 ℕ)}
    (h : Reads octalEscapes path pieces) :
    unescapeBytes path = (fun bytes => [] ++ bytes) <$> pieces.mapM pieceByte :=
  unescapeFrom_reads h [] []

theorem pieceByte_returnsWhen (piece : Piece UInt8 ℕ) :
    ReturnsWhen (pieceValue piece < 256) (UInt8.ofNat (pieceValue piece)) (pieceByte piece) := by
  cases piece with
  | kept byte =>
    have hbyte : UInt8.ofNat (pieceValue (.kept byte)) = byte := UInt8.ofNat_toNat
    rw [hbyte]
    exact (ReturnsWhen.of_ok byte).iff (iff_of_true trivial byte.toNat_lt)
  | escape digits value =>
    rw [pieceByte, checkedU8_natCast]
    split_ifs with h
    · exact (ReturnsWhen.of_ok _).iff (iff_of_true trivial h)
    · exact .of_error h

theorem unescapeBytes_throws (path : List UInt8) :
    Throws (· = UnescapePanic.arithmeticOverflow) (unescapeBytes path) := by
  obtain ⟨pieces, hpieces⟩ := exists_reads (s := octalEscapes) path
  rw [unescapeBytes_eq hpieces]
  refine (Throws.mapM fun piece _ => ?_).map _
  cases piece with
  | kept byte => exact .of_ok byte
  | escape digits value =>
    rw [pieceByte, checkedU8_natCast]
    split_ifs
    · exact .of_ok _
    · exact Throws.error_iff.mpr rfl

/-- The first digit of every escape is at most a three. -/
def Small (path : List UInt8) : Prop :=
  ∀ a b c, [0x5C, a, b, c] <:+: path → isOctal a ∧ isOctal b ∧ isOctal c → a ≤ 0x33

theorem octalNumber_lt_iff {a b c : UInt8} (h : isOctal a ∧ isOctal b ∧ isOctal c) :
    octalNumber a b c < 256 ↔ a ≤ 0x33 := by
  have ha := octal_bounds h.1
  have hb := octal_bounds h.2.1
  have hc := octal_bounds h.2.2
  rw [UInt8.le_iff_toNat_le]
  change octalNumber a b c < 256 ↔ a.toNat ≤ 51
  unfold octalNumber
  omega

theorem values_small_iff {path : List UInt8} {pieces : List (Piece UInt8 ℕ)}
    (h : Reads octalEscapes path pieces) :
    (∀ piece ∈ pieces, pieceValue piece < 256) ↔ Small path := by
  constructor
  · intro hvalues a b c hwithin hoctal
    have hspell : spellOctal [a, b, c] = some (octalNumber a b c) := if_pos hoctal
    have hmem := (h.mem_escape_iff [a, b, c] (octalNumber a b c)).mpr ⟨hspell, hwithin⟩
    exact (octalNumber_lt_iff hoctal).mp (hvalues _ hmem)
  · intro hsmall piece hpiece
    cases piece with
    | kept byte => exact byte.toNat_lt
    | escape digits value =>
      obtain ⟨hspell, hwithin⟩ := (h.mem_escape_iff digits value).mp hpiece
      obtain ⟨a, b, c, rfl, hoctal, rfl⟩ := (spellOctal_eq_some_iff _ _).mp hspell
      exact (octalNumber_lt_iff hoctal).mpr (hsmall a b c hwithin hoctal)

theorem unescapeBytes_returnsWhen {path : List UInt8} {pieces : List (Piece UInt8 ℕ)}
    (h : Reads octalEscapes path pieces) : ReturnsWhen (Small path)
      (pieces.map fun piece => UInt8.ofNat (pieceValue piece)) (unescapeBytes path) := by
  rw [unescapeBytes_eq h]
  exact ((ReturnsWhen.mapM fun piece _ => pieceByte_returnsWhen piece).map _).iff
    (values_small_iff h)

theorem unescapes_of_ok {path output : List UInt8} (h : unescapeBytes path = .ok output) :
    Unescapes path output := by
  obtain ⟨pieces, hpieces⟩ := exists_reads (s := octalEscapes) path
  have hreturns := unescapeBytes_returnsWhen hpieces
  have hsmall := hreturns.2 output h
  rw [hreturns.1 hsmall, Except.ok.injEq] at h
  refine ⟨pieces, hpieces, ?_⟩
  rw [← h, List.map_map]
  refine List.map_congr_left fun piece hpiece => ?_
  exact UInt8.toNat_ofNat_of_lt' ((values_small_iff hpieces).mpr hsmall piece hpiece)

theorem unescapeBytes_of_not_small {path : List UInt8} (h : ¬Small path) :
    unescapeBytes path = .error .arithmeticOverflow := by
  obtain ⟨pieces, hpieces⟩ := exists_reads (s := octalEscapes) path
  cases hrun : unescapeBytes path with
  | error panic => rw [unescapeBytes_throws path panic hrun]
  | ok output => exact absurd ((unescapeBytes_returnsWhen hpieces).2 output hrun) h

/-- The path is unescaped without a panic exactly when no escape is above `\377`. -/
theorem unescapeBytes_exact_iff (path : List UInt8) :
    (∃ output, unescapeBytes path = .ok output ∧ Unescapes path output) ↔ Small path := by
  obtain ⟨pieces, hpieces⟩ := exists_reads (s := octalEscapes) path
  have hreturns := unescapeBytes_returnsWhen hpieces
  constructor
  · rintro ⟨output, hok, -⟩
    exact hreturns.2 output hok
  · intro hsmall
    have hok := hreturns.1 hsmall
    exact ⟨_, hok, unescapes_of_ok hok⟩

/-- `/\777` is the path of a file that can be mapped. -/
theorem high_escape_overflows :
    unescapeBytes [0x2F, 0x5C, 0x37, 0x37, 0x37] = .error .arithmeticOverflow ∧
      ¬∃ output, unescapeBytes [0x2F, 0x5C, 0x37, 0x37, 0x37] = .ok output ∧
        Unescapes [0x2F, 0x5C, 0x37, 0x37, 0x37] output := by
  have hsmall : ¬Small [0x2F, 0x5C, 0x37, 0x37, 0x37] := fun h =>
    absurd (h 0x37 0x37 0x37 ⟨[0x2F], [], rfl⟩ (by decide)) (by decide)
  have hoverflow := unescapeBytes_of_not_small hsmall
  refine ⟨hoverflow, ?_⟩
  rintro ⟨output, hok, -⟩
  rw [hoverflow] at hok
  cases hok

end PProfessor.Capture
