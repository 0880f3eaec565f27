import Mathlib.Tactic

set_option autoImplicit false

/-!
# Text cut at a pattern

`split_once`, `rsplit_once` and `rsplit` of the standard library and the parsing of
numbers, each with the shape of the texts on which it succeeds.
-/
namespace PProfessor.Text

variable {α : Type}

/-- The pattern stands between the parts, and nowhere earlier. -/
structure SplitsAt (pattern text before after : List α) : Prop where
  parts : text = before ++ pattern ++ after
  first : ∀ before' after', text = before' ++ pattern ++ after' → before.length ≤ before'.length

structure SplitsAtLast (pattern text before after : List α) : Prop where
  parts : text = before ++ pattern ++ after
  last : ∀ before' after', text = before' ++ pattern ++ after' → after.length ≤ after'.length

theorem splitsAt_nil_iff (pattern before after : List α) :
    SplitsAt pattern [] before after ↔ pattern = [] ∧ before = [] ∧ after = [] := by
  constructor
  · intro h
    have hparts := h.parts.symm
    rw [List.append_eq_nil_iff, List.append_eq_nil_iff] at hparts
    exact ⟨hparts.1.2, hparts.1.1, hparts.2⟩
  · rintro ⟨rfl, rfl, rfl⟩
    exact ⟨rfl, fun _ _ _ => Nat.zero_le _⟩

theorem splitsAt_prefix_iff {pattern text : List α} (h : pattern <+: text)
    (before after : List α) :
    SplitsAt pattern text before after ↔ before = [] ∧ after = text.drop pattern.length := by
  obtain ⟨rest, rfl⟩ := h
  rw [List.drop_left]
  constructor
  · intro hsplit
    have hle := hsplit.first [] rest rfl
    have hnil := List.length_eq_zero_iff.mp (Nat.le_zero.mp hle)
    have hparts := hsplit.parts
    rw [hnil, List.nil_append] at hparts
    exact ⟨hnil, (List.append_cancel_left hparts).symm⟩
  · rintro ⟨rfl, rfl⟩
    exact ⟨rfl, fun _ _ _ => Nat.zero_le _⟩

theorem splitsAt_cons_iff {pattern : List α} {x : α} {xs : List α} (h : ¬pattern <+: x :: xs)
    (before after : List α) :
    SplitsAt pattern (x :: xs) before after ↔
      ∃ rest, before = x :: rest ∧ SplitsAt pattern xs rest after := by
  have hcons (b a : List α) (hb : x :: xs = b ++ pattern ++ a) :
      ∃ rest, b = x :: rest ∧ xs = rest ++ pattern ++ a := by
    cases b with
    | nil => exact absurd ⟨a, hb.symm⟩ h
    | cons y rest =>
      obtain ⟨rfl, hxs⟩ := List.cons.inj hb
      exact ⟨rest, rfl, hxs⟩
  constructor
  · intro hsplit
    obtain ⟨rest, rfl, hxs⟩ := hcons before after hsplit.parts
    refine ⟨rest, rfl, hxs, fun b a hb => ?_⟩
    exact Nat.le_of_succ_le_succ (hsplit.first (x :: b) a (congrArg (x :: ·) hb))
  · rintro ⟨rest, rfl, hsplit⟩
    refine ⟨congrArg (x :: ·) hsplit.parts, fun b a hb => ?_⟩
    obtain ⟨rest', rfl, hxs⟩ := hcons b a hb
    exact Nat.succ_le_succ (hsplit.first rest' a hxs)

theorem splitsAt_reverse_iff (pattern text before after : List α) :
    SplitsAt pattern.reverse text.reverse after.reverse before.reverse ↔
      SplitsAtLast pattern text before after := by
  have hparts (b a : List α) : text.reverse = a.reverse ++ pattern.reverse ++ b.reverse ↔
      text = b ++ pattern ++ a := by
    rw [← List.reverse_append, ← List.reverse_append, List.reverse_inj, List.append_assoc]
  constructor
  · intro h
    refine ⟨(hparts before after).mp h.parts, fun b a hb => ?_⟩
    simpa using h.first a.reverse b.reverse ((hparts b a).mpr hb)
  · intro h
    refine ⟨(hparts before after).mpr h.parts, fun b a hb => ?_⟩
    have hlength : b.length = b.reverse.length := List.length_reverse.symm
    rw [List.length_reverse, hlength]
    refine h.last a.reverse b.reverse ((hparts a.reverse b.reverse).mp ?_)
    rwa [List.reverse_reverse, List.reverse_reverse]

variable [DecidableEq α]

/-- `split_once`: cut at the first occurrence. -/
def splitOnce (pattern : List α) : List α → Option (List α × List α)
  | [] => if pattern = [] then some ([], []) else none
  | x :: xs =>
    if pattern <+: x :: xs then some ([], (x :: xs).drop pattern.length)
    else (splitOnce pattern xs).map fun parts => (x :: parts.1, parts.2)

/-- `rsplit_once`: cut at the last occurrence. -/
def rsplitOnce (pattern text : List α) : Option (List α × List α) :=
  (splitOnce pattern.reverse text.reverse).map fun parts => (parts.2.reverse, parts.1.reverse)

theorem splitOnce_eq_some_iff (pattern text before after : List α) :
    splitOnce pattern text = some (before, after) ↔ SplitsAt pattern text before after := by
  induction text generalizing before with
  | nil =>
    rw [splitsAt_nil_iff, splitOnce]
    split_ifs with h
    · simp [h, eq_comm]
    · simp [h]
  | cons x xs ih =>
    rw [splitOnce]
    split_ifs with h
    · rw [splitsAt_prefix_iff h, Option.some.injEq, Prod.mk.injEq, eq_comm, @eq_comm _ _ after]
    · rw [splitsAt_cons_iff h, Option.map_eq_some_iff]
      constructor
      · rintro ⟨⟨rest, a⟩, hrest, heq⟩
        obtain ⟨rfl, rfl⟩ := Prod.mk.inj heq
        exact ⟨rest, rfl, (ih rest).mp hrest⟩
      · rintro ⟨rest, rfl, hrest⟩
        exact ⟨(rest, after), (ih rest).mpr hrest, rfl⟩

theorem splitOnce_eq_none_iff (pattern text : List α) :
    splitOnce pattern text = none ↔ ¬pattern <:+: text := by
  induction text with
  | nil =>
    rw [splitOnce, List.infix_nil]
    split_ifs with h <;> simp [h]
  | cons x xs ih =>
    rw [splitOnce, List.infix_cons_iff]
    split_ifs with h
    · simp [h]
    · rw [Option.map_eq_none_iff, ih]
      simp [h]

theorem rsplitOnce_eq_some_iff (pattern text before after : List α) :
    rsplitOnce pattern text = some (before, after) ↔ SplitsAtLast pattern text before after := by
  rw [← splitsAt_reverse_iff, ← splitOnce_eq_some_iff, rsplitOnce, Option.map_eq_some_iff]
  constructor
  · rintro ⟨⟨b, a⟩, h, heq⟩
    obtain ⟨rfl, rfl⟩ := Prod.mk.inj heq
    rw [h, List.reverse_reverse, List.reverse_reverse]
  · intro h
    exact ⟨_, h, by rw [List.reverse_reverse, List.reverse_reverse]⟩

theorem rsplitOnce_eq_none_iff (pattern text : List α) :
    rsplitOnce pattern text = none ↔ ¬pattern <:+: text := by
  rw [rsplitOnce, Option.map_eq_none_iff, splitOnce_eq_none_iff, List.reverse_infix]

/-- At most `fuel` cuts. -/
def rsplitWithin (pattern : List α) : ℕ → List α → List (List α)
  | 0, text => [text]
  | fuel + 1, text =>
    match rsplitOnce pattern text with
    | none => [text]
    | some (before, after) => after :: rsplitWithin pattern fuel before

/-- `rsplit`: the pieces from the last to the first. -/
def rsplit (pattern text : List α) : List (List α) := rsplitWithin pattern text.length text

inductive PiecesFromEnd (pattern : List α) : List α → List (List α) → Prop
  | whole {text : List α} : ¬pattern <:+: text → PiecesFromEnd pattern text [text]
  | piece {text before after : List α} {pieces : List (List α)} :
      SplitsAtLast pattern text before after → PiecesFromEnd pattern before pieces →
      PiecesFromEnd pattern text (after :: pieces)

theorem rsplitWithin_pieces {pattern : List α} (hne : pattern ≠ []) {fuel : ℕ} {text : List α}
    (hfuel : text.length ≤ fuel) : PiecesFromEnd pattern text (rsplitWithin pattern fuel text) := by
  induction fuel generalizing text with
  | zero =>
    have hnil := List.length_eq_zero_iff.mp (Nat.le_zero.mp hfuel)
    rw [hnil]
    refine .whole fun h => hne ?_
    rwa [List.infix_nil] at h
  | succ fuel ih =>
    rw [rsplitWithin]
    cases h : rsplitOnce pattern text with
    | none => exact .whole ((rsplitOnce_eq_none_iff pattern text).mp h)
    | some parts =>
      obtain ⟨before, after⟩ := parts
      have hsplit := (rsplitOnce_eq_some_iff pattern text before after).mp h
      refine .piece hsplit (ih ?_)
      have hlength := congrArg List.length hsplit.parts
      have hpos := List.length_pos_iff.mpr hne
      rw [List.length_append, List.length_append] at hlength
      omega

theorem SplitsAtLast.unique {pattern text before after before' after' : List α}
    (h : SplitsAtLast pattern text before after) (h' : SplitsAtLast pattern text before' after') :
    before = before' ∧ after = after' := by
  rw [← rsplitOnce_eq_some_iff] at h h'
  rw [h] at h'
  exact Prod.mk.inj (Option.some.inj h')

theorem PiecesFromEnd.unique {pattern text : List α} {pieces pieces' : List (List α)}
    (h : PiecesFromEnd pattern text pieces) (h' : PiecesFromEnd pattern text pieces') :
    pieces = pieces' := by
  induction h generalizing pieces' with
  | whole hnone =>
    cases h' with
    | whole _ => rfl
    | piece hsplit _ => exact absurd ⟨_, _, hsplit.parts.symm⟩ hnone
  | piece hsplit _ ih =>
    cases h' with
    | whole hnone => exact absurd ⟨_, _, hsplit.parts.symm⟩ hnone
    | piece hsplit' hrest =>
      obtain ⟨rfl, rfl⟩ := hsplit.unique hsplit'
      rw [ih hrest]

theorem rsplit_eq_iff {pattern : List α} (hne : pattern ≠ []) (text : List α)
    (pieces : List (List α)) :
    rsplit pattern text = pieces ↔ PiecesFromEnd pattern text pieces := by
  have h := rsplitWithin_pieces hne (Nat.le_refl text.length)
  constructor
  · rintro rfl
    exact h
  · exact h.unique

inductive ParseIntError where
  | empty
  | invalidDigit
  | posOverflow
  deriving DecidableEq, Repr

/-- `char::to_digit`. -/
def toDigit (radix : ℕ) (c : Char) : Option ℕ :=
  let digit := if '0' ≤ c ∧ c ≤ '9' then some (c.toNat - '0'.toNat)
    else if 'a' ≤ c ∧ c ≤ 'z' then some (c.toNat - 'a'.toNat + 10)
    else if 'A' ≤ c ∧ c ≤ 'Z' then some (c.toNat - 'A'.toNat + 10)
    else none
  digit.filter fun d => d < radix

/-- One digit more, below `limit`. -/
def pushDigit (radix limit : ℕ) (value : ℕ) (c : Char) : Except ParseIntError ℕ :=
  match toDigit radix c with
  | none => .error .invalidDigit
  | some digit =>
    if value * radix + digit < limit then .ok (value * radix + digit) else .error .posOverflow

/-- `from_str_radix` of an unsigned type with `limit` values. -/
def fromStrRadix (radix limit : ℕ) (text : List Char) : Except ParseIntError ℕ :=
  match text with
  | [] => .error .empty
  | c :: rest =>
    if c = '+' then
      if rest = [] then .error .invalidDigit else rest.foldlM (pushDigit radix limit) 0
    else text.foldlM (pushDigit radix limit) 0

structure Numeral (radix : ℕ) (text : List Char) (n : ℕ) : Prop where
  shape : ∃ (digits : List Char) (values : List ℕ),
    (text = digits ∨ text = '+' :: digits) ∧ digits ≠ [] ∧
    digits.map (toDigit radix) = values.map some ∧ Nat.ofDigits radix values.reverse = n

theorem ofDigits_reverse_cons (radix : ℕ) (d : ℕ) (ds : List ℕ) :
    Nat.ofDigits radix (d :: ds).reverse =
      d * radix ^ ds.length + Nat.ofDigits radix ds.reverse := by
  rw [List.reverse_cons, Nat.ofDigits_append, List.length_reverse, Nat.ofDigits_singleton]
  ring

/-- The loop over the digits, from a value that it shifts. -/
theorem foldlM_pushDigit_iff {radix limit : ℕ} (hradix : 0 < radix) (digits : List Char)
    (value n : ℕ) (hvalue : value < limit) :
    digits.foldlM (pushDigit radix limit) value = .ok n ↔ n < limit ∧
      ∃ values : List ℕ, digits.map (toDigit radix) = values.map some ∧
        value * radix ^ digits.length + Nat.ofDigits radix values.reverse = n := by
  induction digits generalizing value with
  | nil =>
    constructor
    · intro h
      cases h
      exact ⟨hvalue, [], rfl, by simp⟩
    · rintro ⟨-, values, hvalues, hn⟩
      have hnil : values = [] := List.map_eq_nil_iff.mp hvalues.symm
      subst hnil
      have hsame : value = n := by simpa using hn
      rw [hsame]
      rfl
  | cons c digits ih =>
    rw [List.foldlM_cons, pushDigit]
    cases hdigit : toDigit radix c with
    | none =>
      constructor
      · intro h
        cases h
      · rintro ⟨-, values, hvalues, -⟩
        cases values with
        | nil => cases hvalues
        | cons d ds =>
          rw [List.map_cons, List.map_cons, hdigit] at hvalues
          cases (List.cons.inj hvalues).1
    | some d =>
      have hpos : 0 < radix ^ digits.length := Nat.pow_pos hradix
      have hshift (ds : List ℕ) (hds : ds.length = digits.length) :
          value * radix ^ (c :: digits).length + Nat.ofDigits radix (d :: ds).reverse =
            (value * radix + d) * radix ^ digits.length + Nat.ofDigits radix ds.reverse := by
        rw [ofDigits_reverse_cons, hds, List.length_cons, pow_succ]
        ring
      have hlength (ds : List ℕ) (h : digits.map (toDigit radix) = ds.map some) :
          ds.length = digits.length := by
        simpa using (congrArg List.length h).symm
      dsimp only
      split_ifs with hlimit
      · change digits.foldlM (pushDigit radix limit) (value * radix + d) = .ok n ↔ _
        rw [ih _ hlimit]
        constructor
        · rintro ⟨hn, ds, hds, hsum⟩
          refine ⟨hn, d :: ds, ?_, ?_⟩
          · rw [List.map_cons, List.map_cons, hdigit, hds]
          · rw [hshift ds (hlength ds hds), hsum]
        · rintro ⟨hn, values, hvalues, hsum⟩
          cases values with
          | nil => cases hvalues
          | cons d' ds =>
            rw [List.map_cons, List.map_cons, hdigit] at hvalues
            obtain ⟨hd, hds⟩ := List.cons.inj hvalues
            cases hd
            rw [hshift ds (hlength ds hds)] at hsum
            exact ⟨hn, ds, hds, hsum⟩
      · constructor
        · intro h
          cases h
        · rintro ⟨hn, values, hvalues, hsum⟩
          cases values with
          | nil => cases hvalues
          | cons d' ds =>
            rw [List.map_cons, List.map_cons, hdigit] at hvalues
            obtain ⟨hd, hds⟩ := List.cons.inj hvalues
            cases hd
            rw [hshift ds (hlength ds hds)] at hsum
            have hle := Nat.le_mul_of_pos_right (value * radix + d) hpos
            omega

theorem toDigit_plus (radix : ℕ) : toDigit radix '+' = none := by
  simp [toDigit]

/-- Exactly the numerals of numbers below the limit are parsed. -/
theorem fromStrRadix_eq_ok_iff {radix limit : ℕ} (hradix : 0 < radix) (hlimit : 0 < limit)
    (text : List Char) (n : ℕ) :
    fromStrRadix radix limit text = .ok n ↔ n < limit ∧ Numeral radix text n := by
  have hloop (digits : List Char) := foldlM_pushDigit_iff hradix digits 0 n hlimit
  simp only [Nat.zero_mul, Nat.zero_add] at hloop
  cases text with
  | nil =>
    refine ⟨fun h => (by cases h), ?_⟩
    rintro ⟨-, digits, values, hdigits | hdigits, hne, -, -⟩
    · exact absurd hdigits.symm hne
    · cases hdigits
  | cons c rest =>
    rw [fromStrRadix]
    split_ifs with hplus hrest
    · refine ⟨fun h => (by cases h), ?_⟩
      rintro ⟨-, digits, values, hdigits | hdigits, hne, hvalues, -⟩
      · rw [← hdigits, hplus, List.map_cons, toDigit_plus] at hvalues
        cases values with
        | nil => cases hvalues
        | cons d ds => cases (List.cons.inj hvalues).1
      · exact absurd ((List.cons.inj hdigits).2.symm.trans hrest) hne
    · rw [hloop]
      constructor
      · rintro ⟨hn, values, hvalues, hsum⟩
        exact ⟨hn, rest, values, .inr (by rw [hplus]), hrest, hvalues, hsum⟩
      · rintro ⟨hn, digits, values, hdigits | hdigits, hne, hvalues, hsum⟩
        · rw [← hdigits, hplus, List.map_cons, toDigit_plus] at hvalues
          cases values with
          | nil => cases hvalues
          | cons d ds => cases (List.cons.inj hvalues).1
        · rw [(List.cons.inj hdigits).2]
          exact ⟨hn, values, hvalues, hsum⟩
    · rw [hloop]
      constructor
      · rintro ⟨hn, values, hvalues, hsum⟩
        exact ⟨hn, c :: rest, values, .inl rfl, List.cons_ne_nil _ _, hvalues, hsum⟩
      · rintro ⟨hn, digits, values, hdigits | hdigits, hne, hvalues, hsum⟩
        · rw [hdigits]
          exact ⟨hn, values, hvalues, hsum⟩
        · exact absurd (List.cons.inj hdigits).1 hplus

theorem toDigit_digitChar {d : ℕ} (h : d < 10) : toDigit 10 d.digitChar = some d := by
  interval_cases d <;> rfl

theorem pushDigit_digitChar {limit value d : ℕ} (hd : d < 10) (h : value * 10 + d < limit) :
    pushDigit 10 limit value d.digitChar = .ok (value * 10 + d) := by
  rw [pushDigit, toDigit_digitChar hd]
  exact if_pos h

theorem foldlM_toDigits {limit n : ℕ} (h : n < limit) :
    (Nat.toDigits 10 n).foldlM (pushDigit 10 limit) 0 = .ok n := by
  induction n using Nat.strong_induction_on with
  | _ n ih =>
    rw [Nat.toDigits_eq_if (by decide)]
    split_ifs with hsmall
    · have hstep := @pushDigit_digitChar limit 0 n hsmall (by omega)
      rw [Nat.zero_mul, Nat.zero_add] at hstep
      rw [List.foldlM_cons, hstep]
      rfl
    · have hlast : n / 10 * 10 + n % 10 = n := Nat.div_add_mod' n 10
      have hstep := @pushDigit_digitChar limit (n / 10) (n % 10) (Nat.mod_lt n (by decide))
        (by rwa [hlast])
      rw [List.foldlM_append, ih (n / 10) (by omega) (by omega)]
      change (pushDigit 10 limit (n / 10) (n % 10).digitChar >>= fun value => pure value) = _
      rw [hstep, hlast]
      rfl

theorem fromStrRadix_toDigits {limit n : ℕ} (h : n < limit) :
    fromStrRadix 10 limit (Nat.toDigits 10 n) = .ok n := by
  cases htext : Nat.toDigits 10 n with
  | nil => exact absurd htext Nat.toDigits_ne_nil
  | cons c rest =>
    have hc : c ≠ '+' := by
      rintro rfl
      have hdigit := Nat.isDigit_of_mem_toDigits (by decide) (by decide)
        (htext ▸ List.mem_cons_self : '+' ∈ Nat.toDigits 10 n)
      exact absurd hdigit (by decide)
    rw [fromStrRadix, if_neg hc, ← htext]
    exact foldlM_toDigits h

/-- `parse::<u32>().ok()`. -/
def parseU32 (text : List Char) : Option UInt32 :=
  (fromStrRadix 10 (2 ^ 32) text).toOption.map UInt32.ofNat

/-- `parse::<u64>().ok()`. -/
def parseU64 (text : List Char) : Option UInt64 :=
  (fromStrRadix 10 (2 ^ 64) text).toOption.map UInt64.ofNat

theorem parseU32_toDigits (n : UInt32) : parseU32 (Nat.toDigits 10 n.toNat) = some n := by
  rw [parseU32, fromStrRadix_toDigits n.toNat_lt]
  exact congrArg some UInt32.ofNat_toNat

theorem parseU64_toDigits (n : UInt64) : parseU64 (Nat.toDigits 10 n.toNat) = some n := by
  rw [parseU64, fromStrRadix_toDigits n.toNat_lt]
  exact congrArg some UInt64.ofNat_toNat

end PProfessor.Text
