import PProfessor.Fallible
import PProfessor.RekeyedSamples

set_option autoImplicit false

/-!
# The lines of an allocation history

The shapes of the lines that the reader of a `malloc_history` report accepts, and that it takes
every allocation and every release of a report into the tracker, or refuses the report.
-/
namespace PProfessor.Heap
open KeyedSum Text

def AddressText (text : List Char) (address : UInt64) : Prop :=
  ∃ digits, text = "0x".toList ++ digits ∧ Numeral 16 digits address.toNat

def SignedNumeral (text : List Char) (n : Int64) : Prop :=
  (∃ m, Numeral 10 text m ∧ n.toInt = m) ∨
    ∃ digits m, text = '-' :: digits ∧ digits.head? ≠ some '+' ∧ Numeral 10 digits m ∧
      n.toInt = -m

/-- `function file:line`: the source stands behind the last space, the line behind its last
colon. -/
def SourceText (text function file : List Char) (line : Int64) : Prop :=
  ∃ source number, SplitsAtLast [' '] text function source ∧
    SplitsAtLast [':'] source file number ∧ SignedNumeral number line

def NamedText (text : List Char) (frame : HeapFrame) : Prop :=
  (∃ function file, SourceText text function file frame.line ∧
    frame.function = String.ofList (trimEnd function) ∧ frame.file = String.ofList file) ∨
  (∀ function file line, ¬SourceText text function file line) ∧
    frame.function = String.ofList text ∧ frame.file = "" ∧ frame.line = 0

/-- `0x10 (image) function` and perhaps a source; it has no mapping yet. -/
def FrameText (text : List Char) (frame : HeapFrame) : Prop :=
  ∃ address rest image named, SplitsAt " (".toList text address rest ∧
    SplitsAt ") ".toList rest image named ∧ AddressText address frame.address ∧
    NamedText named frame ∧ frame.mapping = none

def StackText (text : List Char) (stack : Stack) : Prop :=
  ∃ pieces, PiecesFromEnd " | ".toList (trim text) pieces ∧ List.Forall₂ FrameText pieces stack

/-- The first word after `ALLOC` begins with the address; the record ends with the size. -/
def AllocLine (line : Line) (address size : UInt64) (stack : Stack) : Prop :=
  "ALLOC ".toList <+: line ∧ ∃ record text word before digits,
    SplitsAt ": ".toList line record text ∧ (splitWhitespace record)[1]? = some word ∧
    AddressText (word.takeWhile fun c => c ≠ '-') address ∧
    SplitsAt "[size=".toList record before (digits ++ [']']) ∧
    Numeral 10 digits size.toNat ∧ StackText text stack

def FreeLine (line : Line) (address : UInt64) : Prop :=
  "FREE ".toList <+: line ∧ ∃ word, (splitWhitespace line)[1]? = some word ∧
    AddressText (word.rdropWhile fun c => c = ':') address

/-- A blank line, or one about a VM region. -/
def Skipped (line : Line) : Prop :=
  trim line = [] ∨ "VM_ALLOC ".toList <+: line ∨ "VM_DEALLOC ".toList <+: line

/-- The lines of the event section, and the calls that they record. -/
inductive EventLines : List Line → List Call → Prop
  | nil : EventLines [] []
  | skip {line : Line} {lines : List Line} {calls : List Call} :
      Skipped line ∨ line = separator → EventLines lines calls → EventLines (line :: lines) calls
  | alloc {line : Line} {address size : UInt64} {stack : Stack} {lines : List Line}
      {calls : List Call} : AllocLine line address size stack → EventLines lines calls →
      EventLines (line :: lines) (.allocate address size stack :: calls)
  | free {line : Line} {address : UInt64} {lines : List Line} {calls : List Call} :
      FreeLine line address → EventLines lines calls →
      EventLines (line :: lines) (.release address :: calls)

theorem context_eq_ok_iff {α : Type} (error : HistoryError) (o : Option α) (a : α) :
    context error o = .ok a ↔ o = some a := by
  cases o with
  | none => exact ⟨fun h => (by cases h), fun h => (by cases h)⟩
  | some b =>
    constructor
    · intro h
      cases h
      rfl
    · intro h
      cases h
      rfl

theorem parseU64_eq_ok_iff {radix : ℕ} (hradix : 0 < radix) (text : List Char) (n : UInt64) :
    parseU64 radix text = .ok n ↔ Numeral radix text n.toNat := by
  have h := fromStrRadix_eq_ok_iff hradix (by omega : 0 < 2 ^ 64) text
  unfold parseU64
  cases hparsed : fromStrRadix radix (2 ^ 64) text with
  | error e =>
    refine ⟨fun hok => (by cases hok), fun hn => ?_⟩
    have hok := (h n.toNat).mpr ⟨n.toNat_lt, hn⟩
    rw [hparsed] at hok
    cases hok
  | ok m =>
    obtain ⟨hlt, hm⟩ := (h m).mp hparsed
    have hsame : (UInt64.ofNat m).toNat = m := UInt64.toNat_ofNat_of_lt' hlt
    constructor
    · intro hok
      cases hok
      rw [hsame]
      exact hm
    · intro hn
      have hok := (h n.toNat).mpr ⟨n.toNat_lt, hn⟩
      rw [hparsed] at hok
      cases hok
      exact congrArg Except.ok (UInt64.ofNat_toNat)

theorem stripPrefix_eq_some_iff (start text rest : List Char) :
    stripPrefix start text = some rest ↔ text = start ++ rest := by
  unfold stripPrefix
  split_ifs with h
  · obtain ⟨tail, rfl⟩ := h
    rw [List.drop_left, Option.some.injEq, List.append_cancel_left_eq]
  · refine ⟨fun hsome => (by cases hsome), ?_⟩
    rintro rfl
    exact absurd (List.prefix_append _ _) h

theorem hex_eq_ok_iff (text : List Char) (address : UInt64) :
    hex text = .ok address ↔ AddressText text address := by
  unfold hex AddressText
  rw [Fallible.bind_eq_ok]
  simp only [context_eq_ok_iff, stripPrefix_eq_some_iff,
    parseU64_eq_ok_iff (by omega : 0 < 16)]

theorem fromStrRadix_toOption_eq_some_iff {limit : ℕ} (hlimit : 0 < limit) (text : List Char)
    (n : ℕ) : (fromStrRadix 10 limit text).toOption = some n ↔ n < limit ∧ Numeral 10 text n := by
  rw [← fromStrRadix_eq_ok_iff (by omega) hlimit]
  cases fromStrRadix 10 limit text with
  | error e => exact ⟨fun h => (by cases h), fun h => (by cases h)⟩
  | ok m =>
    constructor
    · intro h
      cases h
      rfl
    · intro h
      cases h
      rfl

theorem not_numeral_minus (digits : List Char) (n : ℕ) : ¬Numeral 10 ('-' :: digits) n := by
  rintro ⟨_, values, rfl | heq, -, hvalues, -⟩
  · cases values with
    | nil => cases hvalues
    | cons value values => cases (List.cons.inj hvalues).1
  · cases heq

theorem int64_ofInt_eq_iff {i : ℤ} (hlow : -2 ^ 63 ≤ i) (hhigh : i < 2 ^ 63) (n : Int64) :
    Int64.ofInt i = n ↔ n.toInt = i := by
  rw [← Int64.toInt_inj, Int64.toInt_ofInt_of_le hlow hhigh]
  exact eq_comm

theorem parseI64_minus {digits : List Char} (h : digits.head? ≠ some '+') (n : Int64) :
    parseI64 ('-' :: digits) = some n ↔ ∃ m, Numeral 10 digits m ∧ n.toInt = -m := by
  have hparse : parseI64 ('-' :: digits) =
      (fromStrRadix 10 (2 ^ 63 + 1) digits).toOption.map fun m : ℕ => Int64.ofInt (-m) := by
    unfold parseI64
    split
    · next heq =>
      cases heq
      exact absurd rfl h
    · next heq =>
      cases heq
      cases fromStrRadix 10 (2 ^ 63 + 1) digits <;> rfl
    · next hminus => exact absurd rfl (hminus digits)
  have hlow := Int64.le_toInt n
  rw [hparse, Option.map_eq_some_iff]
  refine exists_congr fun m => ?_
  rw [fromStrRadix_toOption_eq_some_iff (by omega)]
  constructor
  · rintro ⟨⟨hm, hnumeral⟩, hn⟩
    exact ⟨hnumeral, (int64_ofInt_eq_iff (by omega) (by omega) n).mp hn⟩
  · rintro ⟨hnumeral, hn⟩
    exact ⟨⟨by omega, hnumeral⟩, (int64_ofInt_eq_iff (by omega) (by omega) n).mpr hn⟩

theorem parseI64_unsigned {text : List Char} (h : text.head? ≠ some '-') (n : Int64) :
    parseI64 text = some n ↔ ∃ m, Numeral 10 text m ∧ n.toInt = m := by
  have hparse : parseI64 text =
      (fromStrRadix 10 (2 ^ 63) text).toOption.map fun m : ℕ => Int64.ofInt m := by
    unfold parseI64
    split
    · exact absurd rfl h
    · exact absurd rfl h
    · cases fromStrRadix 10 (2 ^ 63) text with
      | error e => rfl
      | ok m => exact congrArg some Int64.ofInt_eq_ofNat.symm
  have hhigh := Int64.toInt_lt n
  rw [hparse, Option.map_eq_some_iff]
  refine exists_congr fun m => ?_
  rw [fromStrRadix_toOption_eq_some_iff (by omega)]
  constructor
  · rintro ⟨⟨hm, hnumeral⟩, hn⟩
    exact ⟨hnumeral, (int64_ofInt_eq_iff (by omega) (by omega) n).mp hn⟩
  · rintro ⟨hnumeral, hn⟩
    exact ⟨⟨by omega, hnumeral⟩, (int64_ofInt_eq_iff (by omega) (by omega) n).mpr hn⟩

theorem parseI64_eq_some_iff (text : List Char) (n : Int64) :
    parseI64 text = some n ↔ SignedNumeral text n := by
  unfold SignedNumeral
  by_cases hminus : text.head? = some '-'
  · obtain ⟨digits, rfl⟩ := List.head?_eq_some_iff.mp hminus
    have hunsigned : ¬∃ m : ℕ, Numeral 10 ('-' :: digits) m ∧ n.toInt = m :=
      fun ⟨m, hm, _⟩ => not_numeral_minus digits m hm
    rw [or_iff_right hunsigned]
    by_cases hplus : digits.head? = some '+'
    · obtain ⟨rest, rfl⟩ := List.head?_eq_some_iff.mp hplus
      refine ⟨fun h => (by cases h), ?_⟩
      rintro ⟨_, m, heq, hne, -, -⟩
      cases heq
      exact absurd rfl hne
    · rw [parseI64_minus hplus]
      constructor
      · exact fun ⟨m, hm, hn⟩ => ⟨digits, m, rfl, hplus, hm, hn⟩
      · rintro ⟨_, m, heq, -, hm, hn⟩
        cases heq
        exact ⟨m, hm, hn⟩
  · rw [parseI64_unsigned hminus]
    refine ⟨.inl, fun h => h.resolve_right ?_⟩
    rintro ⟨digits, _, rfl, -⟩
    exact hminus rfl

theorem SourceText.unique {text function file function' file' : List Char} {line line' : Int64}
    (h : SourceText text function file line) (h' : SourceText text function' file' line') :
    function = function' ∧ file = file' ∧ line = line' := by
  obtain ⟨source, number, hsource, hnumber, hline⟩ := h
  obtain ⟨source', number', hsource', hnumber', hline'⟩ := h'
  obtain ⟨rfl, rfl⟩ := hsource.unique hsource'
  obtain ⟨rfl, rfl⟩ := hnumber.unique hnumber'
  have hsome := ((parseI64_eq_some_iff _ _).mpr hline).symm.trans
    ((parseI64_eq_some_iff _ _).mpr hline')
  exact ⟨rfl, rfl, Option.some.inj hsome⟩

theorem sourceOf_of_source {text function file : List Char} {line : Int64}
    (h : SourceText text function file line) :
    sourceOf text = (String.ofList (trimEnd function), String.ofList file, line) := by
  obtain ⟨source, number, hsource, hnumber, hline⟩ := h
  unfold sourceOf
  rw [(rsplitOnce_eq_some_iff _ _ _ _).mpr hsource]
  dsimp only [bind, Option.bind]
  rw [(rsplitOnce_eq_some_iff _ _ _ _).mpr hnumber]
  dsimp only
  rw [(parseI64_eq_some_iff _ _).mpr hline]
  rfl

theorem sourceOf_of_no_source {text : List Char}
    (h : ∀ function file line, ¬SourceText text function file line) :
    sourceOf text = (String.ofList text, "", 0) := by
  unfold sourceOf
  cases hsource : rsplitOnce [' '] text with
  | none => rfl
  | some parts =>
    obtain ⟨function, source⟩ := parts
    dsimp only [bind, Option.bind]
    cases hnumber : rsplitOnce [':'] source with
    | none => rfl
    | some parts =>
      obtain ⟨file, number⟩ := parts
      dsimp only
      cases hline : parseI64 number with
      | none => rfl
      | some line =>
        exact absurd ⟨source, number, (rsplitOnce_eq_some_iff _ _ _ _).mp hsource,
          (rsplitOnce_eq_some_iff _ _ _ _).mp hnumber, (parseI64_eq_some_iff _ _).mp hline⟩
          (h function file line)

theorem sourceOf_eq_iff (text : List Char) (frame : HeapFrame) :
    sourceOf text = (frame.function, frame.file, frame.line) ↔ NamedText text frame := by
  unfold NamedText
  by_cases hsource : ∃ function file line, SourceText text function file line
  · obtain ⟨function, file, line, hsource⟩ := hsource
    rw [sourceOf_of_source hsource, Prod.mk.injEq, Prod.mk.injEq]
    constructor
    · rintro ⟨hfunction, hfile, rfl⟩
      exact .inl ⟨function, file, hsource, hfunction.symm, hfile.symm⟩
    · rintro (⟨function', file', hsource', hfunction, hfile⟩ | ⟨hnone, -⟩)
      · obtain ⟨rfl, rfl, hline⟩ := hsource.unique hsource'
        exact ⟨hfunction.symm, hfile.symm, hline⟩
      · exact absurd hsource (hnone function file line)
  · push Not at hsource
    rw [sourceOf_of_no_source hsource, Prod.mk.injEq, Prod.mk.injEq]
    constructor
    · rintro ⟨hfunction, hfile, hline⟩
      exact .inr ⟨hsource, hfunction.symm, hfile.symm, hline.symm⟩
    · rintro (⟨function, file, hfound, -⟩ | ⟨-, hfunction, hfile, hline⟩)
      · exact absurd hfound (hsource function file _)
      · exact ⟨hfunction.symm, hfile.symm, hline.symm⟩

theorem parseFrame_eq_ok_iff (text : List Char) (frame : HeapFrame) :
    parseFrame text = .ok frame ↔ FrameText text frame := by
  unfold parseFrame FrameText
  simp only [Fallible.bind_eq_ok, context_eq_ok_iff, splitOnce_eq_some_iff, hex_eq_ok_iff,
    ← sourceOf_eq_iff, Prod.exists, pure, Except.pure, Except.ok.injEq]
  constructor
  · rintro ⟨address, rest, haddress, image, named, hnamed, a, ha, rfl⟩
    exact ⟨address, rest, image, named, haddress, hnamed, ha, rfl, rfl⟩
  · rintro ⟨address, rest, image, named, haddress, hnamed, ha, hsource, hmapping⟩
    refine ⟨address, rest, haddress, image, named, hnamed, frame.address, ha, ?_⟩
    rw [hsource, ← hmapping]

theorem mapM_eq_ok_iff {α β ε : Type} {f : α → Except ε β} {R : α → β → Prop}
    (h : ∀ a b, f a = .ok b ↔ R a b) (xs : List α) (ys : List β) :
    xs.mapM f = .ok ys ↔ List.Forall₂ R xs ys := by
  induction xs generalizing ys with
  | nil =>
    rw [Fallible.mapM_nil_eq_ok_iff, List.forall₂_nil_left_iff]
  | cons x xs ih =>
    rw [Fallible.mapM_cons_eq_ok_iff, List.forall₂_cons_left_iff]
    constructor
    · rintro ⟨y, rest, hy, hrest, rfl⟩
      exact ⟨y, rest, (h x y).mp hy, (ih rest).mp hrest, rfl⟩
    · rintro ⟨y, rest, hy, hrest, rfl⟩
      exact ⟨y, rest, (h x y).mpr hy, (ih rest).mpr hrest, rfl⟩

theorem PiecesFromEnd.ne_nil {pattern text : List Char} {pieces : List (List Char)}
    (h : PiecesFromEnd pattern text pieces) : pieces ≠ [] := by
  cases h
  · exact List.cons_ne_nil _ _
  · exact List.cons_ne_nil _ _

theorem StackText.ne_nil {text : List Char} {stack : Stack} (h : StackText text stack) :
    stack ≠ [] := by
  obtain ⟨pieces, hpieces, hframes⟩ := h
  intro hnil
  rw [hnil, List.forall₂_nil_right_iff] at hframes
  exact PiecesFromEnd.ne_nil hpieces hframes

theorem AllocLine.stack_ne_nil {line : Line} {address size : UInt64} {stack : Stack}
    (h : AllocLine line address size stack) : stack ≠ [] := by
  obtain ⟨-, _, _, _, _, _, -, -, -, -, -, hstack⟩ := h
  exact hstack.ne_nil

theorem StackText.unmapped {text : List Char} {stack : Stack} (h : StackText text stack) :
    Unmapped stack := by
  obtain ⟨pieces, -, hframes⟩ := h
  induction hframes with
  | nil => exact fun _ hframe => nomatch hframe
  | cons hframe _ ih =>
    obtain ⟨_, _, _, _, -, -, -, -, hmapping⟩ := hframe
    intro frame hmem
    rcases List.mem_cons.mp hmem with rfl | hmem
    · exact hmapping
    · exact ih frame hmem

theorem EventLines.unmapped {events : List Line} {calls : List Call}
    (h : EventLines events calls) : ∀ b ∈ allocations calls, Unmapped b.stack := by
  induction h with
  | nil => exact fun _ hb => nomatch hb
  | skip _ _ ih => exact ih
  | alloc hline _ ih =>
    obtain ⟨-, _, _, _, _, _, -, -, -, -, -, hstack⟩ := hline
    intro b hb
    rcases List.mem_cons.mp hb with rfl | hb
    · exact hstack.unmapped
    · exact ih b hb
  | free _ _ ih => exact ih

theorem parseStack_eq_ok_iff (text : List Char) (stack : Stack) :
    parseStack text = .ok stack ↔ StackText text stack := by
  have hpattern : " | ".toList ≠ [] := by decide
  have hpieces := rsplit_eq_iff hpattern (trim text)
  have hframes := mapM_eq_ok_iff parseFrame_eq_ok_iff (rsplit " | ".toList (trim text))
  unfold parseStack
  rw [Fallible.bind_eq_ok]
  constructor
  · rintro ⟨frames, hparsed, h⟩
    have hne : ¬frames = [] := by
      rintro rfl
      cases h
    rw [if_neg hne] at h
    cases h
    exact ⟨_, (hpieces _).mp rfl, (hframes _).mp hparsed⟩
  · intro h
    have hne := h.ne_nil
    obtain ⟨pieces, hsplit, hall⟩ := h
    rw [← (hpieces _).mpr hsplit] at hall
    refine ⟨stack, (hframes _).mpr hall, ?_⟩
    rw [if_neg hne]
    rfl

namespace HistoryReader

theorem parseAlloc_eq_ok_iff {line : Line} (hline : "ALLOC ".toList <+: line)
    (address size : UInt64) (stack : Stack) :
    parseAlloc line = .ok (address, size, stack) ↔ AllocLine line address size stack := by
  have hsized (text : List Char) : text.getLast? = some ']' ↔ ∃ digits, text = digits ++ [']'] := by
    rw [List.getLast?_eq_some_iff]
  unfold parseAlloc AllocLine
  simp only [Fallible.bind_eq_ok, context_eq_ok_iff, splitOnce_eq_some_iff, Prod.exists]
  constructor
  · rintro ⟨record, text, hrecord, word, hword, before, sized, hsize, h⟩
    by_cases hlast : sized.getLast? = some ']'
    · rw [if_neg (not_not.mpr hlast)] at h
      obtain ⟨digits, rfl⟩ := (hsized sized).mp hlast
      obtain ⟨-, -, h⟩ := Fallible.bind_eq_ok.mp h
      rw [List.dropLast_concat] at h
      obtain ⟨n, hn, h⟩ := Fallible.bind_eq_ok.mp h
      obtain ⟨a, ha, h⟩ := Fallible.bind_eq_ok.mp h
      obtain ⟨frames, hframes, h⟩ := Fallible.bind_eq_ok.mp h
      cases h
      exact ⟨hline, record, text, word, before, digits, hrecord, hword, (hex_eq_ok_iff _ _).mp ha,
        hsize, (parseU64_eq_ok_iff (by omega) _ _).mp hn, (parseStack_eq_ok_iff _ _).mp hframes⟩
    · rw [if_pos hlast] at h
      cases h
  · rintro ⟨-, record, text, word, before, digits, hrecord, hword, ha, hsize, hn, hframes⟩
    refine ⟨record, text, hrecord, word, hword, before, digits ++ [']'], hsize, ?_⟩
    rw [if_neg (not_not.mpr ((hsized _).mpr ⟨digits, rfl⟩)), List.dropLast_concat]
    refine Fallible.bind_eq_ok.mpr ⟨size, (parseU64_eq_ok_iff (by omega) _ _).mpr hn, ?_⟩
    refine Fallible.bind_eq_ok.mpr ⟨address, (hex_eq_ok_iff _ _).mpr ha, ?_⟩
    exact Fallible.bind_eq_ok.mpr ⟨stack, (parseStack_eq_ok_iff _ _).mpr hframes, rfl⟩

theorem parseFree_eq_ok_iff {line : Line} (hline : "FREE ".toList <+: line) (address : UInt64) :
    parseFree line = .ok address ↔ FreeLine line address := by
  unfold parseFree FreeLine
  simp only [Fallible.bind_eq_ok, context_eq_ok_iff, hex_eq_ok_iff]
  exact ⟨fun h => ⟨hline, h⟩, fun h => h.2⟩

end HistoryReader

theorem not_prefix_of_head {a b : Char} (hne : a ≠ b) {start start' line : List Char}
    (h : (a :: start) <+: line) : ¬(b :: start') <+: line := by
  rintro ⟨rest', hrest'⟩
  obtain ⟨rest, hrest⟩ := h
  rw [← hrest] at hrest'
  exact hne (List.cons.inj hrest').1.symm

theorem trim_ne_nil {c : Char} (hc : isWhitespace c = false) (start : List Char) {line : Line}
    (h : (c :: start) <+: line) : trim line ≠ [] := by
  obtain ⟨rest, rfl⟩ := h
  have hfirst : ((c :: start) ++ rest).dropWhile isWhitespace = (c :: start) ++ rest := by
    rw [List.cons_append, List.dropWhile_cons, hc]
    rfl
  unfold trim trimEnd
  rw [hfirst]
  intro hnil
  have hall := List.rdropWhile_eq_nil_iff.mp hnil
  have hcwhite := hall c (by simp)
  rw [hc] at hcwhite
  cases hcwhite

theorem Skipped.not_alloc {line : Line} (h : Skipped line) : ¬"ALLOC ".toList <+: line := by
  intro halloc
  rcases h with h | h | h
  · exact trim_ne_nil (by decide) _ halloc h
  · exact not_prefix_of_head (by decide) h halloc
  · exact not_prefix_of_head (by decide) h halloc

theorem Skipped.not_free {line : Line} (h : Skipped line) : ¬"FREE ".toList <+: line := by
  intro hfree
  rcases h with h | h | h
  · exact trim_ne_nil (by decide) _ hfree h
  · exact not_prefix_of_head (by decide) h hfree
  · exact not_prefix_of_head (by decide) h hfree

theorem Skipped.not_binaryImages {line : Line} (h : Skipped line) : line ≠ binaryImages := by
  rintro rfl
  rcases h with h | h | h
  · exact absurd h (by decide)
  · exact absurd h (by decide)
  · exact absurd h (by decide)

theorem not_skipped_iff (line : Line) : ¬Skipped line ↔
    trim line ≠ [] ∧ ¬"VM_ALLOC ".toList <+: line ∧ ¬"VM_DEALLOC ".toList <+: line := by
  unfold Skipped
  rw [not_or, not_or]

namespace HistoryReader

variable {r r' : HistoryReader}

structure InEvents (r : HistoryReader) : Prop where
  opened : r.section_ = true
  before : r.imagesSection = false

theorem InEvents.separator (h : r.InEvents) : r.read separator = .ok r := by
  have hsame : { r with section_ := true } = r := by
    rw [← h.opened]
  unfold read
  rw [if_neg (by rw [h.before]; decide), if_neg (by decide)]
  change Except.ok { r with section_ := true } = _
  rw [hsame]

theorem InEvents.skipped (h : r.InEvents) {line : Line} (hline : Skipped line) :
    r.read line = .ok r := by
  by_cases hseparator : line = Heap.separator
  · rw [hseparator, h.separator]
  · have hnot : ¬(trim line ≠ [] ∧ ¬"VM_ALLOC ".toList <+: line ∧
        ¬"VM_DEALLOC ".toList <+: line) := by
      rw [← not_skipped_iff]
      exact not_not.mpr hline
    unfold read
    rw [if_neg (by rw [h.before]; decide), if_neg hline.not_binaryImages, if_neg hseparator,
      if_neg (by rw [h.opened]; decide), if_neg hline.not_alloc, if_neg hline.not_free,
      if_neg hnot]

theorem InEvents.alloc (h : r.InEvents) {line : Line} (hline : "ALLOC ".toList <+: line) :
    r.read line = parseAlloc line >>= fun call => r.allocate call.1 call.2.1 call.2.2 := by
  have hne (other : Line) (hother : ¬"ALLOC ".toList <+: other) : line ≠ other := by
    rintro rfl
    exact hother hline
  unfold read
  rw [if_neg (by rw [h.before]; decide), if_neg (hne _ (by decide)), if_neg (hne _ (by decide)),
    if_neg (by rw [h.opened]; decide), if_pos hline]

theorem InEvents.free (h : r.InEvents) {line : Line} (hline : "FREE ".toList <+: line) :
    r.read line = parseFree line >>= fun address => .ok (r.release address) := by
  have hne (other : Line) (hother : ¬"FREE ".toList <+: other) : line ≠ other := by
    rintro rfl
    exact hother hline
  have halloc : ¬"ALLOC ".toList <+: line := not_prefix_of_head (by decide) hline
  unfold read
  rw [if_neg (by rw [h.before]; decide), if_neg (hne _ (by decide)), if_neg (hne _ (by decide)),
    if_neg (by rw [h.opened]; decide), if_neg halloc, if_pos hline]
  rfl

theorem InEvents.refused (h : r.InEvents) {line : Line} (himages : line ≠ binaryImages)
    (hseparator : line ≠ Heap.separator) (halloc : ¬"ALLOC ".toList <+: line)
    (hfree : ¬"FREE ".toList <+: line) (hskipped : ¬Skipped line) : r.read line ≠ .ok r' := by
  unfold read
  rw [if_neg (by rw [h.before]; decide), if_neg himages, if_neg hseparator,
    if_neg (by rw [h.opened]; decide), if_neg halloc, if_neg hfree,
    if_pos ((not_skipped_iff line).mp hskipped)]
  intro hok
  cases hok

end HistoryReader

end PProfessor.Heap
