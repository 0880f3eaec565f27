import Mathlib.Tactic

set_option autoImplicit false

/-!
# Texts with escapes

A marker and a fixed number of digits behind it stand for one value; any other symbol stands for
itself. A text is read from the left in one way only, and every place where an escape could stand
is one.
-/
namespace PProfessor.EscapedText

/-- Escapes of one length whose digits never include the marker. -/
structure EscapeSyntax (α β : Type) where
  marker : α
  width : ℕ
  spell : List α → Option β
  length_of_spell : ∀ {digits : List α} {value : β}, spell digits = some value →
    digits.length = width
  marker_not_mem : ∀ {digits : List α} {value : β}, spell digits = some value → marker ∉ digits

inductive Piece (α β : Type) where
  | kept (x : α)
  | escape (digits : List α) (value : β)

variable {α β : Type} (s : EscapeSyntax α β)

def Escaped (text : List α) : Prop :=
  ∃ digits value, s.spell digits = some value ∧ s.marker :: digits <+: text

/-- The pieces of a text, from the left. -/
inductive Reads : List α → List (Piece α β) → Prop
  | nil : Reads [] []
  | kept {x : α} {rest : List α} {pieces : List (Piece α β)} : ¬Escaped s (x :: rest) →
      Reads rest pieces → Reads (x :: rest) (.kept x :: pieces)
  | escape {digits rest : List α} {value : β} {pieces : List (Piece α β)} :
      s.spell digits = some value → Reads rest pieces →
        Reads (s.marker :: (digits ++ rest)) (.escape digits value :: pieces)

variable {s}

theorem digits_unique {digits digits' rest rest' : List α} {value value' : β}
    (h : s.spell digits = some value) (h' : s.spell digits' = some value')
    (heq : digits ++ rest = digits' ++ rest') : digits = digits' ∧ rest = rest' :=
  List.append_inj heq ((s.length_of_spell h).trans (s.length_of_spell h').symm)

theorem Escaped.shape {x : α} {rest : List α} (h : Escaped s (x :: rest)) :
    ∃ digits value tail, s.spell digits = some value ∧ x = s.marker ∧ rest = digits ++ tail := by
  obtain ⟨digits, value, hspell, tail, htail⟩ := h
  obtain ⟨hx, hrest⟩ := List.cons.inj htail
  exact ⟨digits, value, tail, hspell, hx.symm, hrest.symm⟩

theorem exists_reads (text : List α) : ∃ pieces, Reads s text pieces := by
  induction hn : text.length using Nat.strong_induction_on generalizing text with
  | _ n ih =>
    cases text with
    | nil => exact ⟨[], .nil⟩
    | cons x rest =>
      by_cases h : Escaped s (x :: rest)
      · obtain ⟨digits, value, tail, hspell, rfl, rfl⟩ := h.shape
        have hlt : tail.length < n := by
          rw [← hn, List.length_cons, List.length_append]
          omega
        obtain ⟨pieces, hpieces⟩ := ih tail.length hlt tail rfl
        exact ⟨_, .escape hspell hpieces⟩
      · obtain ⟨pieces, hpieces⟩ := ih rest.length (by rw [← hn, List.length_cons]; omega) rest rfl
        exact ⟨_, .kept h hpieces⟩

theorem infix_of_append {m : α} {digits front rest : List α} (hm : m ∉ front)
    (h : m :: digits <:+: front ++ rest) : m :: digits <:+: rest := by
  induction front with
  | nil => exact h
  | cons x front ih =>
    rw [List.mem_cons, not_or] at hm
    rcases List.infix_cons_iff.mp h with ⟨tail, htail⟩ | h
    · exact absurd (List.cons.inj htail).1 hm.1
    · exact ih hm.2 h

theorem Reads.mem_escape_iff {text : List α} {pieces : List (Piece α β)} (h : Reads s text pieces)
    (digits : List α) (value : β) : .escape digits value ∈ pieces ↔
      s.spell digits = some value ∧ s.marker :: digits <:+: text := by
  induction h with
  | nil => simp
  | @kept x rest pieces hnot _ ih =>
    rw [List.mem_cons, List.infix_cons_iff, ih]
    constructor
    · rintro (h | h)
      · cases h
      · exact ⟨h.1, .inr h.2⟩
    · rintro ⟨hspell, h | h⟩
      · exact absurd ⟨digits, value, hspell, h⟩ hnot
      · exact .inr ⟨hspell, h⟩
  | @escape digits' rest value' pieces hspell _ ih =>
    rw [List.mem_cons, List.infix_cons_iff, ih]
    constructor
    · rintro (h | h)
      · cases h
        exact ⟨hspell, .inl ⟨rest, rfl⟩⟩
      · exact ⟨h.1, .inr (h.2.trans (List.suffix_append digits' rest).isInfix)⟩
    · rintro ⟨hspell', ⟨tail, htail⟩ | h⟩
      · obtain ⟨rfl, -⟩ := digits_unique hspell' hspell (List.cons.inj htail).2
        rw [hspell, Option.some.injEq] at hspell'
        exact .inl (by rw [hspell'])
      · exact .inr ⟨hspell', infix_of_append (s.marker_not_mem hspell) h⟩

end PProfessor.EscapedText
