import Mathlib.Tactic

set_option autoImplicit false

/-!
# Marks and escapes

A text in which a mark counts unless an odd run of escapes stands before it: how the
count goes through appending, replacing and the cells of a row.
-/
namespace PProfessor.Text

variable {α : Type} [DecidableEq α]

section Count

variable (mark escape : α)

def escapesBefore (before : List α) : ℕ := (before.takeWhile (· = escape)).length

/-- The marks of a text behind `before` that no odd run of escapes precedes. -/
def unescapedFrom : List α → List α → ℕ
  | _, [] => 0
  | before, c :: rest =>
    (if c = mark ∧ escapesBefore escape before % 2 = 0 then 1 else 0) +
      unescapedFrom (c :: before) rest

def unescaped (text : List α) : ℕ := unescapedFrom mark escape [] text

variable {mark escape}

theorem escapesBefore_cons_self (before : List α) :
    escapesBefore escape (escape :: before) = escapesBefore escape before + 1 := by
  simp [escapesBefore]

theorem escapesBefore_cons_of_ne {c : α} (hc : c ≠ escape) (before : List α) :
    escapesBefore escape (c :: before) = 0 := by
  simp [escapesBefore, hc]

theorem unescapedFrom_append (before xs ys : List α) :
    unescapedFrom mark escape before (xs ++ ys) =
      unescapedFrom mark escape before xs +
        unescapedFrom mark escape (xs.reverse ++ before) ys := by
  induction xs generalizing before with
  | nil => simp [unescapedFrom]
  | cons c rest ih =>
    simp only [List.cons_append, unescapedFrom, ih, List.reverse_cons, List.append_assoc,
      List.nil_append]
    omega

theorem unescapedFrom_congr {before before' : List α}
    (h : escapesBefore escape before % 2 = escapesBefore escape before' % 2) (text : List α) :
    unescapedFrom mark escape before text = unescapedFrom mark escape before' text := by
  induction text generalizing before before' with
  | nil => rfl
  | cons c rest ih =>
    have hrest :
        escapesBefore escape (c :: before) % 2 = escapesBefore escape (c :: before') % 2 := by
      by_cases hc : c = escape
      · subst hc
        rw [escapesBefore_cons_self, escapesBefore_cons_self]
        omega
      · rw [escapesBefore_cons_of_ne hc, escapesBefore_cons_of_ne hc]
    simp only [unescapedFrom, h, ih hrest]

theorem unescapedFrom_cons {c : α} (hc : c ≠ escape) (before text : List α) :
    unescapedFrom mark escape (c :: before) text = unescaped mark escape text :=
  unescapedFrom_congr (by rw [escapesBefore_cons_of_ne hc]; rfl) text

theorem unescapedFrom_eq_zero {text : List α} (h : mark ∉ text) (before : List α) :
    unescapedFrom mark escape before text = 0 := by
  induction text generalizing before with
  | nil => rfl
  | cons c rest ih =>
    rw [List.mem_cons, not_or] at h
    have hne : ¬(c = mark ∧ escapesBefore escape before % 2 = 0) := fun hm => h.1 hm.1.symm
    rw [unescapedFrom, if_neg hne, ih h.2]

theorem unescaped_eq_zero {text : List α} (h : mark ∉ text) : unescaped mark escape text = 0 :=
  unescapedFrom_eq_zero h []

theorem unescaped_enclosed {opening closing : List α} {last : α} (hlast : last ≠ escape)
    (hopening : mark ∉ opening ++ [last]) (hclosing : mark ∉ closing) (text : List α) :
    unescaped mark escape (opening ++ [last] ++ text ++ closing) = unescaped mark escape text := by
  have hreverse : (opening ++ [last]).reverse ++ [] = last :: opening.reverse := by simp
  rw [unescaped, unescapedFrom_append, unescapedFrom_append, unescapedFrom_eq_zero hopening,
    unescapedFrom_eq_zero hclosing, hreverse, unescapedFrom_cons hlast]
  omega

theorem unescaped_map {f : α → α} (hmark : ∀ c, f c = mark ↔ c = mark)
    (hescape : ∀ c, f c = escape ↔ c = escape) (text : List α) :
    unescaped mark escape (text.map f) = unescaped mark escape text := by
  have hrun (before : List α) :
      escapesBefore escape (before.map f) = escapesBefore escape before := by
    induction before with
    | nil => rfl
    | cons c rest ih =>
      by_cases hc : c = escape
      · rw [List.map_cons, (hescape c).mpr hc, hc, escapesBefore_cons_self, escapesBefore_cons_self,
          ih]
      · rw [List.map_cons, escapesBefore_cons_of_ne hc,
          escapesBefore_cons_of_ne (fun h => hc ((hescape c).mp h))]
  have hfrom (before : List α) : unescapedFrom mark escape (before.map f) (text.map f) =
      unescapedFrom mark escape before text := by
    induction text generalizing before with
    | nil => rfl
    | cons c rest ih =>
      have hrest := ih (c :: before)
      rw [List.map_cons] at hrest
      simp only [List.map_cons, unescapedFrom, hmark, hrun, hrest]
  exact hfrom []

end Count

/-- `str::replace` of one character. -/
def replaceChar (c : α) (replacement text : List α) : List α :=
  text.flatMap fun d => if d = c then replacement else [d]

theorem mem_replaceChar {c d : α} {replacement text : List α} :
    d ∈ replaceChar c replacement text ↔ c ∈ text ∧ d ∈ replacement ∨ d ≠ c ∧ d ∈ text := by
  unfold replaceChar
  rw [List.mem_flatMap]
  constructor
  · rintro ⟨e, he, hd⟩
    split_ifs at hd with hec
    · exact .inl ⟨hec ▸ he, hd⟩
    · rw [List.mem_singleton] at hd
      exact .inr ⟨hd ▸ hec, hd ▸ he⟩
  · rintro (⟨hc, hd⟩ | ⟨hd, he⟩)
    · exact ⟨c, hc, by rwa [if_pos rfl]⟩
    · exact ⟨d, he, by rw [if_neg hd]; exact List.mem_singleton_self d⟩

theorem replaceChar_singleton (c d : α) (text : List α) :
    replaceChar c [d] text = text.map fun e => if e = c then d else e := by
  induction text with
  | nil => rfl
  | cons e rest ih =>
    rw [replaceChar, List.flatMap_cons, List.map_cons, ← ih]
    by_cases he : e = c
    · rw [if_pos he, if_pos he]
      rfl
    · rw [if_neg he, if_neg he]
      rfl

def escapeMarks (mark escape : α) (text : List α) : List α :=
  replaceChar mark [escape, mark] (replaceChar escape [escape, escape] text)

section Escape

variable {mark escape : α} (hne : mark ≠ escape)
include hne

theorem escapeMarks_cons (c : α) (text : List α) : escapeMarks mark escape (c :: text) =
    (if c = escape then [escape, escape] else if c = mark then [escape, mark] else [c]) ++
      escapeMarks mark escape text := by
  unfold escapeMarks replaceChar
  rw [List.flatMap_cons, List.flatMap_append]
  congr 1
  by_cases hc : c = escape
  · rw [if_pos hc, if_pos hc]
    simp [hne.symm]
  · rw [if_neg hc, if_neg hc]
    simp

theorem unescapedFrom_escapeMarks (text : List α) {before : List α}
    (h : escapesBefore escape before % 2 = 0) :
    unescapedFrom mark escape before (escapeMarks mark escape text) = 0 := by
  induction text generalizing before with
  | nil => rfl
  | cons c rest ih =>
    rw [escapeMarks_cons hne]
    by_cases hc : c = escape
    · have heven : escapesBefore escape (escape :: escape :: before) % 2 = 0 := by
        rw [escapesBefore_cons_self, escapesBefore_cons_self]
        omega
      simp only [if_pos hc, List.cons_append, List.nil_append, unescapedFrom, ih heven, hne.symm,
        false_and, if_false]
    · rw [if_neg hc]
      by_cases hm : c = mark
      · have hodd : ¬escapesBefore escape (escape :: before) % 2 = 0 := by
          rw [escapesBefore_cons_self]
          omega
        have heven : escapesBefore escape (mark :: escape :: before) % 2 = 0 := by
          rw [escapesBefore_cons_of_ne hne]
        simp only [if_pos hm, List.cons_append, List.nil_append, unescapedFrom, ih heven, hne.symm,
          hodd, false_and, and_false, if_false]
      · have heven : escapesBefore escape (c :: before) % 2 = 0 := by
          rw [escapesBefore_cons_of_ne hc]
        simp only [List.cons_append, List.nil_append, unescapedFrom, ih heven, hm, false_and,
          if_false]

theorem unescaped_escapeMarks (text : List α) :
    unescaped mark escape (escapeMarks mark escape text) = 0 :=
  unescapedFrom_escapeMarks hne text rfl

end Escape

def row (mark blank : α) (cells : List (List α)) : List α :=
  mark :: cells.flatMap fun cell => blank :: (cell ++ [blank, mark])

section Row

variable {mark escape blank : α} (hblank : blank ≠ escape) (hdistinct : blank ≠ mark)
include hblank hdistinct

theorem unescaped_row (cells : List (List α)) : unescaped mark escape (row mark blank cells) =
    1 + cells.length + (cells.map (unescaped mark escape)).sum := by
  have hcells (before : List α) : unescapedFrom mark escape before
      (cells.flatMap fun cell => blank :: (cell ++ [blank, mark])) =
        cells.length + (cells.map (unescaped mark escape)).sum := by
    induction cells generalizing before with
    | nil => rfl
    | cons cell rest ih =>
      rw [List.flatMap_cons, List.cons_append, unescapedFrom, unescapedFrom_append,
        unescapedFrom_append, unescapedFrom_cons hblank, ih, List.map_cons, List.sum_cons,
        List.length_cons]
      simp only [unescapedFrom, hdistinct, false_and, if_false, true_and,
        escapesBefore_cons_of_ne hblank, Nat.zero_mod, if_true]
      omega
  rw [unescaped, row, unescapedFrom, hcells]
  simp only [escapesBefore, List.takeWhile_nil, List.length_nil, Nat.zero_mod, and_self, if_true]
  omega

theorem unescaped_row_iff (cells : List (List α)) :
    unescaped mark escape (row mark blank cells) = 1 + cells.length ↔
      ∀ cell ∈ cells, unescaped mark escape cell = 0 := by
  rw [unescaped_row hblank hdistinct]
  have hsum : (cells.map (unescaped mark escape)).sum = 0 ↔
      ∀ cell ∈ cells, unescaped mark escape cell = 0 := by
    rw [List.sum_eq_zero_iff]
    exact List.forall_mem_map
  rw [← hsum]
  omega

omit hblank hdistinct [DecidableEq α] in
theorem mem_row_iff {c : α} (hm : c ≠ mark) (hb : c ≠ blank) (cells : List (List α)) :
    c ∈ row mark blank cells ↔ ∃ cell ∈ cells, c ∈ cell := by
  simp [row, hm, hb]

end Row

end PProfessor.Text
