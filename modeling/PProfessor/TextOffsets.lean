import PProfessor.TextSplit

set_option autoImplicit false

/-!
# Text cut at byte offsets

`find`, `rfind` and `get` of the standard library count the bytes of the UTF-8 encoding; each has
the shape of the texts on which it succeeds. The words of a text are what stands between blanks.
-/
namespace PProfessor.Text

def utf8Length (text : List Char) : ℕ := (text.map Char.utf8Size).sum

@[simp] theorem utf8Length_nil : utf8Length [] = 0 := rfl

@[simp] theorem utf8Length_cons (c : Char) (text : List Char) :
    utf8Length (c :: text) = c.utf8Size + utf8Length text := rfl

@[simp] theorem utf8Length_append (a b : List Char) :
    utf8Length (a ++ b) = utf8Length a + utf8Length b := by
  simp [utf8Length]

theorem utf8Length_eq_zero {text : List Char} : utf8Length text = 0 ↔ text = [] := by
  cases text with
  | nil => simp
  | cons c text =>
    have hpos := c.utf8Size_pos
    rw [utf8Length_cons]
    simp only [reduceCtorEq, iff_false]
    omega

/-- `str::find` of a character. -/
def find (c : Char) : List Char → Option ℕ
  | [] => none
  | x :: xs => if x = c then some 0 else (find c xs).map fun n => x.utf8Size + n

/-- `str::rfind` of a character. -/
def rfind (c : Char) : List Char → Option ℕ
  | [] => none
  | x :: xs =>
    match rfind c xs with
    | some n => some (x.utf8Size + n)
    | none => if x = c then some 0 else none

/-- `str::get(start..)`: nothing off a character boundary. -/
def getFrom : ℕ → List Char → Option (List Char)
  | 0, text => some text
  | _ + 1, [] => none
  | n + 1, x :: xs => if x.utf8Size ≤ n + 1 then getFrom (n + 1 - x.utf8Size) xs else none

/-- `str::get(..stop)`. -/
def getTo : ℕ → List Char → Option (List Char)
  | 0, _ => some []
  | _ + 1, [] => none
  | n + 1, x :: xs =>
    if x.utf8Size ≤ n + 1 then (getTo (n + 1 - x.utf8Size) xs).map fun part => x :: part else none

/-- `str::get(start..stop)`. -/
def get (start stop : ℕ) (text : List Char) : Option (List Char) :=
  if start ≤ stop then (getFrom start text).bind (getTo (stop - start)) else none

theorem find_append {c : Char} {before : List Char} (h : c ∉ before) (after : List Char) :
    find c (before ++ c :: after) = some (utf8Length before) := by
  induction before with
  | nil => rw [List.nil_append, find, if_pos rfl, utf8Length_nil]
  | cons x xs ih =>
    rw [List.mem_cons, not_or] at h
    rw [List.cons_append, find, if_neg (Ne.symm h.1), ih h.2, Option.map_some, utf8Length_cons]

theorem rfind_eq_none_iff (c : Char) (text : List Char) : rfind c text = none ↔ c ∉ text := by
  induction text with
  | nil => simp [rfind]
  | cons x xs ih =>
    rw [rfind, List.mem_cons, not_or]
    cases h : rfind c xs with
    | none => simp [← ih, h, eq_comm]
    | some n => simp [← ih, h]

theorem rfind_append {c : Char} (before : List Char) {after : List Char} (h : c ∉ after) :
    rfind c (before ++ c :: after) = some (utf8Length before) := by
  induction before with
  | nil =>
    rw [List.nil_append, rfind, (rfind_eq_none_iff c after).mpr h, if_pos rfl, utf8Length_nil]
  | cons x xs ih => rw [List.cons_append, rfind, ih, utf8Length_cons]

theorem getFrom_zero (text : List Char) : getFrom 0 text = some text := by
  cases text <;> rfl

theorem getTo_zero (text : List Char) : getTo 0 text = some [] := by
  cases text <;> rfl

theorem getFrom_zero_iff (text rest : List Char) :
    getFrom 0 text = some rest ↔ ∃ before, text = before ++ rest ∧ utf8Length before = 0 := by
  rw [getFrom_zero, Option.some.injEq]
  simp only [utf8Length_eq_zero]
  constructor
  · rintro rfl
    exact ⟨[], rfl, rfl⟩
  · rintro ⟨_, htext, rfl⟩
    exact htext

theorem getTo_zero_iff (text part : List Char) :
    getTo 0 text = some part ↔ ∃ after, text = part ++ after ∧ utf8Length part = 0 := by
  rw [getTo_zero, Option.some.injEq]
  constructor
  · rintro rfl
    exact ⟨text, rfl, rfl⟩
  · rintro ⟨_, -, hlength⟩
    exact (utf8Length_eq_zero.mp hlength).symm

theorem getFrom_eq_some_iff (n : ℕ) (text rest : List Char) :
    getFrom n text = some rest ↔ ∃ before, text = before ++ rest ∧ utf8Length before = n := by
  induction text generalizing n with
  | nil =>
    cases n with
    | zero => exact getFrom_zero_iff _ rest
    | succ n =>
      rw [getFrom]
      constructor
      · intro h
        cases h
      · rintro ⟨before, htext, hlength⟩
        rw [(List.append_eq_nil_iff.mp htext.symm).1, utf8Length_nil] at hlength
        cases hlength
  | cons x xs ih =>
    cases n with
    | zero => exact getFrom_zero_iff _ rest
    | succ n =>
      rw [getFrom]
      constructor
      · intro h
        split_ifs at h with hx
        obtain ⟨before, rfl, hlength⟩ := (ih _).mp h
        exact ⟨x :: before, rfl, by rw [utf8Length_cons, hlength]; omega⟩
      · rintro ⟨before, htext, hlength⟩
        cases before with
        | nil => cases hlength
        | cons y before =>
          obtain ⟨rfl, hxs⟩ := List.cons.inj htext
          rw [utf8Length_cons] at hlength
          rw [if_pos (by omega)]
          exact (ih _).mpr ⟨before, hxs, by omega⟩

theorem getTo_eq_some_iff (n : ℕ) (text part : List Char) :
    getTo n text = some part ↔ ∃ after, text = part ++ after ∧ utf8Length part = n := by
  induction text generalizing n part with
  | nil =>
    cases n with
    | zero => exact getTo_zero_iff _ part
    | succ n =>
      rw [getTo]
      constructor
      · intro h
        cases h
      · rintro ⟨after, htext, hlength⟩
        rw [(List.append_eq_nil_iff.mp htext.symm).1, utf8Length_nil] at hlength
        cases hlength
  | cons x xs ih =>
    cases n with
    | zero => exact getTo_zero_iff _ part
    | succ n =>
      rw [getTo]
      constructor
      · intro h
        split_ifs at h with hx
        obtain ⟨part', hpart, rfl⟩ := Option.map_eq_some_iff.mp h
        obtain ⟨after, rfl, hlength⟩ := (ih _ _).mp hpart
        exact ⟨after, rfl, by rw [utf8Length_cons, hlength]; omega⟩
      · rintro ⟨after, htext, hlength⟩
        cases part with
        | nil => cases hlength
        | cons y part =>
          obtain ⟨rfl, hxs⟩ := List.cons.inj htext
          rw [utf8Length_cons] at hlength
          rw [if_pos (by omega), (ih _ part).mpr ⟨after, hxs, by omega⟩, Option.map_some]

theorem get_eq_some_iff (start stop : ℕ) (text part : List Char) :
    get start stop text = some part ↔ ∃ before after, text = before ++ (part ++ after) ∧
      utf8Length before = start ∧ start + utf8Length part = stop := by
  unfold get
  split_ifs with h
  · simp only [Option.bind_eq_some_iff, getFrom_eq_some_iff, getTo_eq_some_iff]
    constructor
    · rintro ⟨_, ⟨before, rfl, hbefore⟩, after, rfl, hpart⟩
      exact ⟨before, after, rfl, hbefore, by omega⟩
    · rintro ⟨before, after, rfl, hbefore, hpart⟩
      exact ⟨_, ⟨before, rfl, hbefore⟩, after, rfl, by omega⟩
  · constructor
    · intro h
      cases h
    · rintro ⟨_, _, _, _, hpart⟩
      omega

section

variable {α : Type} {blank : α → Bool}

def words (blank : α → Bool) (text : List α) : List (List α) :=
  (text.splitOnP blank).filter fun word => word ≠ []

structure Word (blank : α → Bool) (word : List α) : Prop where
  nonempty : word ≠ []
  solid : ∀ c ∈ word, blank c = false

theorem words_append_blank {c : α} (hc : blank c) (a b : List α) :
    words blank (a ++ c :: b) = words blank a ++ words blank b := by
  rw [words, List.splitOnP_append_cons a b hc, List.filter_append]
  rfl

theorem Word.words_eq {word : List α} (h : Word blank word) : words blank word = [word] := by
  rw [words, List.splitOnP_eq_singleton fun c hc => by simp [h.solid c hc]]
  simp [h.nonempty]

theorem words_append_blanks (text : List α) {ending : List α} (h : ∀ c ∈ ending, blank c) :
    words blank (text ++ ending) = words blank text := by
  induction ending generalizing text with
  | nil => rw [List.append_nil]
  | cons c ending ih =>
    rw [List.forall_mem_cons] at h
    have hnone : words blank ending = [] := ih [] h.2
    rw [words_append_blank h.1, hnone, List.append_nil]

theorem words_separated {c : α} (hc : blank c) {word : List α} {rest : List (List α)}
    (hword : Word blank word) (hrest : ∀ w ∈ rest, Word blank w) :
    words blank (word ++ rest.flatMap fun w => c :: w) = word :: rest := by
  induction rest generalizing word with
  | nil => rw [List.flatMap_nil, List.append_nil, hword.words_eq]
  | cons next rest ih =>
    rw [List.forall_mem_cons] at hrest
    rw [List.flatMap_cons, List.cons_append, words_append_blank hc, hword.words_eq,
      ih hrest.1 hrest.2]
    rfl

end

end PProfessor.Text
