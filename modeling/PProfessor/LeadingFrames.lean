import PProfessor.Framing

set_option autoImplicit false

/-!
# The frames in front of an error

A stream begins with some complete frames, and behind them the reader waits or
fails. A receiver that loses what it found in the chunk in which the reader fails
returns those frames however the stream is cut if the reader only waits; if it fails,
exactly where a chunk ends between the last frame and the bytes that it fails on.
-/
namespace PProfessor.Framing

variable {ε α β : Type}

/-- The frames at the front of the buffer, and what is behind them. -/
def Reader.leading (r : Reader ε α β) (buffer : List α) : List β × List α :=
  match _h : r.front buffer with
  | .error _ => ([], buffer)
  | .ok none => ([], buffer)
  | .ok (some (frame, size)) =>
      let rest := r.leading (buffer.drop size)
      (frame :: rest.1, rest.2)
termination_by buffer.length
decreasing_by
  have := r.consumes buffer frame size _h
  rw [List.length_drop]
  omega

/-- The reader fails on what is behind the leading frames. -/
def Reader.Refuses (r : Reader ε α β) (buffer : List α) : Prop :=
  ∃ e, r.front (r.leading buffer).2 = .error e

/-- How many elements the leading frames take. -/
def Reader.extent (r : Reader ε α β) (buffer : List α) : ℕ :=
  buffer.length - (r.leading buffer).2.length

/-- Each chunk is appended to the buffer and the buffer drained; a failure ends this and loses
the frames of its chunk. -/
def Reader.delivered (r : Reader ε α β) (buffer : List α) : List (List α) → List β
  | [] => []
  | chunk :: chunks =>
    match r.drain (buffer ++ chunk) with
    | (.error _, _) => []
    | (.ok frames, rest) => frames ++ r.delivered rest chunks

/-- Whether there is a frame shows on the elements it takes, and whether there is an error on the
first `width`. -/
structure Reader.Peeks (r : Reader ε α β) (width : ℕ) : Prop where
  found : ∀ buffer frame size, r.front buffer = .ok (some (frame, size)) ↔
    size ≤ buffer.length ∧ r.front (buffer.take size) = .ok (some (frame, size))
  failed : ∀ buffer e, r.front buffer = .error e ↔
    width ≤ buffer.length ∧ r.front (buffer.take width) = .error e

namespace Reader

variable {r : Reader ε α β} {width : ℕ} {buffer more : List α}

theorem leading_of_error {e : ε} (h : r.front buffer = .error e) :
    r.leading buffer = ([], buffer) := by
  rw [leading]
  split <;> simp_all

theorem leading_of_none (h : r.front buffer = .ok none) : r.leading buffer = ([], buffer) := by
  rw [leading]
  split <;> simp_all

theorem leading_of_some {frame : β} {size : ℕ} (h : r.front buffer = .ok (some (frame, size))) :
    r.leading buffer = (frame :: (r.leading (buffer.drop size)).1,
      (r.leading (buffer.drop size)).2) := by
  rw [leading]
  split <;> simp_all

theorem length_leading_le (r : Reader ε α β) (buffer : List α) :
    (r.leading buffer).2.length ≤ buffer.length := by
  induction buffer using Reader.leading.induct r with
  | case1 buffer e herror => rw [leading_of_error herror]
  | case2 buffer hnone => rw [leading_of_none hnone]
  | case3 buffer frame size hsome ih =>
    rw [leading_of_some hsome]
    rw [List.length_drop] at ih
    change (r.leading (buffer.drop size)).2.length ≤ _
    omega

theorem front_leading (r : Reader ε α β) (buffer : List α) :
    r.front (r.leading buffer).2 = .ok none ∨ r.Refuses buffer := by
  unfold Refuses
  induction buffer using Reader.leading.induct r with
  | case1 buffer e herror =>
    rw [leading_of_error herror]
    exact .inr ⟨e, herror⟩
  | case2 buffer hnone =>
    rw [leading_of_none hnone]
    exact .inl hnone
  | case3 buffer frame size hsome ih =>
    rw [leading_of_some hsome]
    exact ih

theorem drain_of_refuses (h : r.Refuses buffer) : ∃ e rest, r.drain buffer = (.error e, rest) := by
  unfold Refuses at h
  induction buffer using Reader.leading.induct r with
  | case1 buffer e herror => exact ⟨e, buffer, r.drain_of_error herror⟩
  | case2 buffer hnone =>
    obtain ⟨e, he⟩ := h
    rw [leading_of_none hnone, hnone] at he
    cases he
  | case3 buffer frame size hsome ih =>
    rw [leading_of_some hsome] at h
    obtain ⟨e, rest, hdrain⟩ := ih h
    refine ⟨e, rest, ?_⟩
    rw [r.drain_of_some hsome, hdrain]
    rfl

theorem drain_of_waits (h : r.front (r.leading buffer).2 = .ok none) :
    r.drain buffer = (.ok (r.leading buffer).1, (r.leading buffer).2) := by
  induction buffer using Reader.leading.induct r with
  | case1 buffer e herror =>
    rw [leading_of_error herror, herror] at h
    cases h
  | case2 buffer hnone => rw [leading_of_none hnone, r.drain_of_none hnone]
  | case3 buffer frame size hsome ih =>
    rw [leading_of_some hsome] at h ⊢
    rw [r.drain_of_some hsome, ih h]
    rfl

theorem leading_written {γ : Type} {write : γ → List α} {shows : γ → β} {frames : List γ}
    (hframes : ∀ f ∈ frames, Recognises r write shows f) (rest : List α) :
    r.leading (written write frames ++ rest) =
      (frames.map shows ++ (r.leading rest).1, (r.leading rest).2) := by
  induction frames with
  | nil => rfl
  | cons f fs ih =>
    rw [List.forall_mem_cons] at hframes
    have hfront := hframes.1.whole (written write fs ++ rest)
    rw [written_cons, List.append_assoc, leading_of_some hfront, List.drop_left, ih hframes.2]
    rfl

theorem Peeks.found_append (hp : r.Peeks width) {frame : β} {size : ℕ}
    (h : r.front buffer = .ok (some (frame, size))) (more : List α) :
    r.front (buffer ++ more) = .ok (some (frame, size)) := by
  obtain ⟨hsize, hfront⟩ := (hp.found buffer frame size).mp h
  rw [hp.found, List.length_append, List.take_append_of_le_length hsize]
  exact ⟨by omega, hfront⟩

theorem Peeks.failed_append (hp : r.Peeks width) {e : ε} (h : r.front buffer = .error e)
    (more : List α) : r.front (buffer ++ more) = .error e := by
  obtain ⟨hwidth, hfront⟩ := (hp.failed buffer e).mp h
  rw [hp.failed, List.length_append, List.take_append_of_le_length hwidth]
  exact ⟨by omega, hfront⟩

theorem Peeks.found_of_append (hp : r.Peeks width) {frame : β} {size : ℕ}
    (h : r.front (buffer ++ more) = .ok (some (frame, size))) (hsize : size ≤ buffer.length) :
    r.front buffer = .ok (some (frame, size)) := by
  obtain ⟨-, hfront⟩ := (hp.found (buffer ++ more) frame size).mp h
  rw [List.take_append_of_le_length hsize] at hfront
  exact (hp.found buffer frame size).mpr ⟨hsize, hfront⟩

theorem Peeks.length_lt (hp : r.Peeks width) {e : ε} (h : r.front (buffer ++ more) = .error e)
    (hwaits : r.front buffer = .ok none) : buffer.length < width := by
  obtain ⟨-, hfront⟩ := (hp.failed (buffer ++ more) e).mp h
  apply Nat.lt_of_not_le
  intro hwidth
  rw [List.take_append_of_le_length hwidth] at hfront
  rw [(hp.failed buffer e).mpr ⟨hwidth, hfront⟩] at hwaits
  cases hwaits

theorem Peeks.leading_append (hp : r.Peeks width) (buffer more : List α) :
    r.leading (buffer ++ more) =
      ((r.leading buffer).1 ++ (r.leading ((r.leading buffer).2 ++ more)).1,
        (r.leading ((r.leading buffer).2 ++ more)).2) := by
  induction buffer using Reader.leading.induct r with
  | case1 buffer e herror =>
    rw [leading_of_error herror]
    rfl
  | case2 buffer hnone =>
    rw [leading_of_none hnone]
    rfl
  | case3 buffer frame size hsome ih =>
    have hsize := (r.consumes buffer frame size hsome).2
    rw [leading_of_some hsome, leading_of_some (hp.found_append hsome more),
      List.drop_append_of_le_length hsize, ih]
    rfl

theorem Peeks.extent_append (hp : r.Peeks width) (buffer more : List α) :
    r.extent (buffer ++ more) =
      r.extent buffer + r.extent ((r.leading buffer).2 ++ more) := by
  have hle := r.length_leading_le buffer
  have hrest := r.length_leading_le ((r.leading buffer).2 ++ more)
  unfold extent
  rw [hp.leading_append buffer more]
  change (buffer ++ more).length - (r.leading ((r.leading buffer).2 ++ more)).2.length = _
  rw [List.length_append] at hrest ⊢
  rw [List.length_append]
  omega

theorem Peeks.refuses_append (hp : r.Peeks width) (buffer more : List α) :
    r.Refuses (buffer ++ more) ↔ r.Refuses ((r.leading buffer).2 ++ more) := by
  unfold Refuses
  rw [hp.leading_append buffer more]

theorem leading_of_eq_nil (h : (r.leading buffer).1 = []) : (r.leading buffer).2 = buffer := by
  cases hfront : r.front buffer with
  | error e => rw [leading_of_error hfront]
  | ok found =>
    cases found with
    | none => rw [leading_of_none hfront]
    | some found =>
      rw [leading_of_some hfront] at h
      cases h

/-- No frame is complete where the reader waits, and none where it still waited before the
first ended. -/
theorem Peeks.leading_eq_nil_iff (hp : r.Peeks width) (hwaits : r.front buffer = .ok none)
    (more : List α) :
    (r.leading (buffer ++ more)).1 = [] ↔ r.extent (buffer ++ more) ≤ buffer.length := by
  unfold extent
  cases hfront : r.front (buffer ++ more) with
  | error e =>
    rw [leading_of_error hfront]
    exact ⟨fun _ => by change _ - (buffer ++ more).length ≤ _; omega, fun _ => rfl⟩
  | ok found =>
    cases found with
    | none =>
      rw [leading_of_none hfront]
      exact ⟨fun _ => by change _ - (buffer ++ more).length ≤ _; omega, fun _ => rfl⟩
    | some found =>
      obtain ⟨frame, size⟩ := found
      have hsize : ¬size ≤ buffer.length := by
        intro hsize
        rw [hp.found_of_append hfront hsize] at hwaits
        cases hwaits
      have hrest := r.length_leading_le ((buffer ++ more).drop size)
      rw [leading_of_some hfront]
      rw [List.length_drop] at hrest
      have htaken := (r.consumes _ frame size hfront).2
      refine ⟨fun h => absurd h (List.cons_ne_nil _ _), fun h => ?_⟩
      change (buffer ++ more).length - (r.leading ((buffer ++ more).drop size)).2.length ≤ _ at h
      omega

theorem Peeks.delivered_of_waits (hp : r.Peeks width) {chunks : List (List α)}
    (hwaits : r.front buffer = .ok none) (h : ¬r.Refuses (buffer ++ chunks.flatten)) :
    r.delivered buffer chunks = (r.leading (buffer ++ chunks.flatten)).1 := by
  induction chunks generalizing buffer with
  | nil =>
    rw [List.flatten_nil, List.append_nil, leading_of_none hwaits]
    rfl
  | cons chunk chunks ih =>
    rw [List.flatten_cons, ← List.append_assoc] at h ⊢
    rw [hp.refuses_append] at h
    rcases r.front_leading (buffer ++ chunk) with hnext | ⟨e, he⟩
    · rw [delivered, drain_of_waits hnext, hp.leading_append (buffer ++ chunk)]
      exact congrArg _ (ih hnext h)
    · have hfront := hp.failed_append he chunks.flatten
      exact absurd ⟨e, by rw [leading_of_error hfront]; exact hfront⟩ h

theorem Peeks.delivered_of_refuses (hp : r.Peeks width) {chunks : List (List α)}
    (hwaits : r.front buffer = .ok none) (h : r.Refuses (buffer ++ chunks.flatten)) :
    r.delivered buffer chunks = (r.leading (buffer ++ chunks.flatten)).1 ↔
      ∃ n, r.extent (buffer ++ chunks.flatten) ≤ (buffer ++ (chunks.take n).flatten).length ∧
        (buffer ++ (chunks.take n).flatten).length <
          r.extent (buffer ++ chunks.flatten) + width := by
  induction chunks generalizing buffer with
  | nil =>
    obtain ⟨e, he⟩ := h
    rw [List.flatten_nil, List.append_nil, leading_of_none hwaits, hwaits] at he
    cases he
  | cons chunk chunks ih =>
    have hextent := hp.extent_append (buffer ++ chunk) chunks.flatten
    have hsplit : (buffer ++ chunk).length =
        r.extent (buffer ++ chunk) + (r.leading (buffer ++ chunk)).2.length := by
      have hle := r.length_leading_le (buffer ++ chunk)
      unfold extent
      omega
    rw [List.flatten_cons, ← List.append_assoc] at h ⊢
    rw [hp.leading_append (buffer ++ chunk), hextent]
    rcases r.front_leading (buffer ++ chunk) with hnext | hrefuses
    · -- The chunk is delivered, and the rest of the stream decides.
      rw [hp.refuses_append] at h
      rw [delivered, drain_of_waits hnext]
      change _ ++ r.delivered _ chunks = _ ++ _ ↔ _
      rw [List.append_cancel_left_eq, ih hnext h]
      constructor
      · rintro ⟨n, hlow, hhigh⟩
        refine ⟨n + 1, ?_⟩
        rw [List.take_succ_cons, List.flatten_cons, ← List.append_assoc, List.length_append, hsplit]
        rw [List.length_append] at hlow hhigh
        omega
      · rintro ⟨n, hlow, hhigh⟩
        cases n with
        | succ n =>
          refine ⟨n, ?_⟩
          rw [List.take_succ_cons, List.flatten_cons, ← List.append_assoc, List.length_append,
            hsplit] at hlow hhigh
          rw [List.length_append]
          omega
        | zero =>
          have hbuffer : (buffer ++ (List.take 0 (chunk :: chunks)).flatten).length ≤
              (buffer ++ chunk).length := by simp
          have hnil := (hp.leading_eq_nil_iff hnext chunks.flatten).mpr (by omega)
          obtain ⟨e, he⟩ := h
          rw [leading_of_eq_nil hnil] at he
          have hlt := hp.length_lt he hnext
          refine ⟨0, ?_⟩
          rw [List.take_zero, List.flatten_nil, List.append_nil]
          omega
    · -- The chunk is lost, with the frames that end in it.
      obtain ⟨e, rest, hdrain⟩ := drain_of_refuses hrefuses
      obtain ⟨e', he'⟩ := hrefuses
      have hlater := leading_of_error (hp.failed_append he' chunks.flatten)
      have hzero : r.extent ((r.leading (buffer ++ chunk)).2 ++ chunks.flatten) = 0 := by
        unfold extent
        rw [hlater]
        exact Nat.sub_self _
      have hwidth := ((hp.failed _ e').mp he').1
      rw [delivered, hdrain, hlater, hzero]
      change [] = (r.leading (buffer ++ chunk)).1 ++ [] ↔ _
      rw [List.append_nil, eq_comm, hp.leading_eq_nil_iff hwaits, Nat.add_zero]
      constructor
      · intro hle
        have hnil := (hp.leading_eq_nil_iff hwaits chunk).mpr hle
        rw [leading_of_eq_nil hnil] at he'
        have hlt := hp.length_lt he' hwaits
        refine ⟨0, ?_⟩
        rw [List.take_zero, List.flatten_nil, List.append_nil]
        omega
      · rintro ⟨n, hlow, hhigh⟩
        cases n with
        | zero => simpa using hlow
        | succ n =>
          rw [List.take_succ_cons, List.flatten_cons, ← List.append_assoc, List.length_append]
            at hhigh
          omega

/-- The leading frames are delivered if the reader does not fail behind them, or if a chunk ends
where they do or in the bytes that it fails on. -/
theorem Peeks.delivered_eq_iff (hp : r.Peeks width) (chunks : List (List α))
    (hwaits : r.front buffer = .ok none) :
    r.delivered buffer chunks = (r.leading (buffer ++ chunks.flatten)).1 ↔
      (r.Refuses (buffer ++ chunks.flatten) →
        ∃ n, r.extent (buffer ++ chunks.flatten) ≤ (buffer ++ (chunks.take n).flatten).length ∧
          (buffer ++ (chunks.take n).flatten).length <
            r.extent (buffer ++ chunks.flatten) + width) := by
  by_cases h : r.Refuses (buffer ++ chunks.flatten)
  · rw [hp.delivered_of_refuses hwaits h]
    exact ⟨fun hn _ => hn, fun hn => hn h⟩
  · exact ⟨fun _ hr => absurd hr h, fun _ => hp.delivered_of_waits hwaits h⟩

end Reader

end PProfessor.Framing
