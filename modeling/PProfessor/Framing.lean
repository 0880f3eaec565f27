import Mathlib.Tactic

set_option autoImplicit false

/-!
# Frames cut out of a byte stream

A reader looks at the front of a buffer: it finds a frame and its size, or
needs more, or fails. A receiver appends each chunk to its buffer and takes
frames out of it while there are any. Where the reader recognises what a writer
writes, and waits on anything shorter, the receiver returns the written frames
however the stream is cut.
-/
namespace PProfessor.Framing

variable {ε α β γ : Type}

structure Reader (ε α β : Type) where
  front : List α → Except ε (Option (β × ℕ))
  /-- A frame takes at least one byte, and only bytes that are there. -/
  consumes : ∀ buffer frame size, front buffer = .ok (some (frame, size)) →
    0 < size ∧ size ≤ buffer.length

def Reader.drain (r : Reader ε α β) (buffer : List α) : Except ε (List β) × List α :=
  match _h : r.front buffer with
  | .error e => (.error e, buffer)
  | .ok none => (.ok [], buffer)
  | .ok (some (frame, size)) =>
      let rest := r.drain (buffer.drop size)
      (rest.1.map (frame :: ·), rest.2)
termination_by buffer.length
decreasing_by
  have := r.consumes buffer frame size _h
  rw [List.length_drop]
  omega

def Reader.feed (r : Reader ε α β) (buffer : List α) :
    List (List α) → Except ε (List (List β)) × List α
  | [] => (.ok [], buffer)
  | chunk :: chunks =>
    match r.drain (buffer ++ chunk) with
    | (.error e, rest) => (.error e, rest)
    | (.ok frames, rest) =>
      let later := r.feed rest chunks
      (later.1.map (frames :: ·), later.2)

theorem Reader.drain_of_error (r : Reader ε α β) {buffer : List α} {e : ε}
    (h : r.front buffer = .error e) : r.drain buffer = (.error e, buffer) := by
  rw [drain]
  split <;> simp_all

theorem Reader.drain_of_none (r : Reader ε α β) {buffer : List α}
    (h : r.front buffer = .ok none) : r.drain buffer = (.ok [], buffer) := by
  rw [drain]
  split <;> simp_all

theorem Reader.drain_of_some (r : Reader ε α β) {buffer : List α} {frame : β} {size : ℕ}
    (h : r.front buffer = .ok (some (frame, size))) :
    r.drain buffer = ((r.drain (buffer.drop size)).1.map (frame :: ·),
      (r.drain (buffer.drop size)).2) := by
  rw [drain]
  split <;> simp_all

/-- The bytes of a list of frames. -/
def written (write : γ → List α) (frames : List γ) : List α :=
  frames.flatMap write

/-- The frames whose last byte is among the first `size` bytes written. -/
def complete (write : γ → List α) : List γ → ℕ → List γ
  | [], _ => []
  | f :: fs, size =>
    if (write f).length ≤ size then f :: complete write fs (size - (write f).length) else []

/-- The reader recognises what the writer writes and waits on anything shorter. -/
structure Recognises (r : Reader ε α β) (write : γ → List α) (shows : γ → β) (f : γ) : Prop where
  whole : ∀ rest, r.front (write f ++ rest) = .ok (some (shows f, (write f).length))
  waits : ∀ head, head <+: write f → head.length < (write f).length → r.front head = .ok none

/-- The reader finds what the writer writes, or fails on it. -/
structure Reads (r : Reader ε α β) (write : γ → List α) (shows : γ → β) (f : γ) : Prop where
  whole : ∀ rest found, r.front (write f ++ rest) = .ok found →
    found = some (shows f, (write f).length)
  waits : ∀ head found, head <+: write f → head.length < (write f).length →
    r.front head = .ok found → found = none

theorem Recognises.reads {r : Reader ε α β} {write : γ → List α} {shows : γ → β} {f : γ}
    (h : Recognises r write shows f) : Reads r write shows f where
  whole rest _ hfound := Except.ok.inj (hfound.symm.trans (h.whole rest))
  waits head _ hhead hlength hfound :=
    Except.ok.inj (hfound.symm.trans (h.waits head hhead hlength))

section Complete

variable (write : γ → List α)

theorem written_cons (f : γ) (fs : List γ) :
    written write (f :: fs) = write f ++ written write fs :=
  List.flatMap_cons ..

theorem written_singleton (f : γ) : written write [f] = write f :=
  List.flatMap_singleton ..

theorem written_append (fs gs : List γ) :
    written write (fs ++ gs) = written write fs ++ written write gs :=
  List.flatMap_append

theorem complete_zero {frames : List γ} (h : ∀ f ∈ frames, 0 < (write f).length) :
    complete write frames 0 = [] := by
  cases frames with
  | nil => rfl
  | cons f fs =>
    have hf := h f List.mem_cons_self
    rw [complete, if_neg (by omega)]

theorem length_written_complete_le (frames : List γ) (size : ℕ) :
    (written write (complete write frames size)).length ≤ size := by
  induction frames generalizing size with
  | nil => exact Nat.zero_le _
  | cons f fs ih =>
    rw [complete]
    split_ifs with hsize
    · rw [written_cons, List.length_append]
      have := ih (size - (write f).length)
      omega
    · exact Nat.zero_le _

theorem complete_split (frames : List γ) (size : ℕ) :
    ∃ later, frames = complete write frames size ++ later ∧
      ∀ more, complete write frames (size + more) =
        complete write frames size ++ complete write later
          (size - (written write (complete write frames size)).length + more) := by
  induction frames generalizing size with
  | nil => exact ⟨[], rfl, fun _ => rfl⟩
  | cons f fs ih =>
    by_cases hsize : (write f).length ≤ size
    · obtain ⟨later, hlater, hmore⟩ := ih (size - (write f).length)
      have hcomplete : complete write (f :: fs) size =
          f :: complete write fs (size - (write f).length) := by
        rw [complete, if_pos hsize]
      refine ⟨later, ?_, ?_⟩
      · rw [hcomplete, List.cons_append, ← hlater]
      · intro more
        have hsum : size + more - (write f).length = size - (write f).length + more := by omega
        have hleft : size - (written write (f :: complete write fs
            (size - (write f).length))).length = size - (write f).length -
              (written write (complete write fs (size - (write f).length))).length := by
          rw [written_cons, List.length_append]
          omega
        rw [hcomplete, hleft, complete, if_pos (by omega), hsum, hmore, List.cons_append]
    · have hcomplete : complete write (f :: fs) size = [] := by
        rw [complete, if_neg hsize]
      refine ⟨f :: fs, ?_, ?_⟩
      · rw [hcomplete, List.nil_append]
      · intro more
        rw [hcomplete]
        rfl

theorem complete_all (frames : List γ) :
    complete write frames (written write frames).length = frames := by
  induction frames with
  | nil => rfl
  | cons f fs ih =>
    rw [complete, written_cons, List.length_append, if_pos (by omega), Nat.add_sub_cancel_left, ih]

end Complete

section Receive

variable {r : Reader ε α β} {write : γ → List α} {shows : γ → β}

theorem drain_written {frames : List γ} {buffer : List α}
    (hframes : ∀ f ∈ frames, Recognises r write shows f) (hempty : r.front [] = .ok none)
    (hbuffer : buffer <+: written write frames) :
    r.drain buffer = (.ok ((complete write frames buffer.length).map shows),
      buffer.drop (written write (complete write frames buffer.length)).length) := by
  induction frames generalizing buffer with
  | nil =>
    have hnil : buffer = [] := List.prefix_nil.mp hbuffer
    rw [hnil, r.drain_of_none hempty]
    rfl
  | cons f fs ih =>
    have hf := hframes f List.mem_cons_self
    rw [written_cons] at hbuffer
    by_cases hsize : (write f).length ≤ buffer.length
    · obtain ⟨rest, hrest⟩ := List.prefix_of_prefix_length_le (List.prefix_append ..) hbuffer hsize
      have hfront := hf.whole rest
      rw [hrest] at hfront
      have hdrop : buffer.drop (write f).length = rest := by
        rw [← hrest, List.drop_left]
      have hleft : rest <+: written write fs := by
        rw [← hrest] at hbuffer
        exact (List.prefix_append_right_inj _).mp hbuffer
      have hlength : buffer.length - (write f).length = rest.length := by
        rw [← hrest, List.length_append, Nat.add_sub_cancel_left]
      have hrec := ih (fun g hg => hframes g (List.mem_cons_of_mem f hg)) hleft
      rw [r.drain_of_some hfront, hdrop, hrec, complete, if_pos hsize, hlength, List.map_cons,
        written_cons, List.length_append, ← List.drop_drop, hdrop]
      rfl
    · have hhead : buffer <+: write f :=
        List.prefix_of_prefix_length_le hbuffer (List.prefix_append ..) (by omega)
      rw [r.drain_of_none (hf.waits buffer hhead (by omega)), complete, if_neg hsize]
      rfl

theorem Reader.front_drained {buffer rest : List α} {returned : List β}
    (h : r.drain buffer = (.ok returned, rest)) : r.front rest = .ok none := by
  induction buffer using Reader.drain.induct r generalizing returned with
  | case1 buffer e herror =>
    rw [r.drain_of_error herror] at h
    cases h
  | case2 buffer hnone =>
    rw [r.drain_of_none hnone] at h
    cases h
    exact hnone
  | case3 buffer frame size hsome ih =>
    rw [r.drain_of_some hsome, Prod.mk.injEq] at h
    obtain ⟨hframes, hrest⟩ := h
    cases hlater : (r.drain (buffer.drop size)).1 with
    | error e =>
      rw [hlater] at hframes
      cases hframes
    | ok later => exact ih (Prod.ext hlater hrest)

/-- What draining the beginning of a written stream returns, unless it fails, are its first
frames. -/
theorem drain_reads {frames : List γ} {buffer rest : List α} {returned : List β}
    (hframes : ∀ f ∈ frames, Reads r write shows f) (hempty : r.front [] = .ok none)
    (hbuffer : buffer <+: written write frames) (h : r.drain buffer = (.ok returned, rest)) :
    ∃ done later, frames = done ++ later ∧ returned = done.map shows ∧
      buffer = written write done ++ rest := by
  induction frames generalizing buffer returned with
  | nil =>
    have hnil : buffer = [] := List.prefix_nil.mp hbuffer
    rw [hnil, r.drain_of_none hempty] at h
    cases h
    exact ⟨[], [], rfl, rfl, hnil⟩
  | cons f fs ih =>
    have hf := hframes f List.mem_cons_self
    rw [written_cons] at hbuffer
    cases hfront : r.front buffer with
    | error e =>
      rw [r.drain_of_error hfront] at h
      cases h
    | ok found =>
      by_cases hsize : (write f).length ≤ buffer.length
      · obtain ⟨tail, rfl⟩ :=
          List.prefix_of_prefix_length_le (List.prefix_append ..) hbuffer hsize
        rw [hf.whole tail found hfront] at hfront
        rw [r.drain_of_some hfront, List.drop_left, Prod.mk.injEq] at h
        obtain ⟨hreturned, hrest⟩ := h
        cases hlater : (r.drain tail).1 with
        | error e =>
          rw [hlater] at hreturned
          cases hreturned
        | ok more =>
          rw [hlater] at hreturned
          cases hreturned
          obtain ⟨done, later, rfl, rfl, htail⟩ := ih
            (fun g hg => hframes g (List.mem_cons_of_mem f hg))
            ((List.prefix_append_right_inj _).mp hbuffer) (Prod.ext hlater hrest)
          refine ⟨f :: done, later, rfl, rfl, ?_⟩
          rw [written_cons, List.append_assoc, ← htail]
      · have hhead : buffer <+: write f :=
          List.prefix_of_prefix_length_le hbuffer (List.prefix_append ..) (by omega)
        rw [hf.waits buffer found hhead (by omega) hfront] at hfront
        rw [r.drain_of_none hfront] at h
        cases h
        exact ⟨[], f :: fs, rfl, rfl, rfl⟩

/-- Feeding the chunks of the beginning of a written stream, from the unfinished
end of what came before. -/
theorem feed_written {frames : List γ} {buffer : List α} {chunks : List (List α)}
    (hframes : ∀ f ∈ frames, Recognises r write shows f) (hempty : r.front [] = .ok none)
    (hchunks : buffer ++ chunks.flatten <+: written write frames)
    (hbuffer : complete write frames buffer.length = []) :
    ∃ returned, r.feed buffer chunks = (.ok returned,
        (buffer ++ chunks.flatten).drop (written write
          (complete write frames (buffer ++ chunks.flatten).length)).length) ∧
      returned.flatten = (complete write frames (buffer ++ chunks.flatten).length).map shows := by
  induction chunks generalizing frames buffer with
  | nil =>
    refine ⟨[], ?_, ?_⟩
    · rw [List.flatten_nil, List.append_nil, hbuffer]
      rfl
    · simp only [List.flatten_nil, List.append_nil, hbuffer, List.map_nil]
  | cons chunk chunks ih =>
    rw [List.flatten_cons, ← List.append_assoc] at hchunks ⊢
    have hdrain := drain_written hframes hempty ((List.prefix_append ..).trans hchunks)
    obtain ⟨later, hlater, hmore⟩ := complete_split write frames (buffer ++ chunk).length
    generalize hdone : complete write frames (buffer ++ chunk).length = done at *
    have hfits : (written write done).length ≤ (buffer ++ chunk).length := by
      rw [← hdone]
      exact length_written_complete_le write frames _
    have hrest : ((buffer ++ chunk).drop (written write done).length).length =
        (buffer ++ chunk).length - (written write done).length := List.length_drop
    have hwritten : written write frames = written write done ++ written write later := by
      rw [hlater, written_append]
    have hdrop : (buffer ++ chunk ++ chunks.flatten).drop (written write done).length =
        (buffer ++ chunk).drop (written write done).length ++ chunks.flatten :=
      List.drop_append_of_le_length hfits
    have hnext : (buffer ++ chunk).drop (written write done).length ++ chunks.flatten <+:
        written write later := by
      have h := hchunks.drop (written write done).length
      rwa [hdrop, hwritten, List.drop_left] at h
    have hnone : complete write later
        ((buffer ++ chunk).drop (written write done).length).length = [] := by
      have h := hmore 0
      rw [Nat.add_zero, Nat.add_zero, hdone, ← hrest] at h
      simpa using h
    obtain ⟨returned, hfeed, hreturned⟩ :=
      ih (fun f hf => hframes f (hlater ▸ List.mem_append_right done hf)) hnext hnone
    have hsum : (buffer ++ chunk ++ chunks.flatten).length =
        (buffer ++ chunk).length + chunks.flatten.length := List.length_append
    have hall : complete write frames (buffer ++ chunk ++ chunks.flatten).length =
        done ++ complete write later
          ((buffer ++ chunk).drop (written write done).length ++ chunks.flatten).length := by
      rw [hsum, hmore, ← hrest, ← List.length_append]
    have hkept (more : List γ) :
        (buffer ++ chunk ++ chunks.flatten).drop (written write (done ++ more)).length =
          ((buffer ++ chunk).drop (written write done).length ++ chunks.flatten).drop
            (written write more).length := by
      rw [written_append, List.length_append, ← List.drop_drop, hdrop]
    refine ⟨done.map shows :: returned, ?_, ?_⟩
    · rw [Reader.feed, hdrain]
      change ((r.feed _ chunks).1.map (done.map shows :: ·), (r.feed _ chunks).2) = _
      rw [hfeed, hall, hkept]
      rfl
    · rw [List.flatten_cons, hreturned, hall, List.map_append]

end Receive

end PProfessor.Framing
