import PProfessor.EncodedSize
import PProfessor.PprofRoundTrip

set_option autoImplicit false

/-!
# Re-encoding is stable

What decoding drops is what the encoder writes nothing for.
-/
namespace PProfessor.Pprof

theorem flatMap_filter_eq {α : Type} (f : α → List UInt8) (keep : α → Bool) (xs : List α)
    (h : ∀ x ∈ xs, keep x = false → f x = []) : (xs.filter keep).flatMap f = xs.flatMap f := by
  induction xs with
  | nil => rfl
  | cons x xs ih =>
    rw [List.forall_mem_cons] at h
    rw [List.flatMap_cons, ← ih h.2]
    cases hk : keep x with
    | true => rw [List.filter_cons_of_pos hk, List.flatMap_cons]
    | false => rw [List.filter_cons_of_neg (by simp [hk]), h.1 hk, List.nil_append]

theorem submessages_filter {α : Type} [DecidableEq α] [Inhabited α] (field : ℕ)
    (enc : α → List UInt8) (hd : enc default = []) (xs : List α) :
    (xs.filter (· ≠ default)).flatMap (fun x => encodeLengthDelimited field (enc x)) =
      xs.flatMap fun x => encodeLengthDelimited field (enc x) := by
  apply flatMap_filter_eq
  intro x _ hx
  have hx : x = default := by simpa using hx
  rw [hx, hd]
  rfl

theorem Location.survivor_encode (loc : Location) : loc.survivor.encode = loc.encode := by
  unfold Location.encode Location.survivor
  dsimp only
  rw [submessages_filter 4 Line.encode rfl]

theorem Sample.survivor_encode (s : Sample) : s.survivor.encode = s.encode := by
  unfold Sample.encode Sample.survivor
  dsimp only
  rw [submessages_filter 3 Label.encode rfl]

theorem PprofProfile.survivor_encode (p : PprofProfile) (strings : StringTable)
    (hs : strings.strings = p.strings.strings) :
    ({ p.survivor with strings := strings } : PprofProfile).encode = p.encode := by
  have hsamples : ((p.samples.map Sample.survivor).filter (· ≠ default)).flatMap
      (fun s => encodeLengthDelimited 2 s.encode) =
        p.samples.flatMap fun s => encodeLengthDelimited 2 s.encode := by
    rw [submessages_filter 2 Sample.encode rfl, List.flatMap_map]
    simp only [Sample.survivor_encode]
  have hlocations : ((p.locations.map Location.survivor).filter (· ≠ default)).flatMap
      (fun loc => encodeLengthDelimited 4 loc.encode) =
        p.locations.flatMap fun loc => encodeLengthDelimited 4 loc.encode := by
    rw [submessages_filter 4 Location.encode rfl, List.flatMap_map]
    simp only [Location.survivor_encode]
  have hcomments : (p.comments.filter (· ≠ 0)).flatMap (encodeVarintField 13) =
      p.comments.flatMap (encodeVarintField 13) := by
    apply flatMap_filter_eq
    intro c _ hc
    have hc : c = 0 := by simpa using hc
    rw [hc]
    rfl
  unfold PprofProfile.encode PprofProfile.survivor
  dsimp only
  rw [submessages_filter 1 ValueType.encode rfl, hsamples, submessages_filter 3 Mapping.encode rfl,
    hlocations, submessages_filter 5 Function.encode rfl, hs, hcomments]

/-- Encoding what an encoding decodes to gives the same bytes. -/
theorem encode_decode_encode (p : PprofProfile) (hhead : p.strings.strings.head? = some "")
    (hl : p.encode.length < 2 ^ 64) :
    ∃ q, PprofProfile.decode p.encode = .ok q ∧ q.encode = p.encode :=
  ⟨_, decode_encode_of_head p hhead hl, p.survivor_encode _ rfl⟩

def droppedElements : PprofProfile :=
  { PprofProfile.new with samples := [⟨[], [1], [default]⟩], comments := [0] }

theorem droppedElements_encodedSize : droppedElements.encodedSize = 230 := by
  change 98 + (StringTable.new.strings.map fun s => (utf8 s).length + 11).sum + 11 * 1 + 110 = _
  rw [new_strings]
  rfl

theorem encode_decode_encode_droppedElements :
    ∃ q, PprofProfile.decode droppedElements.encode = .ok q ∧
      q.encode = droppedElements.encode := by
  refine encode_decode_encode droppedElements (congrArg List.head? new_strings) ?_
  exact lt_of_le_of_lt (PprofProfile.encode_length_le _)
    (lt_of_eq_of_lt droppedElements_encodedSize (by norm_num))

end PProfessor.Pprof
