import PProfessor.KitFrameErrors
import PProfessor.SessionNetwork

set_option autoImplicit false

/-!
# What a read loop hands over

The frames in front of a bad header, and how they depend on where the reads end.
-/
namespace PProfessor.Network
open Framing Kit SessionStream

/-- `readLoop`, over the sizes that `read` returns. -/
def ReadLoop.readLoop (loop : ReadLoop) (stream : List UInt8) : List ℕ → ReadLoop
  | [] => loop
  | count :: counts =>
    let next := loop.read stream count
    if next.closed then next else next.readLoop stream counts

/-- The reads themselves. -/
def chunks (stream : List UInt8) : List ℕ → List (List UInt8)
  | [] => []
  | count :: counts => stream.take count :: chunks (stream.drop count) counts

theorem flatten_take_chunks (stream : List UInt8) (counts : List ℕ) (n : ℕ) :
    ((chunks stream counts).take n).flatten = stream.take (counts.take n).sum := by
  induction counts generalizing stream n with
  | nil =>
    rw [chunks, List.take_nil, List.take_nil]
    rfl
  | cons count counts ih =>
    cases n with
    | zero => rfl
    | succ n =>
      rw [chunks, List.take_succ_cons, List.take_succ_cons, List.flatten_cons, ih, List.sum_cons,
        List.take_add]

theorem flatten_chunks (stream : List UInt8) (counts : List ℕ) :
    (chunks stream counts).flatten = stream.take counts.sum := by
  induction counts generalizing stream with
  | nil => rfl
  | cons count counts ih =>
    rw [chunks, List.flatten_cons, ih, List.sum_cons, List.take_add]

theorem ReadLoop.readLoop_queue (loop : ReadLoop) (stream : List UInt8) (counts : List ℕ)
    (hopen : loop.closed = false) :
    (loop.readLoop stream counts).queue = loop.queue ++ SessionFrameParser.reader.delivered
      loop.parser.buffer (chunks (stream.drop loop.consumed) counts) := by
  induction counts generalizing loop with
  | nil => exact (List.append_nil _).symm
  | cons count counts ih =>
    rw [readLoop, chunks, Reader.delivered]
    cases hdrain : SessionFrameParser.reader.drain
        (loop.parser.buffer ++ (stream.drop loop.consumed).take count) with
    | mk found rest =>
      cases found with
      | error e =>
        have hread : loop.read stream count = { loop with
            consumed := loop.consumed + count, parser := ⟨rest⟩, closed := true } := by
          unfold read SessionFrameParser.append
          rw [hdrain]
        rw [hread]
        exact (List.append_nil _).symm
      | ok frames =>
        have hread : loop.read stream count = { loop with
            consumed := loop.consumed + count,
            parser := ⟨rest⟩,
            queue := loop.queue ++ frames } := by
          unfold read SessionFrameParser.append
          rw [hdrain]
        rw [hread]
        dsimp only
        rw [hopen, if_neg Bool.false_ne_true, ih _ rfl, List.append_assoc, List.drop_drop]

theorem readLoop_delivers_iff (stream : List UInt8) (counts : List ℕ)
    (hcut : counts.sum = stream.length) :
    (ReadLoop.new.readLoop stream counts).queue =
        (SessionFrameParser.reader.leading stream).1 ↔
      (SessionFrameParser.reader.Refuses stream →
        ∃ n, SessionFrameParser.reader.extent stream ≤ (counts.take n).sum ∧
          (counts.take n).sum <
            SessionFrameParser.reader.extent stream + SessionFrameHeader.encodedLength) := by
  have hall : (chunks stream counts).flatten = stream := by
    rw [flatten_chunks, hcut, List.take_length]
  have hfront (n : ℕ) : (counts.take n).sum ≤ stream.length := by
    rw [← hcut]
    exact (List.take_sublist n counts).sum_le_sum fun _ _ => Nat.zero_le _
  have hempty : SessionFrameParser.reader.front [] = .ok none := rfl
  have hiff := SessionFrameParser.peeks.delivered_eq_iff (chunks stream counts) hempty
  simp only [List.nil_append, hall, flatten_take_chunks, List.length_take,
    min_eq_left (hfront _)] at hiff
  rw [ReadLoop.readLoop_queue ReadLoop.new stream counts rfl]
  exact hiff

def beforeBadHeader : List UInt8 := writeFrame .heartbeat 1 [] ++ List.replicate 28 0

theorem leading_beforeBadHeader : SessionFrameParser.reader.leading beforeBadHeader =
    ([WrittenFrame.received ⟨.heartbeat, 1, []⟩], List.replicate 28 0) := by
  have hzeros : SessionFrameParser.reader.front (List.replicate 28 0) = .error .invalidMagic := rfl
  have hfits : ∀ f ∈ [(⟨.heartbeat, 1, []⟩ : WrittenFrame)],
      Recognises SessionFrameParser.reader WrittenFrame.bytes WrittenFrame.received f := by
    intro f hf
    rw [List.mem_singleton.mp hf]
    exact WrittenFrame.Fits.recognises (Nat.zero_le _)
  have hleading := Reader.leading_written hfits (List.replicate 28 0)
  rw [written_singleton, Reader.leading_of_error hzeros] at hleading
  exact hleading

theorem beforeBadHeader_refused : SessionFrameParser.reader.Refuses beforeBadHeader := by
  refine ⟨.invalidMagic, ?_⟩
  rw [leading_beforeBadHeader]
  rfl

/-- The reads end at the heartbeat. -/
theorem readLoop_delivers_iff_between :
    (ReadLoop.new.readLoop beforeBadHeader [28, 28]).queue =
      [WrittenFrame.received ⟨.heartbeat, 1, []⟩] := by
  have h := (readLoop_delivers_iff beforeBadHeader [28, 28] rfl).mpr fun _ => ⟨1, by
    unfold Reader.extent
    rw [leading_beforeBadHeader]
    decide⟩
  rw [h, leading_beforeBadHeader]

/-- One read brings both. -/
theorem readLoop_loses_frame :
    (ReadLoop.new.readLoop beforeBadHeader [56]).queue = [] ∧
    (ReadLoop.new.readLoop beforeBadHeader [56]).queue ≠
      (SessionFrameParser.reader.leading beforeBadHeader).1 := by
  obtain ⟨e, rest, hdrain⟩ := Reader.drain_of_refuses beforeBadHeader_refused
  have hqueue : (ReadLoop.new.readLoop beforeBadHeader [56]).queue = [] := by
    have hchunk : ReadLoop.new.parser.buffer ++ beforeBadHeader.take 56 = beforeBadHeader := rfl
    rw [ReadLoop.readLoop_queue _ _ _ rfl]
    change [] ++ SessionFrameParser.reader.delivered ReadLoop.new.parser.buffer
      [beforeBadHeader.take 56] = []
    rw [Reader.delivered, hchunk, hdrain]
    rfl
  refine ⟨hqueue, ?_⟩
  rw [hqueue, leading_beforeBadHeader]
  exact List.cons_ne_nil _ _ ∘ Eq.symm

end PProfessor.Network
