import PProfessor.KitFrameWriter
import PProfessor.LeadingFrames

set_option autoImplicit false

/-!
# What the frame parser looks at

A header is refused on its 28 bytes, and a frame is found in the bytes it takes.
-/
namespace PProfessor.Kit
open Framing

namespace SessionFrameParser

theorem front_eq_some_iff (buffer : List UInt8) (frame : SessionFrame) (size : ℕ) :
    front buffer = .ok (some (frame, size)) ↔ ∃ header,
      SessionFrameHeader.decoding (buffer.take SessionFrameHeader.encodedLength) = .ok header ∧
      size = SessionFrameHeader.encodedLength + header.payloadLength.toNat ∧
      size ≤ buffer.length ∧
      frame = ⟨header, subdata buffer SessionFrameHeader.encodedLength size⟩ := by
  rw [front]
  split_ifs with hshort
  · refine ⟨fun h => (by cases h), ?_⟩
    rintro ⟨header, -, rfl, hsize, -⟩
    omega
  · cases SessionFrameHeader.decoding (buffer.take SessionFrameHeader.encodedLength) with
    | error e =>
      refine ⟨fun h => (by cases h), ?_⟩
      rintro ⟨header, hheader, -⟩
      cases hheader
    | ok header =>
      dsimp only
      split_ifs with htotal
      · refine ⟨fun h => (by cases h), ?_⟩
        rintro ⟨_, hheader, rfl, hsize, -⟩
        cases hheader
        omega
      · simp only [Except.ok.injEq, Option.some.injEq, Prod.mk.injEq]
        constructor
        · rintro ⟨rfl, rfl⟩
          exact ⟨header, rfl, rfl, by omega, rfl⟩
        · rintro ⟨_, rfl, rfl, -, rfl⟩
          exact ⟨rfl, rfl⟩

theorem front_eq_error_iff (buffer : List UInt8) (e : SessionStreamError) :
    front buffer = .error e ↔ SessionFrameHeader.encodedLength ≤ buffer.length ∧
      SessionFrameHeader.decoding (buffer.take SessionFrameHeader.encodedLength) = .error e := by
  rw [front]
  split_ifs with hshort
  · refine ⟨fun h => (by cases h), fun h => by omega⟩
  · cases SessionFrameHeader.decoding (buffer.take SessionFrameHeader.encodedLength) with
    | error e' =>
      simp only [Except.error.injEq]
      exact ⟨fun h => ⟨by omega, h⟩, fun h => h.2⟩
    | ok header =>
      refine ⟨fun h => ?_, fun h => (by cases h.2)⟩
      dsimp only at h
      split_ifs at h

theorem peeks : Reader.Peeks reader SessionFrameHeader.encodedLength where
  found buffer frame size := by
    change front buffer = _ ↔ _ ∧ front (buffer.take size) = _
    rw [front_eq_some_iff, front_eq_some_iff]
    have hheader (h : SessionFrameHeader.encodedLength ≤ size) :
        (buffer.take size).take SessionFrameHeader.encodedLength =
          buffer.take SessionFrameHeader.encodedLength := by
      rw [List.take_take, min_eq_left h]
    have hpayload : subdata (buffer.take size) SessionFrameHeader.encodedLength size =
        subdata buffer SessionFrameHeader.encodedLength size := by
      unfold subdata
      rw [List.take_take, min_self]
    rw [hpayload]
    constructor
    · rintro ⟨header, hdecoding, hsize, hle, hframe⟩
      refine ⟨hle, header, ?_, hsize, ?_, hframe⟩
      · rw [hheader (by omega), hdecoding]
      · rw [List.length_take, min_eq_left hle]
    · rintro ⟨hle, header, hdecoding, hsize, -, hframe⟩
      rw [hheader (by omega)] at hdecoding
      exact ⟨header, hdecoding, hsize, hle, hframe⟩
  failed buffer e := by
    change front buffer = _ ↔ _ ∧ front (buffer.take _) = _
    rw [front_eq_error_iff, front_eq_error_iff, List.take_take, min_self, List.length_take]
    exact ⟨fun h => ⟨h.1, by omega, h.2⟩, fun h => ⟨h.1, h.2.2⟩⟩

theorem length_leading (buffer : List UInt8) :
    buffer.length = (written SessionFrame.bytes (reader.leading buffer).1).length +
      (reader.leading buffer).2.length := by
  induction buffer using Reader.leading.induct reader with
  | case1 buffer e herror =>
    rw [Reader.leading_of_error herror]
    exact (Nat.zero_add _).symm
  | case2 buffer hnone =>
    rw [Reader.leading_of_none hnone]
    exact (Nat.zero_add _).symm
  | case3 buffer frame size hsome ih =>
    obtain ⟨header, -, hsize, hle, hframe⟩ := (front_eq_some_iff buffer frame size).mp hsome
    have hbytes : frame.bytes.length = size := by
      have hencoded : header.encoded.length = SessionFrameHeader.encodedLength := rfl
      rw [hframe, SessionFrame.bytes, List.length_append, hencoded, subdata, List.length_drop,
        List.length_take]
      omega
    rw [List.length_drop] at ih
    rw [Reader.leading_of_some hsome, written_cons, List.length_append, hbytes]
    dsimp only
    omega

end SessionFrameParser

end PProfessor.Kit
