import PProfessor.KitFrames

set_option autoImplicit false

/-!
# The frames the application writes

The header encoder, and the parser on what it encodes: a file of whole frames is read back
frame by frame.
-/
namespace PProfessor.Kit
open BigEndian Framing SessionStream

def SessionFrameHeader.encoded (h : SessionFrameHeader) : List UInt8 :=
  magic ++ toBytes 2 h.major.toNat ++ toBytes 2 h.minor.toNat ++
    toBytes 2 h.kind.rawValue.toNat ++ toBytes 2 h.flags.toNat ++ toBytes 8 h.sequence.toNat ++
    toBytes 8 h.payloadLength.toNat

/-- `frame.header.encoded() + frame.payload`. -/
def SessionFrame.bytes (f : SessionFrame) : List UInt8 :=
  f.header.encoded ++ f.payload

/-- The header announces the payload, and no more than the decoder admits. -/
structure SessionFrame.WellFormed (f : SessionFrame) : Prop where
  announced : f.header.payloadLength.toNat = f.payload.length
  fits : f.header.payloadLength ≤ SessionFrameHeader.maximumPayloadLength

theorem SessionFrameKind.exists_ofFrameKind (kind : SessionFrameKind) :
    ∃ k, ofFrameKind k = kind := by
  cases kind
  exacts [⟨.hello, rfl⟩, ⟨.profileCheckpoint, rfl⟩, ⟨.profileDelta, rfl⟩, ⟨.finalizing, rfl⟩,
    ⟨.finalProfile, rfl⟩, ⟨.failed, rfl⟩, ⟨.heartbeat, rfl⟩, ⟨.acknowledged, rfl⟩, ⟨.stop, rfl⟩,
    ⟨.protocolError, rfl⟩]

theorem SessionFrameHeader.exists_streamHeader (h : SessionFrameHeader) :
    ∃ sent, ofStreamHeader sent = h := by
  obtain ⟨kind, hkind⟩ := h.kind.exists_ofFrameKind
  exact ⟨⟨h.major, h.minor, kind, h.flags, h.sequence, h.payloadLength⟩, by
    rw [ofStreamHeader, hkind]⟩

theorem SessionFrameHeader.encoded_ofStreamHeader (sent : StreamHeader) :
    (ofStreamHeader sent).encoded = sent.encode := by
  rw [encoded, StreamHeader.encode, ofStreamHeader, SessionFrameKind.rawValue_ofFrameKind]

theorem SessionFrame.WellFormed.recognises {f : SessionFrame} (h : f.WellFormed) :
    Recognises SessionFrameParser.reader bytes id f := by
  obtain ⟨sent, hsent⟩ := f.header.exists_streamHeader
  have hencoded : f.header.encoded = sent.encode := by
    rw [← hsent, SessionFrameHeader.encoded_ofStreamHeader]
  have hlength : f.header.payloadLength = sent.payloadLen := by
    rw [← hsent]
    rfl
  have hbytes : f.bytes = sent.encode ++ f.payload := by
    rw [bytes, hencoded]
  refine SessionFrameParser.recognises hbytes ?_ ?_ ?_
  · rw [hsent]
    rfl
  · rw [← hlength, h.announced]
  · rw [← hlength]
    exact h.fits

theorem SessionFrameParser.append_bytes {frames : List SessionFrame}
    (h : ∀ f ∈ frames, f.WellFormed) :
    (init.append (written SessionFrame.bytes frames)).1 = .ok frames := by
  have hdrain := drain_written (fun f hf => (h f hf).recognises) rfl
    (List.prefix_refl (written SessionFrame.bytes frames))
  rw [complete_all, List.map_id] at hdrain
  change (reader.drain (written SessionFrame.bytes frames)).1 = _
  rw [hdrain]

end PProfessor.Kit
