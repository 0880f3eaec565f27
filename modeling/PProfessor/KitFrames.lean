import PProfessor.Framing
import PProfessor.StreamProtocol

set_option autoImplicit false

/-!
# The session stream protocol, application side

The header decoder and the incremental frame parser, and what they make of the
bytes a publisher writes.
-/
namespace PProfessor.Kit
open BigEndian Framing SessionStream

inductive SessionFrameKind where
  | hello
  | profileCheckpoint
  | profileDelta
  | finalizing
  | finalProfile
  | failed
  | heartbeat
  | acknowledged
  | stop
  | protocolError
  deriving DecidableEq, Repr

def SessionFrameKind.rawValue : SessionFrameKind → UInt16
  | .hello => 1
  | .profileCheckpoint => 2
  | .profileDelta => 3
  | .finalizing => 4
  | .finalProfile => 5
  | .failed => 6
  | .heartbeat => 7
  | .acknowledged => 101
  | .stop => 102
  | .protocolError => 103

/-- `init(rawValue:)`. -/
def SessionFrameKind.ofRawValue (rawValue : UInt16) : Option SessionFrameKind :=
  if rawValue = 1 then some .hello
  else if rawValue = 2 then some .profileCheckpoint
  else if rawValue = 3 then some .profileDelta
  else if rawValue = 4 then some .finalizing
  else if rawValue = 5 then some .finalProfile
  else if rawValue = 6 then some .failed
  else if rawValue = 7 then some .heartbeat
  else if rawValue = 101 then some .acknowledged
  else if rawValue = 102 then some .stop
  else if rawValue = 103 then some .protocolError
  else none

inductive SessionStreamError where
  | invalidHeader
  | invalidMagic
  | unknownFrameKind (rawKind : UInt16)
  | payloadTooLarge (payloadLength : UInt64)
  deriving DecidableEq, Repr

structure SessionFrameHeader where
  major : UInt16
  minor : UInt16
  kind : SessionFrameKind
  flags : UInt16
  sequence : UInt64
  payloadLength : UInt64
  deriving DecidableEq, Repr

def SessionFrameHeader.encodedLength : ℕ := 28

def SessionFrameHeader.maximumPayloadLength : UInt64 := 256 * 1024 * 1024

/-- `data[lower..<upper]`. -/
def subdata (data : List UInt8) (lower upper : ℕ) : List UInt8 :=
  (data.take upper).drop lower

/-- `integer(_:as: UInt16.self)`. -/
def integer16 (data : List UInt8) (lower upper : ℕ) : UInt16 :=
  ⟨shiftIn 16 (subdata data lower upper)⟩

/-- `integer(_:as: UInt64.self)`. -/
def integer64 (data : List UInt8) (lower upper : ℕ) : UInt64 :=
  ⟨shiftIn 64 (subdata data lower upper)⟩

/-- `init(decoding:)`. -/
def SessionFrameHeader.decoding (data : List UInt8) :
    Except SessionStreamError SessionFrameHeader := do
  if data.length ≠ encodedLength then
    throw .invalidHeader
  if subdata data 0 4 ≠ [80, 80, 82, 83] then
    throw .invalidMagic
  let rawKind := integer16 data 8 10
  match SessionFrameKind.ofRawValue rawKind with
  | none => throw (.unknownFrameKind rawKind)
  | some kind =>
    let payloadLength := integer64 data 20 28
    if maximumPayloadLength < payloadLength then
      throw (.payloadTooLarge payloadLength)
    return {
      major := integer16 data 4 6
      minor := integer16 data 6 8
      kind
      flags := integer16 data 10 12
      sequence := integer64 data 12 20
      payloadLength }

structure SessionFrame where
  header : SessionFrameHeader
  payload : List UInt8
  deriving DecidableEq, Repr

/-- One turn of the parser's loop: the frame at the front of the buffer and its
total length, if it is there whole. -/
def SessionFrameParser.front (buffer : List UInt8) :
    Except SessionStreamError (Option (SessionFrame × ℕ)) :=
  if buffer.length < SessionFrameHeader.encodedLength then .ok none
  else
    match SessionFrameHeader.decoding (buffer.take SessionFrameHeader.encodedLength) with
    | .error e => .error e
    | .ok header =>
      let total := SessionFrameHeader.encodedLength + header.payloadLength.toNat
      if buffer.length < total then .ok none
      else .ok (some (⟨header, subdata buffer SessionFrameHeader.encodedLength total⟩, total))

theorem SessionFrameParser.front_consumes (buffer : List UInt8) (frame : SessionFrame) (size : ℕ)
    (h : front buffer = .ok (some (frame, size))) : 0 < size ∧ size ≤ buffer.length := by
  rw [front] at h
  split_ifs at h with hheader
  · simp at h
  · split at h
    · simp at h
    · simp only at h
      split_ifs at h with htotal
      · simp at h
      · simp only [Except.ok.injEq, Option.some.injEq, Prod.mk.injEq] at h
        have hlength : SessionFrameHeader.encodedLength = 28 := rfl
        omega

def SessionFrameParser.reader : Reader SessionStreamError UInt8 SessionFrame :=
  ⟨SessionFrameParser.front, SessionFrameParser.front_consumes⟩

structure SessionFrameParser where
  buffer : List UInt8

/-- `init()`. -/
def SessionFrameParser.init : SessionFrameParser := ⟨[]⟩

/-- The parser keeps its buffer when a header is refused. -/
def SessionFrameParser.append (p : SessionFrameParser) (bytes : List UInt8) :
    Except SessionStreamError (List SessionFrame) × SessionFrameParser :=
  let drained := SessionFrameParser.reader.drain (p.buffer ++ bytes)
  (drained.1, ⟨drained.2⟩)

/-- `append` over successive reads, up to the first throw. -/
def SessionFrameParser.appendAll (p : SessionFrameParser) :
    List (List UInt8) → Except SessionStreamError (List (List SessionFrame)) × SessionFrameParser
  | [] => (.ok [], p)
  | bytes :: reads =>
    match p.append bytes with
    | (.error e, p') => (.error e, p')
    | (.ok frames, p') =>
      let later := p'.appendAll reads
      (later.1.map (frames :: ·), later.2)

def SessionFrameKind.ofFrameKind : FrameKind → SessionFrameKind
  | .hello => .hello
  | .profileCheckpoint => .profileCheckpoint
  | .profileDelta => .profileDelta
  | .finalizing => .finalizing
  | .finalProfile => .finalProfile
  | .failed => .failed
  | .heartbeat => .heartbeat
  | .acknowledged => .acknowledged
  | .stop => .stop
  | .protocolError => .protocolError

theorem SessionFrameKind.rawValue_ofFrameKind (kind : FrameKind) :
    (ofFrameKind kind).rawValue = kind.toU16 := by
  cases kind <;> rfl

theorem SessionFrameKind.ofFrameKind_injective : Function.Injective ofFrameKind := by
  intro kind kind' h
  have hraw : kind.toU16 = kind'.toU16 := by
    rw [← rawValue_ofFrameKind, h, rawValue_ofFrameKind]
  have hkind := FrameKind.tryFrom_toU16 kind
  rw [hraw, FrameKind.tryFrom_toU16] at hkind
  exact (Except.ok.inj hkind).symm

theorem SessionFrameKind.ofRawValue_toU16 (kind : FrameKind) :
    ofRawValue kind.toU16 = some (ofFrameKind kind) := by
  cases kind <;> rfl

def SessionFrameHeader.ofStreamHeader (h : StreamHeader) : SessionFrameHeader where
  major := h.major
  minor := h.minor
  kind := .ofFrameKind h.kind
  flags := h.flags
  sequence := h.sequence
  payloadLength := h.payloadLen

theorem integer16_of_subdata {data : List UInt8} {lower upper : ℕ} {v : UInt16}
    (h : subdata data lower upper = toBytes 2 v.toNat) : integer16 data lower upper = v := by
  apply UInt16.toNat_inj.mp
  change (shiftIn 16 (subdata data lower upper)).toNat = v.toNat
  rw [toNat_shiftIn, h, value_u16, Nat.mod_eq_of_lt v.toNat_lt]

theorem integer64_of_subdata {data : List UInt8} {lower upper : ℕ} {v : UInt64}
    (h : subdata data lower upper = toBytes 8 v.toNat) : integer64 data lower upper = v := by
  apply UInt64.toNat_inj.mp
  change (shiftIn 64 (subdata data lower upper)).toNat = v.toNat
  rw [toNat_shiftIn, h, value_u64, Nat.mod_eq_of_lt v.toNat_lt]

theorem SessionFrameHeader.decoding_encode (h : StreamHeader) :
    decoding h.encode = if maximumPayloadLength < h.payloadLen then
        .error (.payloadTooLarge h.payloadLen)
      else .ok (ofStreamHeader h) := by
  obtain ⟨hmagic, hmajor, hminor, hkind, hflags, hsequence, hpayload⟩ := h.slice_encode
  have hlength : h.encode.length = encodedLength := h.length_encode
  have hstart : subdata h.encode 0 4 = [80, 80, 82, 83] := hmagic
  simp only [decoding, hlength, hstart, integer16_of_subdata hmajor, integer16_of_subdata hminor,
    integer16_of_subdata hkind, integer16_of_subdata hflags, integer64_of_subdata hsequence,
    integer64_of_subdata hpayload, SessionFrameKind.ofRawValue_toU16, ne_eq, not_true_eq_false,
    if_false]
  split_ifs <;> rfl

theorem SessionFrameParser.front_encode {h : StreamHeader} (body : List UInt8)
    (hfits : h.payloadLen ≤ SessionFrameHeader.maximumPayloadLength) :
    front (h.encode ++ body) = if body.length < h.payloadLen.toNat then .ok none
      else .ok (some (⟨.ofStreamHeader h, body.take h.payloadLen.toNat⟩,
        SessionFrameHeader.encodedLength + h.payloadLen.toNat)) := by
  have hlength : h.encode.length = SessionFrameHeader.encodedLength := h.length_encode
  have hheader : SessionFrameHeader.decoding
      ((h.encode ++ body).take SessionFrameHeader.encodedLength) = .ok (.ofStreamHeader h) := by
    rw [← hlength, List.take_left, SessionFrameHeader.decoding_encode,
      if_neg (UInt64.not_lt.mpr hfits)]
  have hpayload : subdata (h.encode ++ body) SessionFrameHeader.encodedLength
      (SessionFrameHeader.encodedLength + h.payloadLen.toNat) = body.take h.payloadLen.toNat := by
    rw [subdata, ← hlength, List.take_length_add_append, List.drop_left]
  have hannounced : (SessionFrameHeader.ofStreamHeader h).payloadLength = h.payloadLen := rfl
  rw [front, if_neg (by rw [List.length_append, hlength]; omega), hheader]
  simp only [hannounced, hpayload, List.length_append, hlength, Nat.add_lt_add_iff_left]

/-- The arguments of one `write_frame` call. -/
structure WrittenFrame where
  kind : FrameKind
  sequence : UInt64
  payload : List UInt8
  deriving DecidableEq, Repr

def WrittenFrame.bytes (f : WrittenFrame) : List UInt8 :=
  writeFrame f.kind f.sequence f.payload

def WrittenFrame.header (f : WrittenFrame) : StreamHeader where
  major := 1
  minor := 0
  kind := f.kind
  flags := 0
  sequence := f.sequence
  payloadLen := .ofNat f.payload.length

/-- The frame with the same kind, flags, sequence and payload. -/
def WrittenFrame.received (f : WrittenFrame) : SessionFrame :=
  ⟨.ofStreamHeader f.header, f.payload⟩

/-- At most 256 MiB. -/
def WrittenFrame.Fits (f : WrittenFrame) : Prop :=
  f.payload.length ≤ 256 * 1024 * 1024

theorem WrittenFrame.bytes_eq (f : WrittenFrame) : f.bytes = f.header.encode ++ f.payload := rfl

theorem WrittenFrame.length_bytes (f : WrittenFrame) :
    f.bytes.length = SessionFrameHeader.encodedLength + f.payload.length := by
  rw [bytes_eq, List.length_append, StreamHeader.length_encode]
  rfl

theorem WrittenFrame.Fits.payloadLen {f : WrittenFrame} (h : f.Fits) :
    f.header.payloadLen.toNat = f.payload.length := by
  change f.payload.length ≤ 268435456 at h
  change (UInt64.ofNat f.payload.length).toNat = f.payload.length
  rw [UInt64.toNat_ofNat']
  omega

theorem WrittenFrame.Fits.le_maximum {f : WrittenFrame} (h : f.Fits) :
    f.header.payloadLen ≤ SessionFrameHeader.maximumPayloadLength := by
  rw [UInt64.le_iff_toNat_le, h.payloadLen]
  exact h

theorem SessionFrameParser.front_reader (data : List UInt8) :
    SessionFrameParser.reader.front data = SessionFrameParser.front data := rfl

/-- A header in front of as many bytes as it announces is recognised, and any less of them
is waited on. -/
theorem SessionFrameParser.recognises {γ : Type} {write : γ → List UInt8}
    {shows : γ → SessionFrame} {f : γ} {h : StreamHeader} {payload : List UInt8}
    (hwrite : write f = h.encode ++ payload) (hshows : shows f = ⟨.ofStreamHeader h, payload⟩)
    (hlength : h.payloadLen.toNat = payload.length)
    (hfits : h.payloadLen ≤ SessionFrameHeader.maximumPayloadLength) :
    Recognises SessionFrameParser.reader write shows f where
  whole rest := by
    have hfront := SessionFrameParser.front_encode (payload ++ rest) hfits
    rw [hlength, if_neg (by rw [List.length_append]; omega), List.take_left] at hfront
    rw [SessionFrameParser.front_reader, hwrite, hshows, List.append_assoc, hfront,
      List.length_append, h.length_encode]
    rfl
  waits head hhead hshort := by
    rw [SessionFrameParser.front_reader]
    by_cases hheader : head.length < SessionFrameHeader.encodedLength
    · rw [SessionFrameParser.front, if_pos hheader]
    · rw [hwrite] at hhead
      obtain ⟨body, rfl⟩ : h.encode <+: head :=
        List.prefix_of_prefix_length_le (List.prefix_append ..) hhead (Nat.le_of_not_lt hheader)
      have hfront := SessionFrameParser.front_encode body hfits
      rw [hwrite, List.length_append, List.length_append] at hshort
      rw [hfront, hlength, if_pos]
      exact Nat.lt_of_add_lt_add_left hshort

theorem WrittenFrame.Fits.recognises {f : WrittenFrame} (h : f.Fits) :
    Recognises SessionFrameParser.reader bytes received f :=
  SessionFrameParser.recognises f.bytes_eq rfl h.payloadLen h.le_maximum

theorem SessionFrameParser.front_oversized {h : StreamHeader} (body : List UInt8)
    (hlarge : SessionFrameHeader.maximumPayloadLength < h.payloadLen) :
    front (h.encode ++ body) = .error (.payloadTooLarge h.payloadLen) := by
  have hlength : h.encode.length = SessionFrameHeader.encodedLength := h.length_encode
  rw [front, if_neg (by rw [List.length_append, hlength]; omega), ← hlength, List.take_left,
    SessionFrameHeader.decoding_encode, if_pos hlarge]

theorem WrittenFrame.reads {f : WrittenFrame} (hlength : f.payload.length < 2 ^ 64) :
    Reads SessionFrameParser.reader bytes received f := by
  by_cases hfits : f.Fits
  · exact hfits.recognises.reads
  · have hannounced : f.header.payloadLen.toNat = f.payload.length := by
      change (UInt64.ofNat f.payload.length).toNat = f.payload.length
      rw [UInt64.toNat_ofNat', Nat.mod_eq_of_lt hlength]
    have hlarge : SessionFrameHeader.maximumPayloadLength < f.header.payloadLen := by
      rw [UInt64.lt_iff_toNat_lt, hannounced]
      exact Nat.not_le.mp hfits
    refine ⟨fun rest found h => ?_, fun head found hhead hshort h => ?_⟩
    · rw [SessionFrameParser.front_reader, f.bytes_eq, List.append_assoc,
        SessionFrameParser.front_oversized _ hlarge] at h
      cases h
    · rw [SessionFrameParser.front_reader] at h
      by_cases hheader : head.length < SessionFrameHeader.encodedLength
      · rw [SessionFrameParser.front, if_pos hheader] at h
        exact (Except.ok.inj h).symm
      · rw [f.bytes_eq] at hhead
        obtain ⟨body, rfl⟩ : f.header.encode <+: head :=
          List.prefix_of_prefix_length_le (List.prefix_append ..) hhead (Nat.le_of_not_lt hheader)
        rw [SessionFrameParser.front_oversized _ hlarge] at h
        cases h

theorem SessionFrameParser.appendAll_eq (p : SessionFrameParser) (reads : List (List UInt8)) :
    p.appendAll reads = ((reader.feed p.buffer reads).1, ⟨(reader.feed p.buffer reads).2⟩) := by
  induction reads generalizing p with
  | nil => rfl
  | cons bytes reads ih =>
    rw [appendAll, append, Reader.feed]
    cases hdrain : reader.drain (p.buffer ++ bytes) with
    | mk drained rest =>
      cases drained with
      | error e => rfl
      | ok frames =>
        simp only
        rw [ih]

/-- However a written stream is cut, and at every point of it, the parser has
returned exactly the complete frames and holds exactly the unfinished tail. -/
theorem SessionFrameParser.appendAll_written (frames : List WrittenFrame)
    (hfits : ∀ f ∈ frames, f.Fits) (reads : List (List UInt8))
    (hreads : reads.flatten <+: written WrittenFrame.bytes frames) :
    ∃ returned,
      init.appendAll reads = (.ok returned, ⟨reads.flatten.drop (written WrittenFrame.bytes
        (complete WrittenFrame.bytes frames reads.flatten.length)).length⟩) ∧
      returned.flatten =
        (complete WrittenFrame.bytes frames reads.flatten.length).map WrittenFrame.received ∧
      (reads.flatten = written WrittenFrame.bytes frames →
        init.appendAll reads = (.ok returned, ⟨[]⟩) ∧
          returned.flatten = frames.map WrittenFrame.received) := by
  have hempty : reader.front [] = .ok none := rfl
  have hstart : complete WrittenFrame.bytes frames ([] : List UInt8).length = [] := by
    apply complete_zero
    intro f _
    rw [f.length_bytes]
    exact Nat.add_pos_left (by decide) _
  obtain ⟨returned, hfeed, hreturned⟩ :=
    feed_written (fun f hf => (hfits f hf).recognises) hempty hreads hstart
  rw [List.nil_append] at hfeed hreturned
  have happend : init.appendAll reads = (.ok returned, ⟨reads.flatten.drop (written
      WrittenFrame.bytes (complete WrittenFrame.bytes frames reads.flatten.length)).length⟩) := by
    rw [appendAll_eq]
    change ((reader.feed [] reads).1, (⟨(reader.feed [] reads).2⟩ : SessionFrameParser)) = _
    rw [hfeed]
  refine ⟨returned, happend, hreturned, ?_⟩
  intro hall
  rw [hall, complete_all] at happend hreturned
  rw [List.drop_length] at happend
  exact ⟨happend, hreturned⟩

/-- A frame with a payload and an empty one, cut inside the first header. -/
theorem SessionFrameParser.appendAll_written_twoFrames :
    ∃ returned, init.appendAll [(writeFrame .hello 1 [72]).take 5,
        (writeFrame .hello 1 [72]).drop 5 ++ writeFrame .profileDelta 2 []] =
          (.ok returned, ⟨[]⟩) ∧
      returned.flatten.map (fun f => (f.header.kind, f.header.sequence, f.payload)) =
        [(.hello, 1, [72]), (.profileDelta, 2, [])] := by
  obtain ⟨returned, -, -, hall⟩ := SessionFrameParser.appendAll_written
    [⟨.hello, 1, [72]⟩, ⟨.profileDelta, 2, []⟩] (by simp [WrittenFrame.Fits])
    [(writeFrame .hello 1 [72]).take 5,
      (writeFrame .hello 1 [72]).drop 5 ++ writeFrame .profileDelta 2 []]
    ⟨[], rfl⟩
  obtain ⟨happend, hreturned⟩ := hall rfl
  refine ⟨returned, happend, ?_⟩
  rw [hreturned]
  rfl

end PProfessor.Kit

