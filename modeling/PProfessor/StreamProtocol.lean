import PProfessor.BigEndian
import PProfessor.Fallible

set_option autoImplicit false

/-!
# The session stream protocol, publisher side

The fixed 28-byte header in front of each payload and the bytes `write_frame`
puts on the socket.
-/
namespace PProfessor.SessionStream
open BigEndian

def streamHeaderLen : ℕ := 28

/-- `b"PPRS"`. -/
def magic : List UInt8 := [80, 80, 82, 83]

inductive FrameKind where
  | hello
  | profileCheckpoint
  | profileDelta
  | finalizing
  | finalProfile
  | failed
  | heartbeat
  | acknowledged
  | stop
  | protocolError
  deriving DecidableEq, Repr

def FrameKind.toU16 : FrameKind → UInt16
  | .hello => 1
  | .profileCheckpoint => 2
  | .profileDelta => 3
  | .finalizing => 4
  | .finalProfile => 5
  | .failed => 6
  | .heartbeat => 7
  | .acknowledged => 101
  | .stop => 102
  | .protocolError => 103

structure StreamProtocolError where
  message : String
  deriving DecidableEq, Repr

def FrameKind.tryFrom (value : UInt16) : Except StreamProtocolError FrameKind :=
  if value = 1 then .ok .hello
  else if value = 2 then .ok .profileCheckpoint
  else if value = 3 then .ok .profileDelta
  else if value = 4 then .ok .finalizing
  else if value = 5 then .ok .finalProfile
  else if value = 6 then .ok .failed
  else if value = 7 then .ok .heartbeat
  else if value = 101 then .ok .acknowledged
  else if value = 102 then .ok .stop
  else if value = 103 then .ok .protocolError
  else .error ⟨"unknown frame kind"⟩

structure StreamHeader where
  major : UInt16
  minor : UInt16
  kind : FrameKind
  flags : UInt16
  sequence : UInt64
  payloadLen : UInt64
  deriving DecidableEq, Repr

def StreamHeader.encode (h : StreamHeader) : List UInt8 :=
  magic ++ toBytes 2 h.major.toNat ++ toBytes 2 h.minor.toNat ++ toBytes 2 h.kind.toU16.toNat ++
    toBytes 2 h.flags.toNat ++ toBytes 8 h.sequence.toNat ++ toBytes 8 h.payloadLen.toNat

/-- `bytes[start..stop]`. -/
def slice (bytes : List UInt8) (start stop : ℕ) : List UInt8 :=
  (bytes.take stop).drop start

def StreamHeader.decode (bytes : List UInt8) : Except StreamProtocolError StreamHeader := do
  if bytes.length ≠ streamHeaderLen then
    throw ⟨"invalid header length"⟩
  if slice bytes 0 4 ≠ magic then
    throw ⟨"invalid stream magic"⟩
  let kind ← FrameKind.tryFrom (.ofNat (value (slice bytes 8 10)))
  return {
    major := .ofNat (value (slice bytes 4 6))
    minor := .ofNat (value (slice bytes 6 8))
    kind
    flags := .ofNat (value (slice bytes 10 12))
    sequence := .ofNat (value (slice bytes 12 20))
    payloadLen := .ofNat (value (slice bytes 20 28)) }

/-- The bytes of the two `write_all` calls, in order. -/
def writeFrame (kind : FrameKind) (sequence : UInt64) (payload : List UInt8) : List UInt8 :=
  let header : StreamHeader := {
    major := 1
    minor := 0
    kind
    flags := 0
    sequence
    payloadLen := .ofNat payload.length }
  header.encode ++ payload

theorem FrameKind.tryFrom_toU16 (kind : FrameKind) : tryFrom kind.toU16 = .ok kind := by
  cases kind <;> rfl

theorem StreamHeader.slice_encode (h : StreamHeader) :
    slice h.encode 0 4 = magic ∧ slice h.encode 4 6 = toBytes 2 h.major.toNat ∧
    slice h.encode 6 8 = toBytes 2 h.minor.toNat ∧
    slice h.encode 8 10 = toBytes 2 h.kind.toU16.toNat ∧
    slice h.encode 10 12 = toBytes 2 h.flags.toNat ∧
    slice h.encode 12 20 = toBytes 8 h.sequence.toNat ∧
    slice h.encode 20 28 = toBytes 8 h.payloadLen.toNat :=
  ⟨rfl, rfl, rfl, rfl, rfl, rfl, rfl⟩

theorem StreamHeader.length_encode (h : StreamHeader) : h.encode.length = streamHeaderLen := rfl

theorem value_u16 (v : UInt16) : value (toBytes 2 v.toNat) = v.toNat :=
  value_toBytes_of_lt v.toNat_lt

theorem value_u64 (v : UInt64) : value (toBytes 8 v.toNat) = v.toNat :=
  value_toBytes_of_lt v.toNat_lt

theorem StreamHeader.decode_encode (h : StreamHeader) : decode h.encode = .ok h := by
  obtain ⟨hmagic, hmajor, hminor, hkind, hflags, hsequence, hpayload⟩ := h.slice_encode
  simp only [decode, length_encode, hmagic, hmajor, hminor, hkind, hflags, hsequence, hpayload,
    value_u16, value_u64, UInt16.ofNat_toNat, UInt64.ofNat_toNat, FrameKind.tryFrom_toU16]
  rfl

end PProfessor.SessionStream
