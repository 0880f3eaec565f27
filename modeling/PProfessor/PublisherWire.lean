import PProfessor.SessionPublisher

set_option autoImplicit false

/-!
# The bytes a publisher puts on the wire

`SessionPublisher` once more, down to the two `write_all` calls of `write_frame`: a connection is
the bytes that it accepted, and the system may fail a write after any number of them. The
publisher of frames shows the same bytes, and what holds of its frames holds of the wire.
-/
namespace PProfessor.SessionStream
open CheckedArith Framing Kit

/-- The next error on a connection, after so many more bytes. -/
structure Fault where
  after : ℕ
  kind : ErrorKind
  deriving DecidableEq, Repr

/-- `Write::write_all`: the bytes accepted, and the fault that struck or is still to come. -/
def writeAll (buffer : List UInt8) :
    Option Fault → List UInt8 × Except ErrorKind (Option Fault)
  | none => (buffer, .ok none)
  | some fault =>
    if fault.after < buffer.length then (buffer.take fault.after, .error fault.kind)
    else (buffer, .ok (some ⟨fault.after - buffer.length, fault.kind⟩))

/-- `write_frame` on a connection with a fault. -/
def writeFrameTo (frame : WrittenFrame) (fault : Option Fault) :
    List UInt8 × Except ErrorKind Unit :=
  match writeAll frame.header.encode fault with
  | (header, .error kind) => (header, .error kind)
  | (header, .ok fault) =>
    match writeAll frame.payload fault with
    | (payload, .error kind) => (header ++ payload, .error kind)
    | (payload, .ok _) => (header ++ payload, .ok ())

/-- `TcpStream::connect_timeout`, the two options, and what the connection is like then. -/
inductive Attempt where
  | refused (kind : ErrorKind)
  | unusable (kind : ErrorKind)
  | connected (fault : Option Fault)
  deriving DecidableEq, Repr

/-- A `SessionPublisher` and the bytes each of its connections accepted. -/
structure WirePublisher where
  stream : Option ℕ
  sequence : UInt64
  justConnected : Bool
  opened : ℕ
  accepted : ℕ → List UInt8

namespace WirePublisher

def new : WirePublisher where
  stream := none
  sequence := 0
  justConnected := false
  opened := 0
  accepted _ := []

def takeJustConnected (p : WirePublisher) : Bool × WirePublisher :=
  (p.justConnected, { p with justConnected := false })

/-- `write_frame` on one of the connections. -/
def writeFrame (p : WirePublisher) (connection : ℕ) (frame : WrittenFrame)
    (fault : Option Fault) : Except ErrorKind Unit × WirePublisher :=
  let written := writeFrameTo frame fault
  (written.2, { p with
    accepted := Function.update p.accepted connection (p.accepted connection ++ written.1) })

def connect (p : WirePublisher) (hello : List UInt8) :
    Attempt → Except ErrorKind Bool × WirePublisher
  | .refused kind =>
    if kind ∈ [.connectionRefused, .timedOut] then (.ok false, p) else (.error kind, p)
  | .unusable kind => (.error kind, { p with opened := p.opened + 1 })
  | .connected fault =>
    let stream := p.opened
    let sequence := saturatingAddU64 p.sequence 1
    let p := { p with sequence, opened := p.opened + 1 }
    match p.writeFrame stream ⟨.hello, sequence, hello⟩ fault with
    | (.error kind, p) => (.error kind, p)
    | (.ok (), p) => (.ok true, { p with stream := some stream, justConnected := true })

def ensureConnected (p : WirePublisher) (hello : List UInt8) (attempt : Attempt) :
    Except ErrorKind Bool × WirePublisher :=
  match p.stream with
  | some _ => (.ok true, p)
  | none => p.connect hello attempt

/-- `send`, once there is a connection. -/
def sendOn (p : WirePublisher) (stream : ℕ) (kind : FrameKind) (payload : List UInt8)
    (fault : Option Fault) : Except ErrorKind Bool × WirePublisher :=
  let sequence := saturatingAddU64 p.sequence 1
  match { p with sequence }.writeFrame stream ⟨kind, sequence, payload⟩ fault with
  | (.error error, p) =>
    if error ∈ [.brokenPipe, .connectionReset, .timedOut, .wouldBlock] then
      (.ok false, { p with stream := none })
    else (.error error, { p with stream := none })
  | (.ok (), p) => (.ok true, p)

def send (p : WirePublisher) (hello : List UInt8) (kind : FrameKind) (payload : List UInt8)
    (attempt : Attempt) (fault : Option Fault) : Except ErrorKind Bool × WirePublisher :=
  match p.ensureConnected hello attempt with
  | (.ok true, p) =>
    match p.stream with
    | some stream => p.sendOn stream kind payload fault
    -- `connect` has set `stream` when it returns `Ok(true)`, so that `unwrap` does not panic.
    | none => (.ok false, p)
  | unsent => unsent

end WirePublisher

/-- One call on a publisher, with what the system answers. -/
inductive Call where
  | ensureConnected (attempt : Attempt)
  | send (kind : FrameKind) (payload : List UInt8) (attempt : Attempt) (fault : Option Fault)
  | takeJustConnected

namespace WirePublisher

def perform (hello : List UInt8) (p : WirePublisher) : Call → WirePublisher
  | .ensureConnected attempt => (p.ensureConnected hello attempt).2
  | .send kind payload attempt fault => (p.send hello kind payload attempt fault).2
  | .takeJustConnected => p.takeJustConnected.2

def run (hello : List UInt8) (calls : List Call) : WirePublisher :=
  calls.foldl (perform hello) new

end WirePublisher

/-- A fault past the end of a frame does not strike in it. -/
def WriteOutcome.of (payload : List UInt8) : Option Fault → WriteOutcome
  | none => .whole
  | some fault =>
    if fault.after < SessionFrameHeader.encodedLength + payload.length then
      .cut fault.after fault.kind
    else .whole

def ConnectOutcome.of (hello : List UInt8) : Attempt → ConnectOutcome
  | .refused kind => .refused kind
  | .unusable kind => .unusable kind
  | .connected fault => .connected (.of hello fault)

theorem WriteOutcome.of_short (payload : List UInt8) (fault : Option Fault) :
    (WriteOutcome.of payload fault).Short payload := by
  intro accepted kind h
  cases fault with
  | none => cases h
  | some fault =>
    rw [of] at h
    split_ifs at h with hlt
    cases h
    exact hlt

theorem ConnectOutcome.of_short (hello : List UInt8) (attempt : Attempt) :
    (ConnectOutcome.of hello attempt).Short hello := by
  intro write h
  cases attempt with
  | refused kind => cases h
  | unusable kind => cases h
  | connected fault =>
    cases h
    exact WriteOutcome.of_short hello fault

/-- The bytes of a frame that its connection accepted. -/
def WriteOutcome.accepted (frame : WrittenFrame) : WriteOutcome → List UInt8
  | .whole => frame.bytes
  | .cut accepted _ => frame.bytes.take accepted

def WriteOutcome.result : WriteOutcome → Except ErrorKind Unit
  | .whole => .ok ()
  | .cut _ kind => .error kind

theorem writeAll_strikes {buffer : List UInt8} {f : Fault}
    (h : f.after < buffer.length) :
    writeAll buffer (some f) = (buffer.take f.after, .error f.kind) := if_pos h

theorem writeAll_passes {buffer : List UInt8} {f : Fault} (h : ¬f.after < buffer.length) :
    writeAll buffer (some f) = (buffer, .ok (some ⟨f.after - buffer.length, f.kind⟩)) := if_neg h

theorem writeFrameTo_eq (frame : WrittenFrame) (fault : Option Fault) :
    writeFrameTo frame fault = ((WriteOutcome.of frame.payload fault).accepted frame,
      (WriteOutcome.of frame.payload fault).result) := by
  cases fault with
  | none => rfl
  | some fault =>
    have hheader : frame.header.encode.length = SessionFrameHeader.encodedLength := rfl
    rw [writeFrameTo, WriteOutcome.of]
    by_cases hstrikes : fault.after < frame.header.encode.length
    · rw [writeAll_strikes hstrikes, if_pos (by omega)]
      change (_, _) = (frame.bytes.take fault.after, _)
      rw [frame.bytes_eq, List.take_append_of_le_length (by omega)]
      rfl
    · rw [writeAll_passes hstrikes]
      dsimp only
      by_cases hlater : fault.after - frame.header.encode.length < frame.payload.length
      · rw [writeAll_strikes (f := ⟨_, fault.kind⟩) hlater, if_pos (by omega)]
        change (_, _) = (frame.bytes.take fault.after, _)
        rw [frame.bytes_eq, List.take_append,
          List.take_of_length_le (Nat.le_of_not_lt hstrikes)]
        rfl
      · rw [writeAll_passes (f := ⟨_, fault.kind⟩) hlater, if_neg (by omega)]
        rfl

def Socket.write (s : Socket) (frame : WrittenFrame) : WriteOutcome → Socket
  | .whole => ⟨s.frames ++ [frame], s.cut⟩
  | .cut accepted _ => ⟨s.frames, some (frame, accepted)⟩

theorem Socket.begun_write {s : Socket} (h : s.cut = none) (frame : WrittenFrame)
    (outcome : WriteOutcome) : (s.write frame outcome).begun = s.begun ++ [frame] := by
  cases outcome <;> simp [write, begun, h]

theorem Socket.bytes_write {s : Socket} (h : s.cut = none) (frame : WrittenFrame)
    (outcome : WriteOutcome) :
    (s.write frame outcome).bytes = s.bytes ++ outcome.accepted frame := by
  cases outcome with
  | whole =>
    rw [write, bytes, bytes, h, written_append, List.append_nil, List.append_nil]
    exact congrArg _ (List.append_nil _)
  | cut accepted kind =>
    rw [write, bytes, bytes, h, List.append_nil]
    rfl

/-- What a connection holds: first the Hello, and no more than a part of the frame that failed. -/
structure Socket.Carries (hello : List UInt8) (s : Socket) : Prop where
  first : ∀ f, s.begun.head? = some f → f.kind = .hello ∧ f.payload = hello
  cut : ∀ f accepted, s.cut = some (f, accepted) → accepted < f.bytes.length

theorem Socket.Carries.write {hello : List UInt8} {s : Socket} (h : s.Carries hello)
    (hcut : s.cut = none) {frame : WrittenFrame} {outcome : WriteOutcome}
    (hfirst : s.begun = [] → frame.kind = .hello ∧ frame.payload = hello)
    (hshort : outcome.Short frame.payload) : (s.write frame outcome).Carries hello where
  first f hf := by
    rw [begun_write hcut] at hf
    by_cases hnil : s.begun = []
    · rw [hnil] at hf
      cases hf
      exact hfirst hnil
    · rw [List.head?_append_of_ne_nil _ hnil] at hf
      exact h.first f hf
  cut f accepted hf := by
    cases outcome with
    | whole => exact h.cut f accepted hf
    | cut k kind =>
      cases hf
      rw [WrittenFrame.length_bytes]
      exact hshort _ _ rfl

/-! ## The publisher of frames shows the publisher of bytes -/

namespace SessionPublisher

variable {p : SessionPublisher} {hello : List UInt8}

def wire (p : SessionPublisher) : WirePublisher where
  stream := p.stream
  sequence := p.sequence
  justConnected := p.justConnected
  opened := p.opened
  accepted c := (p.sockets c).bytes

/-- The frames whose writes began, connection by connection. -/
def begunFrames (p : SessionPublisher) : List WrittenFrame :=
  (List.range p.opened).flatMap fun c => (p.sockets c).begun

/-- The frames that were written whole. -/
def completeFrames (p : SessionPublisher) : List WrittenFrame :=
  (List.range p.opened).flatMap fun c => (p.sockets c).frames

/-- What holds in every run, whatever is sent: only the last connection is open, and the `n`-th
frame to be begun has the number `n`, as long as there is one. -/
structure Orderly (hello : List UInt8) (p : SessionPublisher) : Prop where
  current : ∀ c, p.stream = some c → p.opened = c + 1 ∧ (p.sockets c).cut = none ∧
    (p.sockets c).frames ≠ []
  unopened : ∀ c, p.opened ≤ c → p.sockets c = .empty
  carries : ∀ c, (p.sockets c).Carries hello
  sequence : p.sequence.toNat = min p.begunFrames.length (2 ^ 64 - 1)
  numbered : p.begunFrames.map (fun f => f.sequence.toNat) =
    (List.range' 1 p.begunFrames.length).map fun n => min n (2 ^ 64 - 1)

theorem nextSequence_toNat (p : SessionPublisher) :
    p.nextSequence.toNat = min (p.sequence.toNat + 1) (2 ^ 64 - 1) := by
  have hlt := p.sequence.toNat_lt
  unfold nextSequence saturatingAddU64 addU64
  change ((if p.sequence.toNat + 1 < 2 ^ 64 then some (p.sequence + 1) else none).getD _).toNat = _
  split_ifs with h
  · rw [Option.getD_some, UInt64.toNat_add]
    change (p.sequence.toNat + 1) % 2 ^ 64 = _
    omega
  · rw [Option.getD_none]
    change 2 ^ 64 - 1 = _
    omega

theorem new_orderly : new.Orderly hello where
  current _ hc := nomatch hc
  unopened _ _ := rfl
  carries _ := ⟨fun _ hf => (nomatch hf), fun _ _ hf => (nomatch hf)⟩
  sequence := rfl
  numbered := rfl

theorem flatMap_write {p' : SessionPublisher} {c : ℕ} {socket : Socket}
    (frames : Socket → List WrittenFrame) (hempty : frames .empty = [])
    (hunopened : ∀ c, p.opened ≤ c → p.sockets c = .empty)
    (hlast : c = p.opened ∨ p.opened = c + 1) (hopened : p'.opened = c + 1)
    (hsockets : p'.sockets = Function.update p.sockets c socket) {more : List WrittenFrame}
    (hmore : frames socket = frames (p.sockets c) ++ more) :
    ((List.range p'.opened).flatMap fun i => frames (p'.sockets i)) =
      ((List.range p.opened).flatMap fun i => frames (p.sockets i)) ++ more := by
  have hp : ((List.range p.opened).flatMap fun i => frames (p.sockets i)) =
      (List.range (c + 1)).flatMap fun i => frames (p.sockets i) := by
    rcases hlast with hlast | hlast
    · rw [List.range_succ, List.flatMap_append, List.flatMap_singleton, hunopened c (by omega),
        hempty, List.append_nil, hlast]
    · rw [hlast]
  rw [hp, hopened, List.range_succ, List.flatMap_append, List.flatMap_append,
    List.flatMap_singleton, List.flatMap_singleton, hsockets, Function.update_self, hmore,
    List.append_assoc]
  refine congrArg (· ++ _) (List.flatMap_congr fun i hi => ?_)
  have hlt := List.mem_range.mp hi
  rw [Function.update_of_ne (by omega)]

/-- One call further: frames are added after the complete ones there are, and nothing is added on
a connection whose last frame is cut. -/
structure Proceeds (hello : List UInt8) (p p' : SessionPublisher) : Prop where
  orderly : p'.Orderly hello
  complete : p.completeFrames <+: p'.completeFrames
  closed : ∀ c, (p.sockets c).cut ≠ none → p'.sockets c = p.sockets c

theorem Proceeds.refl (h : p.Orderly hello) : Proceeds hello p p :=
  ⟨h, List.prefix_refl _, fun _ _ => rfl⟩

theorem Proceeds.trans {p' p'' : SessionPublisher} (h : Proceeds hello p p')
    (h' : Proceeds hello p' p'') : Proceeds hello p p'' where
  orderly := h'.orderly
  complete := h.complete.trans h'.complete
  closed c hc := by
    have hsame := h.closed c hc
    rw [← hsame] at hc ⊢
    exact h'.closed c hc

/-- The rule for a write: on the last connection, or the Hello on a new one. -/
theorem Orderly.write {p' : SessionPublisher} {c : ℕ} (h : p.Orderly hello)
    (frame : WrittenFrame) (outcome : WriteOutcome)
    (hlast : c = p.opened ∨ p.opened = c + 1) (hopened : p'.opened = c + 1)
    (hsockets : p'.sockets = Function.update p.sockets c ((p.sockets c).write frame outcome))
    (hcut : (p.sockets c).cut = none) (hsequence : p'.sequence = p.nextSequence)
    (hframe : frame.sequence = p.nextSequence)
    (hfirst : (p.sockets c).begun = [] → frame.kind = .hello ∧ frame.payload = hello)
    (hshort : outcome.Short frame.payload)
    (hstream : p'.stream = none ∨ p'.stream = some c ∧ outcome = .whole) :
    Proceeds hello p p' := by
  have hbegun : p'.begunFrames = p.begunFrames ++ [frame] :=
    flatMap_write Socket.begun rfl h.unopened hlast hopened hsockets (Socket.begun_write hcut ..)
  have hother : ∀ i, i ≠ c → p'.sockets i = p.sockets i := fun i hi => by
    rw [hsockets, Function.update_of_ne hi]
  have hself : p'.sockets c = (p.sockets c).write frame outcome := by
    rw [hsockets, Function.update_self]
  refine ⟨⟨fun i hi => ?_, fun i hi => ?_, fun i => ?_, ?_, ?_⟩, ?_, fun i hi => ?_⟩
  · rcases hstream with hnone | ⟨hsome, rfl⟩
    · exact absurd (hnone.symm.trans hi) nofun
    · cases hsome.symm.trans hi
      rw [hself]
      exact ⟨hopened, hcut, List.append_ne_nil_of_right_ne_nil _ (List.cons_ne_nil _ _)⟩
  · rw [hother i (by omega)]
    exact h.unopened i (by omega)
  · by_cases hi : i = c
    · rw [hi, hself]
      exact (h.carries c).write hcut hfirst hshort
    · rw [hother i hi]
      exact h.carries i
  · rw [hsequence, nextSequence_toNat, h.sequence, hbegun, List.length_append,
      List.length_singleton]
    omega
  · rw [hbegun, List.length_append, List.length_singleton, List.range'_concat, List.map_append,
      List.map_append, h.numbered]
    refine congrArg _ (congrArg (fun n => [n]) ?_)
    change frame.sequence.toNat = min (1 + 1 * _) _
    rw [hframe, nextSequence_toNat, h.sequence]
    omega
  · have hmore : ∃ more, ((p.sockets c).write frame outcome).frames =
        (p.sockets c).frames ++ more := by
      cases outcome with
      | whole => exact ⟨[frame], rfl⟩
      | cut accepted kind => exact ⟨[], (List.append_nil _).symm⟩
    obtain ⟨more, hmore⟩ := hmore
    exact ⟨more, (flatMap_write Socket.frames rfl h.unopened hlast hopened hsockets hmore).symm⟩
  · exact hother i fun he => hi (he ▸ hcut)

theorem connect_proceeds {outcome : ConnectOutcome} (h : p.Orderly hello)
    (hclosed : p.stream = none) (hshort : outcome.Short hello) :
    Proceeds hello p (p.connect hello outcome).2 := by
  have hnew : p.sockets p.opened = .empty := h.unopened _ (Nat.le_refl _)
  cases outcome with
  | refused kind =>
    unfold SessionPublisher.connect
    dsimp only
    split_ifs <;> exact .refl h
  | unusable kind =>
    have hopens (frames : Socket → List WrittenFrame) (hempty : frames .empty = []) :
        ((List.range (p.opened + 1)).flatMap fun i => frames (p.sockets i)) =
          (List.range p.opened).flatMap fun i => frames (p.sockets i) := by
      rw [List.range_succ, List.flatMap_append, List.flatMap_singleton, hnew, hempty,
        List.append_nil]
    have hbegun : begunFrames { p with opened := p.opened + 1 } = p.begunFrames :=
      hopens Socket.begun rfl
    refine ⟨⟨fun c hc => absurd (hclosed.symm.trans hc) nofun, fun c hc => h.unopened c ?_,
      h.carries, ?_, ?_⟩, ?_, fun c _ => rfl⟩
    · change p.opened + 1 ≤ c at hc
      omega
    · change p.sequence.toNat = min (begunFrames { p with opened := p.opened + 1 }).length _
      rw [hbegun]
      exact h.sequence
    · change (begunFrames { p with opened := p.opened + 1 }).map _ = (List.range' 1
        (begunFrames { p with opened := p.opened + 1 }).length).map _
      rw [hbegun]
      exact h.numbered
    · exact ⟨[], (List.append_nil _).trans (hopens Socket.frames rfl).symm⟩
  | connected write =>
    have hsocket : Function.update p.sockets p.opened
        (Socket.empty.write ⟨.hello, p.nextSequence, hello⟩ write) = Function.update p.sockets
          p.opened ((p.sockets p.opened).write ⟨.hello, p.nextSequence, hello⟩ write) := by
      rw [hnew]
    have hcut : (p.sockets p.opened).cut = none := by rw [hnew]; rfl
    cases write with
    | whole =>
      exact h.write _ .whole (.inl rfl) rfl hsocket hcut rfl rfl (fun _ => ⟨rfl, rfl⟩)
        (hshort _ rfl) (.inr ⟨rfl, rfl⟩)
    | cut accepted kind =>
      exact h.write _ (.cut accepted kind) (.inl rfl) rfl hsocket hcut rfl rfl
        (fun _ => ⟨rfl, rfl⟩) (hshort _ rfl) (.inl hclosed)

theorem ensureConnected_proceeds {outcome : ConnectOutcome} (h : p.Orderly hello)
    (hshort : outcome.Short hello) : Proceeds hello p (p.ensureConnected hello outcome).2 := by
  unfold SessionPublisher.ensureConnected
  split
  · exact .refl h
  · rename_i hclosed
    exact connect_proceeds h hclosed hshort

theorem sendOn_proceeds {c : ℕ} {kind : FrameKind} {payload : List UInt8}
    {outcome : WriteOutcome} (h : p.Orderly hello) (hopen : p.stream = some c)
    (hshort : outcome.Short payload) : Proceeds hello p (p.sendOn c kind payload outcome).2 := by
  obtain ⟨hlast, hcut, hne⟩ := h.current c hopen
  have hfirst (frame : WrittenFrame) : (p.sockets c).begun = [] →
      frame.kind = .hello ∧ frame.payload = hello := fun hnil =>
    absurd (List.append_eq_nil_iff.mp hnil).1 hne
  cases outcome with
  | whole =>
    exact h.write ⟨kind, p.nextSequence, payload⟩ .whole (.inr hlast) hlast rfl hcut rfl rfl
      (hfirst _) hshort (.inr ⟨hopen, rfl⟩)
  | cut accepted error =>
    unfold SessionPublisher.sendOn
    dsimp only
    split_ifs
    all_goals
      exact h.write ⟨kind, p.nextSequence, payload⟩ (.cut accepted error) (.inr hlast) hlast rfl
        hcut rfl rfl (hfirst _) hshort (.inl rfl)

theorem send_proceeds {connecting : ConnectOutcome} {kind : FrameKind} {payload : List UInt8}
    {writing : WriteOutcome} (h : p.Orderly hello) (hconnecting : connecting.Short hello)
    (hwriting : writing.Short payload) :
    Proceeds hello p (p.send hello kind payload connecting writing).2 := by
  have hensured := ensureConnected_proceeds h hconnecting
  unfold SessionPublisher.send
  split
  · rename_i p' heq
    rw [heq] at hensured
    split
    · rename_i c hopen
      exact hensured.trans (sendOn_proceeds hensured.orderly hopen hwriting)
    · exact hensured
  · exact hensured

theorem wire_write {p' : SessionPublisher} {c : ℕ} {frame : WrittenFrame} {outcome : WriteOutcome}
    (hsockets : p'.sockets = Function.update p.sockets c ((p.sockets c).write frame outcome))
    (hcut : (p.sockets c).cut = none) :
    p'.wire.accepted = Function.update p.wire.accepted c
      (p.wire.accepted c ++ outcome.accepted frame) := by
  change Socket.bytes ∘ p'.sockets = _
  rw [hsockets, Function.comp_update, Socket.bytes_write hcut]
  rfl

theorem wire_connect (h : p.Orderly hello) (attempt : Attempt) :
    p.wire.connect hello attempt = ((p.connect hello (.of hello attempt)).1,
      (p.connect hello (.of hello attempt)).2.wire) := by
  have hnew : p.sockets p.opened = .empty := h.unopened _ (Nat.le_refl _)
  cases attempt with
  | refused kind =>
    unfold WirePublisher.connect SessionPublisher.connect ConnectOutcome.of
    dsimp only
    split_ifs <;> rfl
  | unusable kind => rfl
  | connected fault =>
    have haccepted (outcome : WriteOutcome) : Function.update p.wire.accepted p.opened
        (p.wire.accepted p.opened ++ outcome.accepted ⟨.hello, p.nextSequence, hello⟩) =
          (p.setSocket p.opened
            (Socket.empty.write ⟨.hello, p.nextSequence, hello⟩ outcome)).wire.accepted := by
      refine (wire_write ?_ ?_).symm
      · rw [hnew]
        rfl
      · rw [hnew]
        rfl
    rw [WirePublisher.connect, WirePublisher.writeFrame, writeFrameTo_eq, ConnectOutcome.of]
    change (match ((WriteOutcome.of hello fault).result, { p.wire with
      sequence := p.nextSequence
      opened := p.opened + 1
      accepted := Function.update p.wire.accepted p.opened (p.wire.accepted p.opened ++
        (WriteOutcome.of hello fault).accepted ⟨.hello, p.nextSequence, hello⟩) }) with
      | (.error kind, q) => (Except.error kind, q)
      | (.ok (), q) => (.ok true, { q with
          stream := some p.opened
          justConnected := true })) = _
    rw [haccepted]
    cases WriteOutcome.of hello fault <;> rfl

theorem wire_ensureConnected (h : p.Orderly hello) (attempt : Attempt) :
    p.wire.ensureConnected hello attempt = ((p.ensureConnected hello (.of hello attempt)).1,
      (p.ensureConnected hello (.of hello attempt)).2.wire) := by
  rw [WirePublisher.ensureConnected, SessionPublisher.ensureConnected]
  change (match p.stream with
    | some _ => _
    | none => _) = _
  cases p.stream with
  | none => exact wire_connect h attempt
  | some c => rfl

theorem wire_sendOn {c : ℕ} (kind : FrameKind) (payload : List UInt8) (fault : Option Fault)
    (hcut : (p.sockets c).cut = none) :
    p.wire.sendOn c kind payload fault =
      ((p.sendOn c kind payload (.of payload fault)).1,
        (p.sendOn c kind payload (.of payload fault)).2.wire) := by
  have haccepted (outcome : WriteOutcome) : Function.update p.wire.accepted c
      (p.wire.accepted c ++ outcome.accepted ⟨kind, p.nextSequence, payload⟩) =
        (p.setSocket c ((p.sockets c).write ⟨kind, p.nextSequence, payload⟩
          outcome)).wire.accepted := (wire_write rfl hcut).symm
  rw [WirePublisher.sendOn, WirePublisher.writeFrame, writeFrameTo_eq]
  change (match ((WriteOutcome.of payload fault).result, { p.wire with
    sequence := p.nextSequence
    accepted := Function.update p.wire.accepted c (p.wire.accepted c ++
      (WriteOutcome.of payload fault).accepted ⟨kind, p.nextSequence, payload⟩) }) with
    | (.error error, q) =>
      if error ∈ [ErrorKind.brokenPipe, .connectionReset, .timedOut, .wouldBlock] then
        (Except.ok false, { q with stream := none })
      else (.error error, { q with stream := none })
    | (.ok (), q) => (.ok true, q)) = _
  rw [haccepted]
  cases WriteOutcome.of payload fault with
  | whole => rfl
  | cut accepted error =>
    unfold SessionPublisher.sendOn
    dsimp only [WriteOutcome.result]
    split_ifs <;> rfl

theorem wire_send (h : p.Orderly hello) (kind : FrameKind) (payload : List UInt8)
    (attempt : Attempt) (fault : Option Fault) :
    p.wire.send hello kind payload attempt fault =
      ((p.send hello kind payload (.of hello attempt) (.of payload fault)).1,
        (p.send hello kind payload (.of hello attempt) (.of payload fault)).2.wire) := by
  have hensured := (ensureConnected_proceeds h (ConnectOutcome.of_short hello attempt)).orderly
  rw [WirePublisher.send, SessionPublisher.send, wire_ensureConnected h]
  generalize p.ensureConnected hello (.of hello attempt) = ensured at hensured ⊢
  obtain ⟨result, p'⟩ := ensured
  match result with
  | .error error => rfl
  | .ok false => rfl
  | .ok true =>
    change (match p'.stream with
      | some stream => p'.wire.sendOn stream kind payload fault
      | none => (.ok false, p'.wire)) = ((match p'.stream with
        | some stream => p'.sendOn stream kind payload (.of payload fault)
        | none => (.ok false, p')).1, SessionPublisher.wire (match p'.stream with
        | some stream => p'.sendOn stream kind payload (.of payload fault)
        | none => (.ok false, p')).2)
    cases hopen : p'.stream with
    | none => rfl
    | some c => exact wire_sendOn kind payload fault (hensured.current c hopen).2.1

def perform (hello : List UInt8) (p : SessionPublisher) : Call → SessionPublisher
  | .ensureConnected attempt => (p.ensureConnected hello (.of hello attempt)).2
  | .send kind payload attempt fault =>
    (p.send hello kind payload (.of hello attempt) (.of payload fault)).2
  | .takeJustConnected => p.takeJustConnected.2

def run (hello : List UInt8) (calls : List Call) : SessionPublisher :=
  calls.foldl (perform hello) new

theorem perform_proceeds (h : p.Orderly hello) (call : Call) :
    Proceeds hello p (p.perform hello call) := by
  cases call with
  | ensureConnected attempt =>
    exact ensureConnected_proceeds h (ConnectOutcome.of_short hello attempt)
  | send kind payload attempt fault =>
    exact send_proceeds h (ConnectOutcome.of_short hello attempt)
      (WriteOutcome.of_short payload fault)
  | takeJustConnected =>
    exact ⟨⟨h.current, h.unopened, h.carries, h.sequence, h.numbered⟩, List.prefix_refl _,
      fun _ _ => rfl⟩

theorem foldl_proceeds (h : p.Orderly hello) (calls : List Call) :
    Proceeds hello p (calls.foldl (perform hello) p) := by
  induction calls generalizing p with
  | nil => exact .refl h
  | cons call calls ih =>
    have hstep := perform_proceeds h call
    exact hstep.trans (ih hstep.orderly)

theorem run_orderly (hello : List UInt8) (calls : List Call) : (run hello calls).Orderly hello :=
  (foldl_proceeds new_orderly calls).orderly

theorem run_append_proceeds (hello : List UInt8) (calls later : List Call) :
    Proceeds hello (run hello calls) (run hello (calls ++ later)) := by
  rw [run, run, List.foldl_append]
  exact foldl_proceeds (run_orderly hello calls) later

theorem wire_perform (h : p.Orderly hello) (call : Call) :
    p.wire.perform hello call = (p.perform hello call).wire := by
  cases call with
  | ensureConnected attempt => exact congrArg Prod.snd (wire_ensureConnected h attempt)
  | send kind payload attempt fault =>
    exact congrArg Prod.snd (wire_send h kind payload attempt fault)
  | takeJustConnected => rfl

theorem wire_foldl (h : p.Orderly hello) (calls : List Call) :
    calls.foldl (WirePublisher.perform hello) p.wire =
      (calls.foldl (perform hello) p).wire := by
  induction calls generalizing p with
  | nil => rfl
  | cons call calls ih =>
    rw [List.foldl_cons, List.foldl_cons, wire_perform h, ih (perform_proceeds h call).orderly]

theorem wire_run (hello : List UInt8) (calls : List Call) :
    WirePublisher.run hello calls = (run hello calls).wire :=
  wire_foldl new_orderly calls

theorem begunFrames_increasing (h : p.Orderly hello) (hfew : p.begunFrames.length < 2 ^ 64) :
    p.begunFrames.Pairwise fun f g => f.sequence < g.sequence := by
  have hnumbers : p.begunFrames.map (fun f => f.sequence.toNat) =
      List.range' 1 p.begunFrames.length := by
    rw [h.numbered]
    conv_rhs => rw [← List.map_id (List.range' 1 p.begunFrames.length)]
    refine List.map_congr_left fun n hn => ?_
    have hle := (List.mem_range'_1.mp hn).2
    change min n _ = n
    omega
  have hpairwise := List.pairwise_lt_range' (s := 1) (n := p.begunFrames.length)
  rw [← hnumbers, List.pairwise_map] at hpairwise
  exact hpairwise.imp fun hlt => UInt64.lt_iff_toNat_lt.mpr hlt

theorem completeFrames_sublist (p : SessionPublisher) :
    p.completeFrames.Sublist p.begunFrames := by
  unfold completeFrames begunFrames
  induction List.range p.opened with
  | nil => exact .slnil
  | cons c cs ih => exact (List.sublist_append_left _ _).append ih

end SessionPublisher

/-! ## What `Ok(true)` says -/

theorem WriteOutcome.length_accepted_le (outcome : WriteOutcome) (frame : WrittenFrame) :
    (outcome.accepted frame).length ≤ frame.bytes.length := by
  cases outcome with
  | whole => exact Nat.le_refl _
  | cut accepted kind => exact List.length_take_le' ..

theorem WriteOutcome.length_accepted_lt {outcome : WriteOutcome} (frame : WrittenFrame)
    (hshort : outcome.Short frame.payload) (hcut : outcome ≠ .whole) :
    (outcome.accepted frame).length < frame.bytes.length := by
  cases outcome with
  | whole => exact absurd rfl hcut
  | cut accepted kind =>
    have hlt := hshort _ _ rfl
    rw [WriteOutcome.accepted, List.length_take, WrittenFrame.length_bytes]
    omega

namespace WirePublisher

variable {p : WirePublisher} {hello : List UInt8}

/-- The frame is now the last one on a connection that had a complete Hello before it. -/
def WrittenWhole (hello : List UInt8) (p p' : WirePublisher) (frame : WrittenFrame) : Prop :=
  ∃ c new sequence rest, p.accepted c ++ new =
      written WrittenFrame.bytes (⟨.hello, sequence, hello⟩ :: rest) ∧
    p'.accepted c = p.accepted c ++ new ++ frame.bytes

theorem sendOn_accepted (p : WirePublisher) (c : ℕ) (kind : FrameKind) (payload : List UInt8)
    (fault : Option Fault) :
    let sent := p.sendOn c kind payload fault
    sent.2.accepted = Function.update p.accepted c (p.accepted c ++
      (WriteOutcome.of payload fault).accepted ⟨kind, sent.2.sequence, payload⟩) ∧
    (sent.1 = .ok true ↔ WriteOutcome.of payload fault = .whole) := by
  rw [sendOn, writeFrame, writeFrameTo_eq]
  dsimp only
  cases WriteOutcome.of payload fault with
  | whole => exact ⟨rfl, iff_of_true rfl rfl⟩
  | cut accepted error =>
    dsimp only [WriteOutcome.result]
    split_ifs <;> exact ⟨rfl, iff_of_false nofun nofun⟩

theorem connect_accepted (p : WirePublisher) (attempt : Attempt) (c : ℕ) :
    (p.connect hello attempt).2.accepted c = p.accepted c ∨
      c = p.opened ∧ ∃ new : List UInt8,
        new.length ≤ SessionFrameHeader.encodedLength + hello.length ∧
        (p.connect hello attempt).2.accepted c = p.accepted c ++ new := by
  cases attempt with
  | refused kind =>
    left
    unfold connect
    dsimp only
    split_ifs <;> rfl
  | unusable kind => exact .inl rfl
  | connected fault =>
    have haccepted : (p.connect hello (.connected fault)).2.accepted =
        Function.update p.accepted p.opened (p.accepted p.opened ++
          (WriteOutcome.of hello fault).accepted
            ⟨.hello, saturatingAddU64 p.sequence 1, hello⟩) := by
      rw [connect, writeFrame, writeFrameTo_eq]
      cases WriteOutcome.of hello fault <;> rfl
    rw [haccepted]
    by_cases hc : c = p.opened
    · subst hc
      have hle := (WriteOutcome.of hello fault).length_accepted_le
        ⟨.hello, saturatingAddU64 p.sequence 1, hello⟩
      rw [WrittenFrame.length_bytes] at hle
      rw [Function.update_self]
      exact .inr ⟨rfl, _, hle, rfl⟩
    · exact .inl (Function.update_of_ne hc ..)

theorem ensureConnected_accepted (p : WirePublisher) (hello : List UInt8) (attempt : Attempt)
    (c : ℕ) :
    (p.ensureConnected hello attempt).2.accepted c = p.accepted c ∨
      c = p.opened ∧ ∃ new : List UInt8,
        new.length ≤ SessionFrameHeader.encodedLength + hello.length ∧
        (p.ensureConnected hello attempt).2.accepted c = p.accepted c ++ new := by
  unfold ensureConnected
  split
  · exact .inl rfl
  · exact connect_accepted p attempt c

/-- Unless `send` returns `Ok(true)`, less than the frame arrives behind what was there. -/
theorem send_short {kind : FrameKind} {payload : List UInt8} {attempt : Attempt}
    {fault : Option Fault} (hunopened : p.accepted p.opened = [])
    (h : (p.send hello kind payload attempt fault).1 ≠ .ok true) (c : ℕ) :
    let accepted := (p.send hello kind payload attempt fault).2.accepted c
    let size := SessionFrameHeader.encodedLength + payload.length
    accepted.length < (p.accepted c).length + size ∨
      p.accepted c = [] ∧
        accepted.length < SessionFrameHeader.encodedLength + hello.length + size := by
  have hpos : 0 < SessionFrameHeader.encodedLength := Nat.succ_pos _
  have hensured (c : ℕ) := ensureConnected_accepted p hello attempt c
  unfold send at h ⊢
  split at h
  · rename_i p' heq
    rw [heq] at hensured
    dsimp only at h hensured ⊢
    have hsent : ∃ part : List UInt8, part.length < SessionFrameHeader.encodedLength +
        payload.length ∧ (match p'.stream with
          | some stream => p'.sendOn stream kind payload fault
          | none => (.ok false, p')).2.accepted c = p'.accepted c ++ part := by
      cases hopen : p'.stream with
      | none => exact ⟨[], by rw [List.length_nil]; omega, (List.append_nil _).symm⟩
      | some stream =>
        rw [hopen] at h
        obtain ⟨haccepted, hiff⟩ := sendOn_accepted p' stream kind payload fault
        dsimp only at h haccepted hiff ⊢
        rw [haccepted]
        by_cases hc : c = stream
        · subst hc
          have hlt := WriteOutcome.length_accepted_lt
            ⟨kind, (p'.sendOn c kind payload fault).2.sequence, payload⟩
            (WriteOutcome.of_short payload fault) fun hwhole => h (hiff.mpr hwhole)
          rw [WrittenFrame.length_bytes] at hlt
          exact ⟨_, hlt, Function.update_self ..⟩
        · exact ⟨[], by rw [List.length_nil]; omega,
            (Function.update_of_ne hc ..).trans (List.append_nil _).symm⟩
    obtain ⟨part, hpart, hsent⟩ := hsent
    rw [hsent, List.length_append]
    rcases hensured c with hsame | ⟨rfl, new, hnew, happended⟩
    · left
      rw [hsame]
      omega
    · right
      rw [happended, hunopened, List.nil_append]
      exact ⟨rfl, by omega⟩
  · rename_i hunsent
    dsimp only
    rcases hensured c with hsame | ⟨rfl, new, hnew, happended⟩
    · left
      rw [hsame]
      omega
    · right
      rw [happended, hunopened, List.nil_append]
      exact ⟨rfl, by omega⟩

end WirePublisher

namespace SessionPublisher

variable {p : SessionPublisher} {hello : List UInt8}

theorem unopened_accepted (h : p.Orderly hello) : p.wire.accepted p.wire.opened = [] := by
  change (p.sockets p.opened).bytes = []
  rw [h.unopened _ (Nat.le_refl _)]
  rfl

theorem Orderly.current_accepted (h : p.Orderly hello) {c : ℕ} (hopen : p.stream = some c) :
    ∃ sequence rest, p.wire.accepted c =
      written WrittenFrame.bytes (⟨.hello, sequence, hello⟩ :: rest) := by
  obtain ⟨-, hcut, hne⟩ := h.current c hopen
  cases hframes : (p.sockets c).frames with
  | nil => exact absurd hframes hne
  | cons first rest =>
    have hfirst : first.kind = .hello ∧ first.payload = hello :=
      (h.carries c).first first (by rw [Socket.begun, hframes]; rfl)
    obtain ⟨kind, sequence, payload⟩ := first
    obtain ⟨rfl, rfl⟩ := hfirst
    refine ⟨sequence, rest, ?_⟩
    change (p.sockets c).bytes = _
    rw [Socket.bytes, hcut, hframes]
    exact List.append_nil _

theorem writtenWhole_of_send (h : p.Orderly hello) {kind : FrameKind} {payload : List UInt8}
    {attempt : Attempt} {fault : Option Fault} :
    let sent := p.wire.send hello kind payload attempt fault
    sent.1 = .ok true →
      WirePublisher.WrittenWhole hello p.wire sent.2 ⟨kind, sent.2.sequence, payload⟩ := by
  intro sent hsent
  have hensured := (ensureConnected_proceeds h (ConnectOutcome.of_short hello attempt)).orderly
  have haccepted (c : ℕ) := WirePublisher.ensureConnected_accepted p.wire hello attempt c
  simp only [sent, WirePublisher.send] at hsent ⊢
  rw [wire_ensureConnected h] at hsent haccepted ⊢
  generalize p.ensureConnected hello (.of hello attempt) = ensured at hensured haccepted hsent ⊢
  obtain ⟨result, p'⟩ := ensured
  match result with
  | .error error => cases hsent
  | .ok false => cases hsent
  | .ok true =>
    change (match p'.stream with
      | some stream => p'.wire.sendOn stream kind payload fault
      | none => (.ok false, p'.wire)).1 = .ok true at hsent
    change WirePublisher.WrittenWhole hello p.wire (match p'.stream with
      | some stream => p'.wire.sendOn stream kind payload fault
      | none => (.ok false, p'.wire)).2 ⟨kind, (match p'.stream with
      | some stream => p'.wire.sendOn stream kind payload fault
      | none => (.ok false, p'.wire)).2.sequence, payload⟩
    cases hopen : p'.stream with
    | none =>
      rw [hopen] at hsent
      cases hsent
    | some c =>
      rw [hopen] at hsent
      obtain ⟨sequence, rest, hcurrent⟩ := hensured.current_accepted hopen
      obtain ⟨hwritten, hiff⟩ := WirePublisher.sendOn_accepted p'.wire c kind payload fault
      have hwhole : p'.wire.accepted c ++ WrittenFrame.bytes
          ⟨kind, (p'.wire.sendOn c kind payload fault).2.sequence, payload⟩ =
            (p'.wire.sendOn c kind payload fault).2.accepted c := by
        rw [hwritten, hiff.mp hsent, Function.update_self]
        rfl
      have hnew : ∃ new, p'.wire.accepted c = p.wire.accepted c ++ new := by
        rcases haccepted c with hsame | ⟨-, new, -, hnew⟩
        · exact ⟨[], hsame.trans (List.append_nil _).symm⟩
        · exact ⟨new, hnew⟩
      obtain ⟨new, hnew⟩ := hnew
      refine ⟨c, new, sequence, rest, hnew.symm.trans hcurrent, ?_⟩
      rw [← hnew]
      exact hwhole.symm

/-- `send` returns `Ok(true)` exactly when its frame was written whole behind a Hello. -/
theorem send_iff (h : p.Orderly hello) (kind : FrameKind) (payload : List UInt8)
    (attempt : Attempt) (fault : Option Fault) :
    let sent := p.wire.send hello kind payload attempt fault
    sent.1 = .ok true ↔
      WirePublisher.WrittenWhole hello p.wire sent.2 ⟨kind, sent.2.sequence, payload⟩ := by
  refine ⟨writtenWhole_of_send h, ?_⟩
  rintro ⟨c, new, sequence, rest, hhello, hwritten⟩
  by_contra hne
  have hlength := congrArg List.length hhello
  have hsize := congrArg List.length hwritten
  have hhellosize := WrittenFrame.length_bytes ⟨.hello, sequence, hello⟩
  rw [written, List.flatMap_cons, List.length_append, List.length_append, hhellosize] at hlength
  rw [List.length_append, List.length_append, WrittenFrame.length_bytes] at hsize
  dsimp only at hsize hlength
  rcases WirePublisher.send_short (unopened_accepted h) hne c with hshort | ⟨-, hshort⟩
  · omega
  · omega

end SessionPublisher

/-- Whatever is called on a publisher and whatever the system answers, each connection accepts a
Hello, then complete frames, and at its end at most a part of one more frame, after which it
accepts nothing. Later calls add their complete frames behind the earlier ones, and the frames
are numbered upwards across the connections. `send` says `Ok(true)` of exactly the frames that
were written whole behind a Hello. -/
theorem publisher_wire (hello : List UInt8) (calls : List Call) :
    let p := WirePublisher.run hello calls
    let framed := SessionPublisher.run hello calls
    (∀ c, p.accepted c = (framed.sockets c).bytes ∧ (framed.sockets c).Carries hello) ∧
    (∀ c, (framed.sockets c).cut ≠ none → ∀ later,
      (WirePublisher.run hello (calls ++ later)).accepted c = p.accepted c) ∧
    (∀ later, framed.completeFrames <+:
      (SessionPublisher.run hello (calls ++ later)).completeFrames) ∧
    (framed.begunFrames.length < 2 ^ 64 →
      framed.completeFrames.Pairwise fun f g => f.sequence < g.sequence) ∧
    ∀ kind payload attempt fault,
      let sent := p.send hello kind payload attempt fault
      sent.1 = .ok true ↔
        WirePublisher.WrittenWhole hello p sent.2 ⟨kind, sent.2.sequence, payload⟩ := by
  intro p framed
  have horderly := SessionPublisher.run_orderly hello calls
  have hwire : p = framed.wire := SessionPublisher.wire_run hello calls
  refine ⟨fun c => ⟨by rw [hwire]; rfl, horderly.carries c⟩, fun c hc later => ?_, fun later => ?_,
    fun hfew => ?_, fun kind payload attempt fault => ?_⟩
  · rw [hwire, SessionPublisher.wire_run]
    exact congrArg Socket.bytes
      ((SessionPublisher.run_append_proceeds hello calls later).closed c hc)
  · exact (SessionPublisher.run_append_proceeds hello calls later).complete
  · exact (SessionPublisher.begunFrames_increasing horderly hfew).sublist
      framed.completeFrames_sublist
  · rw [hwire]
    exact SessionPublisher.send_iff horderly kind payload attempt fault

def reconnecting : List Call :=
  [.send .heartbeat [] (.connected none) (some ⟨5, .brokenPipe⟩),
    .send .heartbeat [] (.connected none) none]

theorem publisher_wire_reconnecting :
    (SessionPublisher.run [] reconnecting).completeFrames.map (fun f => (f.kind, f.sequence)) =
      [(.hello, 1), (.hello, 3), (.heartbeat, 4)] ∧
    (SessionPublisher.run [] reconnecting).completeFrames.Pairwise
      fun f g => f.sequence < g.sequence :=
  ⟨by decide, (publisher_wire [] reconnecting).2.2.2.1 (by decide)⟩

end PProfessor.SessionStream
